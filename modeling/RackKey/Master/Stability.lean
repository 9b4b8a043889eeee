import RackKey.Master.Successors

set_option autoImplicit false

/-! # Placement when a node goes down

The nodes of a block are the first `R` of the distinct healthy nodes met from its hash on. A node
that goes down leaves that list and changes nothing else in it (`healthyFrom_down`), so that the
other nodes of the block keep their places and the next node of the list follows them
(`placement_stable`).
-/

namespace RackKey

open Std Words

namespace MasterServer

/-- The distinct healthy nodes, in the order in which they are met from a hash on. -/
def healthyFrom (m : MasterServer) (hash : UInt32) : List Nat :=
  ((m.nodesFrom hash).filter m.isUp).eraseDups

theorem successors_eq (m : MasterServer) (hash : UInt32) :
    m.successors hash = (m.healthyFrom hash).take m.R.toNat := rfl

theorem nodup_healthyFrom (m : MasterServer) (hash : UInt32) : (m.healthyFrom hash).Nodup :=
  Circular.nodup_eraseDups _

theorem length_healthyFrom (m : MasterServer) (hash : UInt32) :
    (m.healthyFrom hash).length = m.healthyOnRing.card := by
  rw [healthyFrom, Circular.length_eraseDups, toFinset_nodesFrom]

end MasterServer

namespace Cluster

variable {env : Env}

theorem isUp_withHealth (c : Cluster) (healthy : Nat → Bool) (n : Nat) :
    (c.withHealth healthy).master.isUp n = (decide (n ∈ c.master.storageNodes) && healthy n) := by
  show ((c.master.storageNodes.map fun id sn => { sn with isHealthy := healthy id })[n]?).any
    StorageNode.isHealthy = _
  rw [ExtTreeMap.getElem?_map]
  by_cases hn : n ∈ c.master.storageNodes
  · rw [decide_eq_true hn, Bool.true_and, ExtTreeMap.getElem?_eq_some_getElem hn]
    rfl
  · rw [decide_eq_false hn, Bool.false_and, ExtTreeMap.getElem?_eq_none hn]
    rfl

/-- The cluster whose health flags differ from the given ones in that node `x` is down. -/
def withDown (c : Cluster) (healthy : Nat → Bool) (x : Nat) : Cluster :=
  c.withHealth (Function.update healthy x false)

theorem isUp_withDown (c : Cluster) (healthy : Nat → Bool) (x n : Nat) :
    (c.withDown healthy x).master.isUp n
      = ((c.withHealth healthy).master.isUp n && n != x) := by
  rw [withDown, isUp_withHealth, isUp_withHealth, Bool.and_assoc]
  congr 1
  by_cases hn : n = x
  · rw [hn, Function.update_self, bne_self_eq_false, Bool.and_false]
  · rw [Function.update_of_ne hn, bne_iff_ne.mpr hn, Bool.and_true]

/-- **A node that goes down leaves the list**, and the others keep their order. -/
theorem healthyFrom_down (c : Cluster) (healthy : Nat → Bool) (x : Nat) (hash : UInt32) :
    (c.withDown healthy x).master.healthyFrom hash
      = ((c.withHealth healthy).master.healthyFrom hash).erase x := by
  have hup : (c.withDown healthy x).master.isUp
      = fun n => (c.withHealth healthy).master.isUp n && n != x := by
    funext n
    exact isUp_withDown c healthy x n
  have hnodes : (c.withDown healthy x).master.nodesFrom hash
      = (c.withHealth healthy).master.nodesFrom hash := rfl
  rw [(MasterServer.nodup_healthyFrom _ hash).erase_eq_filter, MasterServer.healthyFrom,
    MasterServer.healthyFrom, hup, hnodes, ← Circular.filter_eraseDups, List.filter_filter]
  simp only [Bool.and_comm]

theorem healthyOnRing_down_le (c : Cluster) (healthy : Nat → Bool) (x : Nat) :
    (c.withDown healthy x).master.healthyOnRing.card
      ≤ (c.withHealth healthy).master.healthyOnRing.card := by
  rw [← MasterServer.length_healthyFrom _ 0, ← MasterServer.length_healthyFrom _ 0,
    healthyFrom_down]
  exact List.length_erase_le

/-- The successors without a node: the same if it was not one of them, and otherwise it is left
out and one new node follows the others. -/
theorem successors_down (c : Cluster) (healthy : Nat → Bool) (x : Nat) (hash : UInt32)
    (hR : c.master.R.toNat ≤ (c.withDown healthy x).master.healthyOnRing.card) :
    let placed := (c.withHealth healthy).master.successors hash
    let placed' := (c.withDown healthy x).master.successors hash
    (x ∉ placed → placed' = placed) ∧
      (x ∈ placed → ∃ y, y ∉ placed ∧ placed' = placed.erase x ++ [y]) := by
  set m := (c.withHealth healthy).master with hm
  set m' := (c.withDown healthy x).master with hm'
  have hnodup := m.nodup_healthyFrom hash
  have hdown : m'.successors hash = ((m.healthyFrom hash).erase x).take m.R.toNat := by
    rw [MasterServer.successors_eq, hm', healthyFrom_down]
    rfl
  constructor
  · intro hx
    rw [hdown]
    exact Circular.take_erase_of_notMem hx
  · intro hx
    -- without `x` there are still `R` nodes on the list
    have hlt : m.R.toNat < (m.healthyFrom hash).length := by
      have hmem : x ∈ m.healthyFrom hash := List.mem_of_mem_take hx
      have hpos := List.length_pos_of_mem hmem
      have hcard : m'.healthyOnRing.card = (m.healthyFrom hash).length - 1 := by
        rw [← MasterServer.length_healthyFrom _ hash, hm', healthyFrom_down]
        exact List.length_erase_of_mem hmem
      have hR : m.R.toNat ≤ m'.healthyOnRing.card := hR
      omega
    refine ⟨(m.healthyFrom hash)[m.R.toNat], fun hmem => ?_, ?_⟩
    · rw [MasterServer.successors_eq, List.mem_take_iff_getElem] at hmem
      obtain ⟨i, hi, heq⟩ := hmem
      have := (hnodup.getElem_inj_iff).mp heq
      omega
    · rw [hdown]
      exact Circular.take_erase_of_mem hx hlt

/-- **Placement is stable under the failure of a node**: with `R` distinct healthy nodes on the
ring without it, both placements end. They are the same if the node was not selected, and
otherwise the node is left out, the others keep their order, and one new node follows them. -/
theorem placement_stable {c : Cluster} (hring : c.master.RingOk env) (healthy : Nat → Bool)
    (x : Nat) (hash : UInt32)
    (hR : c.master.R.toNat ≤ (c.withDown healthy x).master.healthyOnRing.card) :
    ∃ placed placed' : List Nat,
      (∃ fuel₀, ∀ fuel ≥ fuel₀,
        (c.withHealth healthy).master.selectNodes env fuel hash [] = some placed) ∧
      (∃ fuel₀, ∀ fuel ≥ fuel₀,
        (c.withDown healthy x).master.selectNodes env fuel hash [] = some placed') ∧
      placed.length = c.master.R.toNat ∧ placed.Nodup ∧
      (x ∉ placed → placed' = placed) ∧
      (x ∈ placed → ∃ y, y ∉ placed ∧ placed' = placed.erase x ++ [y]) := by
  set m := (c.withHealth healthy).master with hm
  set m' := (c.withDown healthy x).master with hm'
  have hle : m.R.toNat ≤ m.healthyOnRing.card := hR.trans (healthyOnRing_down_le c healthy x)
  have hsel : ∀ fuel ≥ m.hashRing.ring.toList.length,
      m.selectNodes env fuel hash [] = some (m.successors hash) := fun fuel hfuel =>
    MasterServer.selectNodes_successors (ringOk_withHealth hring healthy) hle hash hfuel
  have hsel' : ∀ fuel ≥ m'.hashRing.ring.toList.length,
      m'.selectNodes env fuel hash [] = some (m'.successors hash) := fun fuel hfuel =>
    MasterServer.selectNodes_successors (ringOk_withHealth hring _) hR hash hfuel
  exact ⟨m.successors hash, m'.successors hash, ⟨_, hsel⟩, ⟨_, hsel'⟩,
    MasterServer.length_successors hle hash,
    (m.nodup_healthyFrom hash).sublist (List.take_sublist _ _), successors_down c healthy x hash hR⟩

/-! ## Three nodes -/

private def threeNodes : MasterConfig := ⟨[[10], [20], [30]], 1, 2, 4⟩

/-- A hash between the first two positions, whose first node goes down. -/
theorem placement_stable_three :
    let c : Cluster := ⟨MasterServer.initialise (Env.ofHash headHash) threeNodes,
      fun _ => ⟨DiskStorage.newStore default 8 64 50, 4, 50⟩⟩
    (∃ fuel₀, ∀ fuel ≥ fuel₀, (c.withHealth fun _ => true).master.selectNodes
      (Env.ofHash headHash) fuel 15 [] = some [1, 2]) ∧
    ∃ y ∉ [1, 2], ∃ fuel₀, ∀ fuel ≥ fuel₀, (c.withDown (fun _ => true) 1).master.selectNodes
      (Env.ofHash headHash) fuel 15 [] = some [2, y] := by
  intro c
  have hring : c.master.RingOk (Env.ofHash headHash) :=
    MasterServer.ringOk_initialise (Env.ofHash headHash) threeNodes
  have hR : c.master.R.toNat ≤ (c.withDown (fun _ => true) 1).master.healthyOnRing.card := by
    decide +kernel
  obtain ⟨placed, placed', ⟨fuel₀, hsel⟩, hsel', -, -, -, hin⟩ :=
    placement_stable hring (fun _ => true) 1 15 hR
  -- three rounds are enough for the first placement
  have hplaced : placed = [1, 2] := by
    have hsucc : (c.withHealth fun _ => true).master.successors 15 = [1, 2] := by decide +kernel
    have hthree := MasterServer.selectNodes_successors (m := (c.withHealth fun _ => true).master)
      (ringOk_withHealth hring fun _ => true) (by decide +kernel) 15 (Nat.le_max_right fuel₀ _)
    rw [hsel _ (Nat.le_max_left _ _), hsucc] at hthree
    exact Option.some.inj hthree
  subst hplaced
  obtain ⟨y, hy, rfl⟩ := hin (by decide)
  exact ⟨⟨fuel₀, hsel⟩, y, hy, hsel'⟩

end Cluster

end RackKey
