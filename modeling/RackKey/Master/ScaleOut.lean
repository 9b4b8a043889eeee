import RackKey.Master.Stability

set_option autoImplicit false

/-! # Placement when a node is added

A master whose configuration lists one more storage node, at the end, has the ring of the old one
with the virtual nodes of the new node between the others. When none of them stands where another
virtual node stood, the ring without them is the old one (`without_initialise`), so that the old
placement is the new one with the new node down. Hence a block keeps its nodes, or the new node
takes the place of one of them (`scale_out`).
-/

namespace RackKey

open Std Words

/-- The configuration with one more storage node. -/
def MasterConfig.addNode (config : MasterConfig) (ipPort : Bytes) : MasterConfig :=
  { config with storageNodeIPs := config.storageNodeIPs ++ [ipPort] }

/-- The id that the new node gets. -/
def MasterConfig.newId (config : MasterConfig) : Nat := config.storageNodeIPs.length

/-- The virtual nodes of the new node. -/
def MasterConfig.newVirtualNodes (config : MasterConfig) (ipPort : Bytes) : List VirtualNode :=
  StorageNode.createVirtualNodes config.newId ipPort config.numVirtualNodes.toNat

namespace HashRing

variable {sha256_32 : Bytes → UInt32} {hr : HashRing} {x : Nat}

/-- The virtual nodes of the other storage nodes. -/
def without (hr : HashRing) (x : Nat) : ExtTreeMap UInt32 VirtualNode :=
  hr.ring.filter fun _ vn => vn.physicalNodeId != x

theorem without_addNode {vn : VirtualNode} (hvn : vn.physicalNodeId = x)
    (hfree : vn.hash sha256_32 ∉ hr.without x) :
    (hr.addNode sha256_32 vn).without x = hr.without x := by
  refine ExtTreeMap.ext_getElem? fun slot => ?_
  have hold : (hr.without x)[slot]? = (hr.ring[slot]?).filter fun vn => vn.physicalNodeId != x :=
    ExtTreeMap.getElem?_filter'
  have hnew : ((hr.addNode sha256_32 vn).without x)[slot]?
      = ((hr.addNode sha256_32 vn).ring[slot]?).filter fun vn => vn.physicalNodeId != x :=
    ExtTreeMap.getElem?_filter'
  rw [hnew, getElem?_addNode]
  split
  · rename_i hslot
    subst hslot
    rw [ExtTreeMap.getElem?_eq_none hfree]
    simp [hvn]
  · exact hold.symm

/-- New virtual nodes that stand apart from the others leave these as they are. -/
theorem without_addNodes {vns : List VirtualNode} (hvns : ∀ vn ∈ vns, vn.physicalNodeId = x)
    (hfree : ∀ vn ∈ vns, vn.hash sha256_32 ∉ hr.without x) :
    (vns.foldl (addNode sha256_32) hr).without x = hr.without x := by
  induction vns generalizing hr with
  | nil => rfl
  | cons vn vns ih =>
      have hone := without_addNode (hvns vn (by simp)) (hfree vn (by simp))
      rw [List.foldl_cons, ih (fun vn' h => hvns vn' (by simp [h])), hone]
      intro vn' h
      rw [hone]
      exact hfree vn' (by simp [h])

/-- Nothing is left out when the storage node has no virtual node. -/
theorem without_of_absent (h : ∀ p ∈ hr.ring.toList, p.2.physicalNodeId ≠ x) :
    hr.without x = hr.ring := by
  refine ExtTreeMap.ext_getElem? fun slot => ?_
  rw [without, ExtTreeMap.getElem?_filter']
  cases hslot : hr.ring[slot]? with
  | none => rfl
  | some vn =>
      have hne := h (slot, vn) (ExtTreeMap.mem_toList_iff_getElem?_eq_some.mpr hslot)
      simp [hne]

end HashRing

namespace MasterServer

variable {env : Env} {config : MasterConfig} {ipPort : Bytes}

/-- The nodes of a configuration are numbered in order. -/
theorem mem_storageNodes_initialise (env : Env) (config : MasterConfig) (n : Nat) :
    n ∈ (initialise env config).storageNodes ↔ n < config.storageNodeIPs.length := by
  refine (mem_foldl_insert _ _).trans ⟨?_, fun hn => Or.inr ?_⟩
  · rintro (h | ⟨sn, hsn, rfl⟩)
    · exact absurd h ExtTreeMap.not_mem_empty
    · obtain ⟨p, hp, rfl⟩ := List.mem_map.mp hsn
      exact List.snd_lt_of_mem_zipIdx hp
  · refine ⟨_, List.mem_map.mpr ⟨(config.storageNodeIPs[n], n), ?_, rfl⟩, rfl⟩
    rw [List.mk_mem_zipIdx_iff_getElem?]
    exact List.getElem?_eq_getElem hn

theorem initialise_addNode (env : Env) (config : MasterConfig) (ipPort : Bytes) :
    (initialise env (config.addNode ipPort)).hashRing
      = (config.newVirtualNodes ipPort).foldl (HashRing.addNode env.sha256_32)
          (initialise env config).hashRing := by
  unfold initialise MasterConfig.addNode
  dsimp only
  rw [List.zipIdx_append, List.map_append, List.foldl_append]
  simp [MasterConfig.newVirtualNodes, MasterConfig.newId, StorageNode.new]

/-- The new node is not one of the old ones. -/
theorem ne_newId (p : UInt32 × VirtualNode)
    (hp : p ∈ (initialise env config).hashRing.ring.toList) :
    p.2.physicalNodeId ≠ config.newId := by
  have hknown := (ringOk_initialise env config).known p hp
  rw [mem_storageNodes_initialise] at hknown
  exact hknown.ne

/-- **The ring of the larger configuration, without the new node, is the old one.** -/
theorem without_initialise (hfree : ∀ vn ∈ config.newVirtualNodes ipPort,
      vn.hash env.sha256_32 ∉ (initialise env config).hashRing.ring) :
    (initialise env (config.addNode ipPort)).hashRing.without config.newId
      = (initialise env config).hashRing.ring := by
  have habsent : (initialise env config).hashRing.without config.newId
      = (initialise env config).hashRing.ring := HashRing.without_of_absent ne_newId
  rw [initialise_addNode, HashRing.without_addNodes, habsent]
  · intro vn hvn
    obtain ⟨i, -, rfl⟩ := List.mem_map.mp hvn
    rfl
  · intro vn hvn
    rw [habsent]
    exact hfree vn hvn

end MasterServer

namespace Cluster

variable {env : Env} {config : MasterConfig} {ipPort : Bytes} {keyBlockNodeMap : KeyBlockNodeMap}
variable {nodes : Nat → StorageServer}

/-- The nodes of the old configuration that are up are those of the new one, without the new
node. -/
theorem isUp_addNode (healthy : Nat → Bool) :
    (configured env (config.addNode ipPort) keyBlockNodeMap nodes
        (Function.update healthy config.newId false)).master.isUp
      = (configured env config keyBlockNodeMap nodes healthy).master.isUp := by
  funext n
  have hlength : (config.addNode ipPort).storageNodeIPs.length = config.newId + 1 := by
    rw [MasterConfig.addNode, List.length_append]
    rfl
  have hnew : decide (n ∈ (MasterServer.initialise env (config.addNode ipPort)).storageNodes)
      = decide (n < config.newId + 1) := by
    rw [decide_eq_decide, MasterServer.mem_storageNodes_initialise, hlength]
  have hold : decide (n ∈ (MasterServer.initialise env config).storageNodes)
      = decide (n < config.newId) :=
    decide_eq_decide.mpr (MasterServer.mem_storageNodes_initialise env config n)
  rw [configured, configured, isUp_withHealth, isUp_withHealth, hnew, hold]
  by_cases hn : n = config.newId
  · subst hn
    simp
  · have hlt : decide (n < config.newId + 1) = decide (n < config.newId) := by
      rw [decide_eq_decide]
      omega
    rw [Function.update_of_ne hn, hlt]

/-- **The old walk over the healthy nodes is the new one with the new node down.** -/
theorem healthyFrom_addNode (hfree : ∀ vn ∈ config.newVirtualNodes ipPort,
      vn.hash env.sha256_32 ∉ (MasterServer.initialise env config).hashRing.ring)
    (healthy : Nat → Bool) (hash : UInt32) :
    (configured env (config.addNode ipPort) keyBlockNodeMap nodes
        (Function.update healthy config.newId false)).master.healthyFrom hash
      = (configured env config keyBlockNodeMap nodes healthy).master.healthyFrom hash := by
  set m := (configured env config keyBlockNodeMap nodes healthy).master with hm
  set m' := (configured env (config.addNode ipPort) keyBlockNodeMap nodes
    (Function.update healthy config.newId false)).master with hm'
  have hring : m'.hashRing.ring.toList.filter (fun p => p.2.physicalNodeId != config.newId)
      = m.hashRing.ring.toList := by
    have hwithout := congrArg ExtTreeMap.toList (MasterServer.without_initialise hfree)
    rw [HashRing.without, ExtTreeMap.toList_filter] at hwithout
    exact hwithout
  -- the new node is not up, so that leaving its virtual nodes out makes no difference
  have hdown : ∀ n, m.isUp n = true → n ≠ config.newId := by
    intro n hn
    rw [hm, configured, isUp_withHealth, Bool.and_eq_true, decide_eq_true_iff] at hn
    exact ((MasterServer.mem_storageNodes_initialise env config n).mp hn.1).ne
  have hkeep : ∀ p : UInt32 × VirtualNode, (m.isUp p.2.physicalNodeId &&
      (p.2.physicalNodeId != config.newId)) = m.isUp p.2.physicalNodeId := by
    intro p
    cases hp : m.isUp p.2.physicalNodeId with
    | false => rfl
    | true => simp [hdown _ hp]
  have hwalk : (m'.nodesFrom hash).filter m.isUp = (m.nodesFrom hash).filter m.isUp := by
    unfold MasterServer.nodesFrom
    rw [List.filter_map, List.filter_map, ← hring, ← Circular.filter_around, List.filter_filter]
    congr 1
    refine List.filter_congr fun p _ => ?_
    exact (hkeep p).symm
  rw [MasterServer.healthyFrom, MasterServer.healthyFrom, hm', isUp_addNode, ← hm', ← hm, hwalk]

variable (env) in
/-- With nodes enough for them, there are as many replicas as configured. -/
theorem R_initialise (hreplicas : config.replicationFactor.toNat ≤ config.storageNodeIPs.length)
    (hlength : config.storageNodeIPs.length < 2 ^ 32) :
    (MasterServer.initialise env config).R = config.replicationFactor := by
  have hle : config.replicationFactor ≤ config.numStorageNodes := by
    rw [UInt32.le_iff_toNat_le, MasterConfig.numStorageNodes, UInt32.toNat_ofNat',
      Nat.mod_eq_of_lt hlength]
    exact hreplicas
  show (if config.replicationFactor ≤ config.numStorageNodes then config.replicationFactor
    else config.numStorageNodes) = config.replicationFactor
  rw [if_pos hle]

/-- **One more storage node takes over blocks and moves no others.** Both placements end. A block
that the new node does not get has the nodes that it had; one that it gets has lost the last of
them, and the others keep their order. -/
theorem scale_out
    (hreplicas : config.replicationFactor.toNat ≤ config.storageNodeIPs.length)
    (hlength : config.storageNodeIPs.length + 1 < 2 ^ 32)
    (hfree : ∀ vn ∈ config.newVirtualNodes ipPort,
      vn.hash env.sha256_32 ∉ (MasterServer.initialise env config).hashRing.ring)
    (healthy : Nat → Bool) (hash : UInt32)
    (hR : (configured env config keyBlockNodeMap nodes healthy).master.R.toNat
      ≤ (configured env config keyBlockNodeMap nodes healthy).master.healthyOnRing.card) :
    ∃ placed placed' : List Nat,
      (∃ fuel₀, ∀ fuel ≥ fuel₀, (configured env config keyBlockNodeMap nodes
        healthy).master.selectNodes env fuel hash [] = some placed) ∧
      (∃ fuel₀, ∀ fuel ≥ fuel₀, (configured env (config.addNode ipPort) keyBlockNodeMap nodes
        healthy).master.selectNodes env fuel hash [] = some placed') ∧
      placed'.length = placed.length ∧ placed'.Nodup ∧
      (config.newId ∉ placed' → placed' = placed) ∧
      (config.newId ∈ placed' → ∃ y, y ∉ placed' ∧ placed = placed'.erase config.newId ++ [y]) := by
  set m := (configured env config keyBlockNodeMap nodes healthy).master with hm
  set c' : Cluster := ⟨{ MasterServer.initialise env (config.addNode ipPort) with
    keyBlockNodeMap := keyBlockNodeMap }, nodes⟩ with hc'
  have hring' : c'.master.RingOk env := by
    obtain ⟨hhash, hknown⟩ := MasterServer.ringOk_initialise env (config.addNode ipPort)
    exact ⟨hhash, hknown⟩
  have hfrom : ∀ hash, (c'.withDown healthy config.newId).master.healthyFrom hash
      = m.healthyFrom hash := healthyFrom_addNode hfree healthy
  have hreplicas' : c'.master.R = m.R := by
    have hmore : (config.addNode ipPort).storageNodeIPs.length = config.storageNodeIPs.length + 1 :=
      List.length_append
    have hmany : (config.addNode ipPort).replicationFactor.toNat
        ≤ (config.addNode ipPort).storageNodeIPs.length :=
      hreplicas.trans (hmore ▸ Nat.le_succ _)
    have hfew : config.storageNodeIPs.length < 2 ^ 32 := by omega
    calc c'.master.R = (config.addNode ipPort).replicationFactor :=
          R_initialise env hmany (hmore ▸ hlength)
      _ = m.R := (R_initialise env hreplicas hfew).symm
  have hR' : c'.master.R.toNat ≤ (c'.withDown healthy config.newId).master.healthyOnRing.card := by
    rw [← MasterServer.length_healthyFrom _ hash, hfrom, MasterServer.length_healthyFrom,
      hreplicas']
    exact hR
  set m' := (c'.withHealth healthy).master with hm'
  have hle : m'.R.toNat ≤ m'.healthyOnRing.card :=
    hR'.trans (healthyOnRing_down_le c' healthy config.newId)
  have hsel : ∀ fuel ≥ m.hashRing.ring.toList.length,
      m.selectNodes env fuel hash [] = some (m.successors hash) := fun fuel hfuel =>
    MasterServer.selectNodes_successors (ringOk_configured env config keyBlockNodeMap nodes healthy)
      hR hash hfuel
  have hsel' : ∀ fuel ≥ m'.hashRing.ring.toList.length,
      m'.selectNodes env fuel hash [] = some (m'.successors hash) := fun fuel hfuel =>
    MasterServer.selectNodes_successors (ringOk_withHealth hring' healthy) hle hash hfuel
  -- the placement with the new node down is the old one
  have hdown : (c'.withDown healthy config.newId).master.successors hash = m.successors hash := by
    rw [MasterServer.successors_eq, MasterServer.successors_eq, hfrom, ← hreplicas']
    rfl
  obtain ⟨hout, hin⟩ := successors_down c' healthy config.newId hash hR'
  rw [hdown] at hout hin
  have hlength' : (m'.successors hash).length = (m.successors hash).length := by
    rw [MasterServer.length_successors hle, MasterServer.length_successors hR, ← hreplicas']
    rfl
  exact ⟨m.successors hash, m'.successors hash, ⟨_, hsel⟩, ⟨_, hsel'⟩, hlength',
    (m'.nodup_healthyFrom hash).sublist (List.take_sublist _ _), fun hx => (hout hx).symm, hin⟩

private def sparseConfig : MasterConfig := ⟨[[10], [30]], 1, 2, 4⟩

private abbrev healthyCluster (config : MasterConfig) : Cluster :=
  configured (Env.ofHash headHash) config ∅
    (fun _ => ⟨DiskStorage.newStore default 8 64 50, 4, 50⟩) fun _ => true

/-- A third node that stands between two takes over from the second of them. -/
theorem scale_out_sample :
    (∃ fuel₀, ∀ fuel ≥ fuel₀, (healthyCluster (sparseConfig.addNode [20])).master.selectNodes
      (Env.ofHash headHash) fuel 15 [] = some [2, 1]) ∧
    ∃ y ∉ [2, 1], ∃ fuel₀, ∀ fuel ≥ fuel₀, (healthyCluster sparseConfig).master.selectNodes
      (Env.ofHash headHash) fuel 15 [] = some [1, y] := by
  have hfree : ∀ vn ∈ sparseConfig.newVirtualNodes [20],
      vn.hash (Env.ofHash headHash).sha256_32
        ∉ (MasterServer.initialise (Env.ofHash headHash) sparseConfig).hashRing.ring := by
    decide +kernel
  have hR : (healthyCluster sparseConfig).master.R.toNat
      ≤ (healthyCluster sparseConfig).master.healthyOnRing.card := by decide +kernel
  obtain ⟨placed, placed', hold, ⟨fuel₁, hnew⟩, -, -, -, hin⟩ :=
    scale_out (by decide) (by decide) hfree (fun _ => true) 15 hR
  have hplaced : placed' = [2, 1] := by
    set m := (healthyCluster (sparseConfig.addNode [20])).master with hm
    have hthree := MasterServer.selectNodes_successors (m := m)
      (ringOk_configured (Env.ofHash headHash) _ ∅ _ fun _ => true) (by decide +kernel) 15
      (Nat.le_max_right fuel₁ m.hashRing.ring.toList.length)
    have hsucc : m.successors 15 = [2, 1] := by decide +kernel
    rw [hnew _ (Nat.le_max_left _ _), hsucc] at hthree
    exact Option.some.inj hthree
  subst hplaced
  obtain ⟨y, hy, rfl⟩ := hin (by decide)
  exact ⟨⟨fuel₁, hnew⟩, y, hy, hold⟩

end Cluster

end RackKey
