import RackKey.Master.Placement
import RackKey.Master.Ring

set_option autoImplicit false

/-! # The successor list

The placement loop walks the ring from the hash of a block. A virtual node stands at its own hash
on the ring (`RingOk`), so that each turn of the loop goes on to the next virtual node, and the
nodes selected are the first `R` distinct healthy ones met (`selectNodes_successors`). The loop
counts nothing but the nodes it selects: with fewer than `R` healthy nodes on the ring it goes
round for ever (`selectNodes_eq_none`).
-/

namespace RackKey

open Std Words

namespace MasterServer

/-- Whether a node is up, as its flag says. -/
def isUp (m : MasterServer) (nodeId : Nat) : Bool :=
  m.storageNodes[nodeId]?.any StorageNode.isHealthy

/-- The nodes met on the ring from a hash on: those of the virtual nodes in increasing order of
their hashes, strictly after it first and then around. -/
def nodesFrom (m : MasterServer) (hash : UInt32) : List Nat :=
  (Circular.around (fun p => p.1.toNat) m.hashRing.ring.toList hash.toNat).map
    fun p => p.2.physicalNodeId

/-- The first `R` distinct healthy nodes met from a hash on. -/
def successors (m : MasterServer) (hash : UInt32) : List Nat :=
  (((m.nodesFrom hash).filter m.isUp).eraseDups).take m.R.toNat

/-- The healthy nodes that own a virtual node on the ring. -/
def healthyOnRing (m : MasterServer) : Finset Nat :=
  ((m.hashRing.ring.toList.map fun p => p.2.physicalNodeId).filter m.isUp).toFinset

/-- Each virtual node stands at its hash and belongs to a node the master knows. -/
structure RingOk (env : Env) (m : MasterServer) : Prop where
  hash : ∀ p ∈ m.hashRing.ring.toList, p.2.hash env.sha256_32 = p.1
  known : ∀ p ∈ m.hashRing.ring.toList, p.2.physicalNodeId ∈ m.storageNodes

variable {env : Env} {m : MasterServer}

theorem healthy_iff_isUp (n : Nat) : m.Healthy n ↔ m.isUp n = true := by
  unfold Healthy isUp
  rw [Option.any_eq_true]
  rfl

/-- **The loop takes the nodes off the walk**: while the walk goes on as the list `l`, the loop
selects what is collected from `l`, provided that this is enough. -/
theorem selectNodes_eq_collect (h : m.RingOk env) :
    ∀ (l l' : List (UInt32 × VirtualNode)) (fuel : Nat) (hash : UInt32) (used : List Nat),
      Circular.around (fun p => p.1.toNat) m.hashRing.ring.toList hash.toNat = l ++ l' →
      l.length ≤ fuel →
      m.R.toNat ≤ (Circular.collect m.R.toNat m.isUp
        (l.map fun p => p.2.physicalNodeId) used).length →
      m.selectNodes env fuel hash used
        = some (Circular.collect m.R.toNat m.isUp (l.map fun p => p.2.physicalNodeId) used) := by
  intro l
  induction l with
  | nil =>
      intro l' fuel hash used _ _ hR
      rw [List.map_nil, Circular.collect] at hR ⊢
      -- enough nodes were selected before the walk, so the loop is over
      cases fuel <;> rw [selectNodes, if_neg (by omega)]
  | cons p l ih =>
      intro l' fuel hash used hwalk hfuel hR
      rw [List.length_cons] at hfuel
      obtain ⟨fuel, rfl⟩ : ∃ f, fuel = f + 1 := ⟨fuel - 1, by omega⟩
      rw [List.map_cons, Circular.collect] at hR ⊢
      rw [selectNodes]
      by_cases hlt : used.length < m.R.toNat
      · rw [if_pos hlt] at hR ⊢
        rw [if_pos hlt]
        have hmem : p ∈ m.hashRing.ring.toList := by
          have hmem : p ∈ Circular.around (fun p => p.1.toNat) m.hashRing.ring.toList
              hash.toNat := by
            rw [hwalk]
            simp
          exact Circular.mem_around.mp hmem
        -- the loop finds the first virtual node of the walk, and its node is known
        have hnext : m.hashRing.findNextNode hash = some p.2 := by
          rw [HashRing.findNextNode_eq_head, hwalk]
          rfl
        obtain ⟨sn, hsn⟩ := ExtTreeMap.isSome_getElem?_iff_mem.mpr (h.known p hmem) |>
          Option.isSome_iff_exists.mp
        have hup : m.isUp p.2.physicalNodeId = sn.isHealthy := by
          rw [isUp, hsn]
          rfl
        -- the next hash is the position of the virtual node, and the walk is one turn further
        have hturn : Circular.around (fun p => p.1.toNat) m.hashRing.ring.toList
            (p.2.hash env.sha256_32).toNat = l ++ (l' ++ [p]) := by
          rw [h.hash p hmem, ← List.append_assoc]
          exact Circular.around_next m.hashRing.pairwise_ring hwalk
        simp only [hnext, hsn, Option.bind_eq_bind, Option.bind_some]
        rw [hup] at hR ⊢
        exact ih _ fuel _ _ hturn (by omega) hR
      · rw [if_neg hlt, if_neg hlt]

theorem collect_nodesFrom (hash : UInt32) :
    Circular.collect m.R.toNat m.isUp (m.nodesFrom hash) [] = m.successors hash := by
  rw [Circular.collect_eq _ _ _ _ (Nat.zero_le _), List.nil_append]
  simp [successors]

theorem toFinset_nodesFrom (hash : UInt32) :
    ((m.nodesFrom hash).filter m.isUp).toFinset = m.healthyOnRing := by
  ext n
  simp only [healthyOnRing, nodesFrom, List.mem_toFinset, List.mem_filter, List.mem_map,
    Circular.mem_around]

theorem length_successors (h : m.R.toNat ≤ m.healthyOnRing.card) (hash : UInt32) :
    (m.successors hash).length = m.R.toNat := by
  rw [successors, List.length_take, Circular.length_eraseDups, toFinset_nodesFrom]
  omega

/-- **The nodes of a block are its successors on the ring**: the loop ends after at most once
around. -/
theorem selectNodes_successors (h : m.RingOk env) (hR : m.R.toNat ≤ m.healthyOnRing.card)
    (hash : UInt32) {fuel : Nat} (hfuel : m.hashRing.ring.toList.length ≤ fuel) :
    m.selectNodes env fuel hash [] = some (m.successors hash) := by
  have hlen := length_successors hR hash
  rw [← collect_nodesFrom] at hlen ⊢
  refine selectNodes_eq_collect h _ [] fuel hash [] (List.append_nil _).symm ?_ hlen.ge
  rw [Circular.length_around]
  exact hfuel

/-- What the loop selects is on the ring. -/
theorem selectNodes_mem_ring :
    ∀ (fuel : Nat) (hash : UInt32) (used : List Nat) {nodeIds : List Nat},
      m.selectNodes env fuel hash used = some nodeIds →
      ∀ n ∈ nodeIds, n ∈ used ∨ n ∈ m.hashRing.ring.toList.map fun p => p.2.physicalNodeId := by
  intro fuel
  induction fuel with
  | zero =>
      intro hash used nodeIds h n hn
      rw [selectNodes] at h
      split at h
      · cases h
      · obtain rfl := Option.some.inj h
        exact Or.inl hn
  | succ fuel ih =>
      intro hash used nodeIds h n hn
      rw [selectNodes] at h
      split at h
      · simp only [Option.bind_eq_bind, Option.bind_eq_some_iff] at h
        obtain ⟨vn, hvn, sn, -, hrest⟩ := h
        rcases ih _ _ hrest n hn with hmem | hmem
        · split at hmem
          · rcases List.mem_append.mp hmem with hmem | hmem
            · exact Or.inl hmem
            · -- the node of the virtual node found
              rw [HashRing.findNextNode_eq_head, Option.map_eq_some_iff] at hvn
              obtain ⟨p, hp, rfl⟩ := hvn
              have hp := Circular.mem_around.mp (List.mem_of_mem_head? hp)
              rw [List.mem_singleton] at hmem
              exact Or.inr (List.mem_map.mpr ⟨p, hp, hmem.symm⟩)
          · exact Or.inl hmem
        · exact Or.inr hmem
      · obtain rfl := Option.some.inj h
        exact Or.inl hn

/-- **With too few healthy nodes the loop does not end.** -/
theorem selectNodes_eq_none (h : m.healthyOnRing.card < m.R.toNat) (fuel : Nat) (hash : UInt32) :
    m.selectNodes env fuel hash [] = none := by
  rw [Option.eq_none_iff_forall_ne_some]
  intro nodeIds hsome
  obtain ⟨hsel, hlen⟩ := selectNodes_spec fuel hash [] ⟨List.nodup_nil, Nat.zero_le _, by simp⟩
    hsome
  -- what the loop selects are distinct healthy nodes of the ring, of which there are too few
  have hsub : nodeIds.toFinset ⊆ m.healthyOnRing := by
    intro n hn
    rw [List.mem_toFinset] at hn
    rw [healthyOnRing, List.mem_toFinset, List.mem_filter, ← healthy_iff_isUp]
    refine ⟨?_, hsel.healthy n hn⟩
    rcases selectNodes_mem_ring fuel hash [] hsome n hn with hmem | hmem
    · cases hmem
    · exact hmem
  have hcard := Finset.card_le_card hsub
  rw [List.toFinset_card_of_nodup hsel.nodup, hlen] at hcard
  omega

/-! ## The ring of a configuration -/

/-- A ring whose virtual nodes stand at their hashes and belong to the nodes of `ids`. -/
private def Stands (env : Env) (ids : Nat → Prop) (hr : HashRing) : Prop :=
  ∀ (h : UInt32) (vn : VirtualNode), hr.ring[h]? = some vn →
    vn.hash env.sha256_32 = h ∧ ids vn.physicalNodeId

private theorem Stands.addNode {ids : Nat → Prop} {hr : HashRing} (h : Stands env ids hr)
    {vn : VirtualNode} (hvn : ids vn.physicalNodeId) :
    Stands env ids (hr.addNode env.sha256_32 vn) := by
  intro k vn' hk
  unfold HashRing.addNode at hk
  dsimp only at hk
  rw [ExtTreeMap.getElem?_insert] at hk
  split at hk
  · obtain rfl := Option.some.inj hk
    exact ⟨LawfulEqOrd.compare_eq_iff_eq.mp ‹_›, hvn⟩
  · exact h k vn' hk

private theorem Stands.addNodes {ids : Nat → Prop} :
    ∀ (vns : List VirtualNode) {hr : HashRing}, Stands env ids hr →
      (∀ vn ∈ vns, ids vn.physicalNodeId) →
      Stands env ids (vns.foldl (HashRing.addNode env.sha256_32) hr)
  | [], _, h, _ => h
  | vn :: vns, _, h, hvns =>
      Stands.addNodes vns (h.addNode (hvns vn (by simp))) fun vn' hvn' => hvns vn' (by simp [hvn'])

private theorem Stands.addStorageNodes {ids : Nat → Prop} :
    ∀ (sns : List StorageNode) {hr : HashRing}, Stands env ids hr →
      (∀ sn ∈ sns, ∀ vn ∈ sn.virtualNodes, ids vn.physicalNodeId) →
      Stands env ids
        (sns.foldl (fun hr sn => sn.virtualNodes.foldl (HashRing.addNode env.sha256_32) hr) hr)
  | [], _, h, _ => h
  | sn :: sns, _, h, hsns =>
      Stands.addStorageNodes sns (h.addNodes sn.virtualNodes (hsns sn (by simp)))
        fun sn' hsn' => hsns sn' (by simp [hsn'])

theorem mem_foldl_insert {n : Nat} :
    ∀ (sns : List StorageNode) (t : ExtTreeMap Nat StorageNode),
      n ∈ sns.foldl (fun m sn => m.insert sn.id sn) t ↔ n ∈ t ∨ ∃ sn ∈ sns, sn.id = n
  | [], t => by simp
  | sn :: sns, t => by
      rw [List.foldl_cons, mem_foldl_insert sns, ExtTreeMap.mem_insert,
        LawfulEqOrd.compare_eq_iff_eq]
      simp only [List.mem_cons, exists_eq_or_imp]
      tauto

/-- **The ring a master starts with is in order.** -/
theorem ringOk_initialise (env : Env) (config : MasterConfig) :
    (initialise env config).RingOk env := by
  have hstands : Stands env (· ∈ (initialise env config).storageNodes)
      (initialise env config).hashRing := by
    refine Stands.addStorageNodes _ (fun k vn hk => ?_) fun sn hsn vn hvn => ?_
    · simp [HashRing.empty] at hk
    · -- a virtual node carries the id of the storage node that made it
      refine (mem_foldl_insert _ _).mpr (Or.inr ⟨sn, hsn, ?_⟩)
      obtain ⟨p, -, rfl⟩ := List.mem_map.mp hsn
      obtain ⟨i, -, rfl⟩ := List.mem_map.mp hvn
      rfl
  constructor
  · rintro ⟨k, vn⟩ hp
    exact (hstands k vn (ExtTreeMap.mem_toList_iff_getElem?_eq_some.mp hp)).1
  · rintro ⟨k, vn⟩ hp
    exact (hstands k vn (ExtTreeMap.mem_toList_iff_getElem?_eq_some.mp hp)).2

end MasterServer

namespace Cluster

/-- The cluster of a configuration, with given blocks on record, nodes, and health flags. -/
def configured (env : Env) (config : MasterConfig) (keyBlockNodeMap : KeyBlockNodeMap)
    (nodes : Nat → StorageServer) (healthy : Nat → Bool) : Cluster :=
  withHealth ⟨{ MasterServer.initialise env config with keyBlockNodeMap := keyBlockNodeMap }, nodes⟩
    healthy

variable {env : Env}

theorem ringOk_withHealth {c : Cluster} (h : c.master.RingOk env) (healthy : Nat → Bool) :
    (c.withHealth healthy).master.RingOk env where
  hash := h.hash
  known := fun p hp => ExtTreeMap.mem_map.mpr (h.known p hp)

theorem ringOk_configured (env : Env) (config : MasterConfig) (keyBlockNodeMap : KeyBlockNodeMap)
    (nodes : Nat → StorageServer) (healthy : Nat → Bool) :
    (configured env config keyBlockNodeMap nodes healthy).master.RingOk env := by
  obtain ⟨hhash, hknown⟩ := MasterServer.ringOk_initialise env config
  exact ringOk_withHealth ⟨hhash, hknown⟩ healthy

/-- **Blocks are placed on the successor list**: whatever the flags, the loop ends for every hash
with enough healthy nodes on the ring, and selects the first `R` of them that are met from the hash
on, each once. -/
theorem placement_successors (config : MasterConfig) (keyBlockNodeMap : KeyBlockNodeMap)
    (nodes : Nat → StorageServer) (healthy : Nat → Bool) (hash : UInt32)
    (hR : (configured env config keyBlockNodeMap nodes healthy).master.R.toNat
      ≤ (configured env config keyBlockNodeMap nodes healthy).master.healthyOnRing.card) :
    let m := (configured env config keyBlockNodeMap nodes healthy).master
    (∃ fuel₀, ∀ fuel ≥ fuel₀, m.selectNodes env fuel hash [] = some (m.successors hash)) ∧
      (m.successors hash).length = m.R.toNat ∧ (m.successors hash).Nodup ∧
      ∀ n ∈ m.successors hash, m.Healthy n := by
  intro m
  have hring := ringOk_configured env config keyBlockNodeMap nodes healthy
  have hsel := MasterServer.selectNodes_successors hring hR hash le_rfl
  obtain ⟨hs, hlen⟩ := MasterServer.selectNodes_spec _ hash []
    ⟨List.nodup_nil, Nat.zero_le _, by simp⟩ hsel
  exact ⟨⟨_, fun fuel hfuel => MasterServer.selectNodes_successors hring hR hash hfuel⟩, hlen,
    hs.nodup, hs.healthy⟩

/-! ## Too few healthy nodes -/

/-- A payload that is not empty gives at least one block. -/
theorem buildBlocks_ne_nil {m : MasterServer} {key payload : Bytes}
    {payloadSize i blockCnt : UInt32} (hi : i < payloadSize) {fuel : Nat} {blocks : List Block}
    (h : m.buildBlocks key payload payloadSize fuel i blockCnt = some blocks) : blocks ≠ [] := by
  cases fuel with
  | zero =>
      rw [MasterServer.buildBlocks, if_pos hi] at h
      cases h
  | succ fuel =>
      rw [MasterServer.buildBlocks, if_pos hi] at h
      simp only [Option.bind_eq_bind, Option.bind_eq_some_iff] at h
      obtain ⟨rest, -, hcons⟩ := h
      obtain rfl := Option.some.inj hcons
      exact List.cons_ne_nil _ _

/-- With too few healthy nodes on the ring, a PUT of at least one block is never answered. -/
theorem putHandler_eq_none {c : Cluster} (h : c.master.healthyOnRing.card < c.master.R.toNat)
    (reach : Nat → Bool) (fuel : Nat) (key payload : Bytes)
    (hne : ∀ blocks, c.master.buildBlocks key payload (UInt32.ofNat payload.length) fuel 0 0
      = some blocks → blocks ≠ []) : c.putHandler env reach fuel key payload = none := by
  have hdist : c.distribute env fuel key payload = none := by
    unfold distribute
    cases hblocks : c.master.buildBlocks key payload (UInt32.ofNat payload.length) fuel 0 0 with
    | none => rfl
    | some blocks =>
        have hplaced : c.master.placeBlocks env fuel key blocks = none := by
          cases blocks with
          | nil => exact absurd rfl (hne [] hblocks)
          | cons block blocks =>
              rw [MasterServer.placeBlocks, MasterServer.placeBlock,
                MasterServer.selectNodes_eq_none h]
              rfl
        simp only [hplaced, Option.bind_eq_bind, Option.bind_some, Option.bind_none]
  rw [putHandler, hdist]
  rfl

/-- The placement of a block ends well: with `R` distinct healthy nodes, or, when there are fewer,
in an error reply to a PUT that has the block, with nothing changed. -/
def PlacementEnds (env : Env) (reach : Nat → Bool) (c : Cluster) (key : Bytes)
    (blockNum : UInt32) : Prop :=
  (∃ fuel nodeIds, c.master.placeBlock env fuel key blockNum = some nodeIds ∧
      nodeIds.length = c.master.R.toNat ∧ nodeIds.Nodup ∧ ∀ n ∈ nodeIds, c.master.Healthy n) ∨
    (c.master.healthyOnRing.card < c.master.R.toNat ∧
      ∃ fuel payload blocks response c',
        c.master.buildBlocks key payload (UInt32.ofNat payload.length) fuel 0 0 = some blocks ∧
        (∃ b ∈ blocks, b.blockNum = blockNum) ∧
        c.putHandler env reach fuel key payload = some (response, c') ∧ response.status ≠ .OK ∧
        c'.master.keyBlockNodeMap = c.master.keyBlockNodeMap ∧ c'.nodes = c.nodes)

/-- **When the placement of a block ends**: exactly when there are `R` distinct healthy nodes on
the ring. -/
theorem placement_ends_iff (config : MasterConfig) (keyBlockNodeMap : KeyBlockNodeMap)
    (nodes : Nat → StorageServer) (healthy reach : Nat → Bool) (key : Bytes) (blockNum : UInt32) :
    PlacementEnds env reach (configured env config keyBlockNodeMap nodes healthy) key blockNum ↔
      (configured env config keyBlockNodeMap nodes healthy).master.R.toNat
        ≤ (configured env config keyBlockNodeMap nodes healthy).master.healthyOnRing.card := by
  have hring := ringOk_configured env config keyBlockNodeMap nodes healthy
  generalize configured env config keyBlockNodeMap nodes healthy = c at hring
  constructor
  · intro h
    by_contra hlt
    have hlt := Nat.lt_of_not_le hlt
    -- neither a selection nor an error reply: the loop has no other end than `R` nodes
    rcases h with ⟨fuel, nodeIds, hplace, -⟩ | ⟨-, fuel, payload, blocks, r, c', hb, hmem, hput, -⟩
    · rw [MasterServer.placeBlock, MasterServer.selectNodes_eq_none hlt] at hplace
      cases hplace
    · have hne : blocks ≠ [] := by
        rintro rfl
        obtain ⟨b, hb, -⟩ := hmem
        cases hb
      rw [putHandler_eq_none hlt reach fuel key payload (fun blocks' hb' => by
        rw [← Option.some.inj (hb.symm.trans hb')]
        exact hne)] at hput
      cases hput
  · intro hR
    have hsel := MasterServer.selectNodes_successors hring hR
      (env.sha256_32 (key ++ StringUtils.toString blockNum.toNat)) le_rfl
    obtain ⟨hs, hlen⟩ := MasterServer.placeBlock_spec hsel
    exact Or.inl ⟨_, _, hsel, hlen, hs.nodup, hs.healthy⟩

/-! ## Two nodes -/

private def twoNodes : MasterConfig := ⟨[[10], [20]], 1, 2, 4⟩

private def emptyNodes : Nat → StorageServer :=
  fun _ => ⟨DiskStorage.newStore default 8 64 50, 4, 50⟩

/-- With both nodes up, a hash between their positions places a block on the second node first. -/
theorem placement_successors_two :
    let m := (configured (Env.ofHash headHash) twoNodes ∅ emptyNodes fun _ => true).master
    (∃ fuel₀, ∀ fuel ≥ fuel₀, m.selectNodes (Env.ofHash headHash) fuel 15 [] = some [1, 0]) ∧
      m.R = 2 := by
  intro m
  have hR : m.R.toNat ≤ m.healthyOnRing.card := by decide +kernel
  have hsucc : m.successors 15 = [1, 0] := by decide +kernel
  have hends : ∃ fuel₀, ∀ fuel ≥ fuel₀, m.selectNodes (Env.ofHash headHash) fuel 15 []
      = some (m.successors 15) :=
    (placement_successors twoNodes ∅ emptyNodes (fun _ => true) 15 hR).1
  rw [hsucc] at hends
  exact ⟨hends, by decide +kernel⟩

/-- With one of them down, no block is ever placed, and a PUT is never answered. -/
theorem placement_never_ends :
    let c := configured (Env.ofHash headHash) twoNodes ∅ emptyNodes fun n => n == 0
    (∀ reach key blockNum, ¬ PlacementEnds (Env.ofHash headHash) reach c key blockNum) ∧
      ∀ reach fuel key, c.putHandler (Env.ofHash headHash) reach fuel key [1, 2, 3] = none := by
  intro c
  have hlt : c.master.healthyOnRing.card < c.master.R.toNat := by decide +kernel
  refine ⟨fun reach key blockNum h => ?_, fun reach fuel key => ?_⟩
  · rw [placement_ends_iff] at h
    exact absurd h (Nat.not_le_of_lt hlt)
  · exact putHandler_eq_none hlt reach fuel key _ fun blocks => buildBlocks_ne_nil (by decide)

end Cluster

end RackKey
