import RackKey.Lib.Circular
import RackKey.Lib.Multimap
import RackKey.Master.HashRing

set_option autoImplicit false

/-! # The ring under additions and removals

On a ring that additions and removals have led to, each virtual node stands at its own hash
(`standing_calls`). Going from a virtual node to the next one is then a single cycle through all of
them (`visit_cycle`), and an addition changes nothing but the lookups that now end at the new node
(`findNextNode_moves`). The position is all that the ring knows a virtual node by, so a node added
at the position of another replaces it, and the removal of the one leaves neither
(`removal_not_inverse`).
-/

namespace RackKey

open Std Words

namespace HashRing

variable {sha256_32 : Bytes → UInt32} {hr : HashRing} {vn : VirtualNode}

theorem pairwise_ring (hr : HashRing) :
    hr.ring.toList.Pairwise fun p q => p.1.toNat < q.1.toNat := by
  refine hr.ring.ordered_keys_toList.imp fun {p q} h => ?_
  exact UInt32.lt_iff_toNat_lt.mp (compareOfLessAndEq_eq_lt.mp h)

/-- `findNextNode` is the next element of the circle. -/
theorem findNextNode_eq (hr : HashRing) (hash : UInt32) :
    hr.findNextNode hash
      = (Circular.next (fun p => p.1.toNat) hr.ring.toList hash.toNat).map Prod.snd := by
  unfold findNextNode Circular.next
  simp only [UInt32.lt_iff_toNat_lt]
  cases hr.ring.toList.find? fun p => decide (hash.toNat < p.1.toNat) <;> rfl

theorem findNextNode_eq_head (hr : HashRing) (hash : UInt32) :
    hr.findNextNode hash
      = (Circular.around (fun p => p.1.toNat) hr.ring.toList hash.toNat).head?.map Prod.snd := by
  rw [findNextNode_eq, Circular.next_eq_head]

/-- The virtual node found stands before all others when one looks from the hash. -/
theorem findNextNode_eq_some_iff {hash : UInt32} :
    hr.findNextNode hash = some vn ↔ ∃ slot, hr.ring[slot]? = some vn ∧
      ∀ slot' ∈ hr.ring, slot' = slot ∨ Circular.Before hash.toNat slot.toNat slot'.toNat := by
  rw [findNextNode_eq, Option.map_eq_some_iff]
  constructor
  · rintro ⟨⟨slot, vn⟩, hnext, rfl⟩
    obtain ⟨hmem, hmin⟩ := (Circular.next_eq_some_iff hr.pairwise_ring).mp hnext
    refine ⟨slot, ExtTreeMap.mem_toList_iff_getElem?_eq_some.mp hmem, fun slot' hslot' => ?_⟩
    rw [ExtTreeMap.mem_iff_isSome_getElem?, Option.isSome_iff_exists] at hslot'
    obtain ⟨vn', hvn'⟩ := hslot'
    have hor := hmin (slot', vn') (ExtTreeMap.mem_toList_iff_getElem?_eq_some.mpr hvn')
    exact hor.imp_left fun h => (Prod.mk.inj h).1
  · rintro ⟨slot, hslot, hmin⟩
    refine ⟨(slot, vn), (Circular.next_eq_some_iff hr.pairwise_ring).mpr
      ⟨ExtTreeMap.mem_toList_iff_getElem?_eq_some.mpr hslot, ?_⟩, rfl⟩
    rintro ⟨slot', vn'⟩ hp
    have hvn' := ExtTreeMap.mem_toList_iff_getElem?_eq_some.mp hp
    refine (hmin slot' (mem_of_getElem?_eq_some hvn')).imp_left fun h => ?_
    subst h
    rw [Option.some.inj (hslot.symm.trans hvn')]

/-! ## Calls -/

/-- A change of the ring. -/
inductive Call where
  | addNode (virtualNode : VirtualNode)
  | removeNode (virtualNode : VirtualNode)
  deriving DecidableEq, Repr

def Call.run (sha256_32 : Bytes → UInt32) (hr : HashRing) : Call → HashRing
  | .addNode vn => hr.addNode sha256_32 vn
  | .removeNode vn => hr.removeNode sha256_32 vn

/-- The ring that a sequence of calls makes of a new one. -/
def ofCalls (sha256_32 : Bytes → UInt32) (calls : List Call) : HashRing :=
  calls.foldl (Call.run sha256_32) empty

/-- Each virtual node stands at its own hash. -/
def Standing (sha256_32 : Bytes → UInt32) (hr : HashRing) : Prop :=
  ∀ (slot : UInt32) (vn : VirtualNode), hr.ring[slot]? = some vn → vn.hash sha256_32 = slot

theorem getElem?_addNode (hr : HashRing) (vn : VirtualNode) (slot : UInt32) :
    (hr.addNode sha256_32 vn).ring[slot]?
      = if vn.hash sha256_32 = slot then some vn else hr.ring[slot]? := getElem?_insert_eq _ _ _ _

theorem getElem?_removeNode (hr : HashRing) (vn : VirtualNode) (slot : UInt32) :
    (hr.removeNode sha256_32 vn).ring[slot]?
      = if vn.hash sha256_32 = slot then none else hr.ring[slot]? := getElem?_erase_eq _ _ _

theorem standing_empty : empty.Standing sha256_32 := by
  intro slot vn h
  simp [empty] at h

theorem Standing.addNode (h : hr.Standing sha256_32) (vn : VirtualNode) :
    (hr.addNode sha256_32 vn).Standing sha256_32 := by
  intro slot vn' hvn'
  rw [getElem?_addNode] at hvn'
  split at hvn'
  · obtain rfl := Option.some.inj hvn'
    assumption
  · exact h slot vn' hvn'

theorem Standing.removeNode (h : hr.Standing sha256_32) (vn : VirtualNode) :
    (hr.removeNode sha256_32 vn).Standing sha256_32 := by
  intro slot vn' hvn'
  rw [getElem?_removeNode] at hvn'
  split at hvn'
  · cases hvn'
  · exact h slot vn' hvn'

theorem Standing.run (h : hr.Standing sha256_32) (call : Call) :
    (call.run sha256_32 hr).Standing sha256_32 := by
  cases call with
  | addNode vn => exact h.addNode vn
  | removeNode vn => exact h.removeNode vn

/-- **Every call keeps the virtual nodes at their hashes.** -/
theorem standing_calls (calls : List Call) : (ofCalls sha256_32 calls).Standing sha256_32 := by
  unfold ofCalls
  induction calls using List.reverseRecOn with
  | nil => exact standing_empty
  | append_singleton calls call ih =>
      rw [List.foldl_append, List.foldl_cons, List.foldl_nil]
      exact ih.run call

/-! ## Going around -/

/-- The virtual node met at a step, when each step goes on from the hash of the one before. -/
def visit (sha256_32 : Bytes → UInt32) (hr : HashRing) (hash : UInt32) : Nat → Option VirtualNode
  | 0 => hr.findNextNode hash
  | i + 1 => do
      let vn ← visit sha256_32 hr hash i
      hr.findNextNode (vn.hash sha256_32)

/-- The virtual nodes in increasing order of their hashes, strictly after a hash first and then
around. -/
def nodesAfter (hr : HashRing) (hash : UInt32) : List VirtualNode :=
  (Circular.around (fun p => p.1.toNat) hr.ring.toList hash.toNat).map Prod.snd

theorem visit_eq_walk (h : hr.Standing sha256_32) (hash : UInt32) (i : Nat) :
    hr.visit sha256_32 hash i
      = (Circular.walk (fun p => p.1.toNat) hr.ring.toList hash.toNat i).map Prod.snd := by
  induction i with
  | zero => exact hr.findNextNode_eq hash
  | succ i ih =>
      rw [visit, ih, Circular.walk]
      cases hwalk : Circular.walk (fun p => p.1.toNat) hr.ring.toList hash.toNat i with
      | none => rfl
      | some p =>
          -- the walk stays on the ring, where the node stands at its hash
          have hmem : p ∈ hr.ring.toList := by
            rw [Circular.walk_eq hr.pairwise_ring] at hwalk
            exact Circular.mem_around.mp (List.mem_of_getElem? hwalk)
          have hslot := h p.1 p.2 (ExtTreeMap.mem_toList_iff_getElem?_eq_some.mp hmem)
          simp only [Option.map_some, Option.bind_eq_bind, Option.bind_some, hslot]
          exact hr.findNextNode_eq p.1

theorem visit_eq (h : hr.Standing sha256_32) (hash : UInt32) (i : Nat) :
    hr.visit sha256_32 hash i = (hr.nodesAfter hash)[i % hr.ring.size]? := by
  rw [visit_eq_walk h, Circular.walk_eq hr.pairwise_ring, nodesAfter, List.getElem?_map,
    ExtTreeMap.length_toList]

theorem length_nodesAfter (hr : HashRing) (hash : UInt32) :
    (hr.nodesAfter hash).length = hr.ring.size := by
  rw [nodesAfter, List.length_map, Circular.length_around, ExtTreeMap.length_toList]

theorem mem_nodesAfter {hash : UInt32} :
    vn ∈ hr.nodesAfter hash ↔ ∃ slot : UInt32, hr.ring[slot]? = some vn := by
  unfold nodesAfter
  simp only [List.mem_map, Circular.mem_around, Prod.exists, exists_eq_right,
    ExtTreeMap.mem_toList_iff_getElem?_eq_some]

/-- The virtual nodes of a part of the ring, which stand at their hashes, by their hashes. -/
private theorem pairwise_hash {l : List (UInt32 × VirtualNode)} (h : hr.Standing sha256_32)
    (hl : l.Sublist hr.ring.toList) :
    (l.map Prod.snd).Pairwise fun vn vn' => vn.hash sha256_32 < vn'.hash sha256_32 := by
  rw [List.pairwise_map]
  refine (hr.pairwise_ring.sublist hl).imp_of_mem fun {p q} hp hq hlt => ?_
  rw [h p.1 p.2 (ExtTreeMap.mem_toList_iff_getElem?_eq_some.mp (hl.subset hp)),
    h q.1 q.2 (ExtTreeMap.mem_toList_iff_getElem?_eq_some.mp (hl.subset hq))]
  exact UInt32.lt_iff_toNat_lt.mpr hlt

/-- The order in which the virtual nodes are met: above the hash first, then the others, both in
increasing order. -/
theorem nodesAfter_split (h : hr.Standing sha256_32) (hash : UInt32) :
    ∃ above below, hr.nodesAfter hash = above ++ below ∧
      (above.Pairwise fun vn vn' => vn.hash sha256_32 < vn'.hash sha256_32) ∧
      (below.Pairwise fun vn vn' => vn.hash sha256_32 < vn'.hash sha256_32) ∧
      (∀ vn ∈ above, hash < vn.hash sha256_32) ∧ ∀ vn ∈ below, vn.hash sha256_32 ≤ hash := by
  refine ⟨_, _, List.map_append, pairwise_hash h List.filter_sublist,
    pairwise_hash h List.filter_sublist, fun vn hvn => ?_, fun vn hvn => ?_⟩
  · obtain ⟨p, hp, rfl⟩ := List.mem_map.mp hvn
    rw [List.mem_filter, decide_eq_true_iff] at hp
    rw [h p.1 p.2 (ExtTreeMap.mem_toList_iff_getElem?_eq_some.mp hp.1)]
    exact UInt32.lt_iff_toNat_lt.mpr hp.2
  · obtain ⟨p, hp, rfl⟩ := List.mem_map.mp hvn
    rw [List.mem_filter, decide_eq_true_iff] at hp
    rw [h p.1 p.2 (ExtTreeMap.mem_toList_iff_getElem?_eq_some.mp hp.1)]
    exact UInt32.le_iff_toNat_le.mpr hp.2

theorem nodup_nodesAfter (h : hr.Standing sha256_32) (hash : UInt32) :
    (hr.nodesAfter hash).Nodup := by
  obtain ⟨above, below, hsplit, habove, hbelow, hgt, hle⟩ := nodesAfter_split h hash
  have hirrefl : ∀ vn vn' : VirtualNode, vn.hash sha256_32 < vn'.hash sha256_32 → vn ≠ vn' := by
    rintro vn _ hlt rfl
    exact absurd (UInt32.lt_iff_toNat_lt.mp hlt) (Nat.lt_irrefl _)
  rw [hsplit, List.nodup_append]
  refine ⟨habove.imp (hirrefl _ _), hbelow.imp (hirrefl _ _), ?_⟩
  rintro vn hvn _ hvn' rfl
  have hlt := UInt32.lt_iff_toNat_lt.mp (hgt vn hvn)
  have hle := UInt32.le_iff_toNat_le.mp (hle vn hvn')
  omega

/-- **The ring is a single cycle**: on every ring that calls lead to, and from every hash, the
first steps meet each virtual node once, in increasing order strictly after the hash and then
around, and the steps that follow meet them again in the same order. -/
theorem visit_cycle (sha256_32 : Bytes → UInt32) (calls : List Call) (hash : UInt32) :
    let hr := ofCalls sha256_32 calls
    ∃ vns : List VirtualNode, vns.length = hr.ring.size ∧ vns.Nodup ∧
      (∀ vn, vn ∈ vns ↔ ∃ slot : UInt32, hr.ring[slot]? = some vn) ∧
      (∃ above below, vns = above ++ below ∧
        (above.Pairwise fun vn vn' => vn.hash sha256_32 < vn'.hash sha256_32) ∧
        (below.Pairwise fun vn vn' => vn.hash sha256_32 < vn'.hash sha256_32) ∧
        (∀ vn ∈ above, hash < vn.hash sha256_32) ∧ ∀ vn ∈ below, vn.hash sha256_32 ≤ hash) ∧
      (∀ i < hr.ring.size, hr.visit sha256_32 hash i = vns[i]?) ∧
      ∀ i, hr.visit sha256_32 hash (hr.ring.size + i) = hr.visit sha256_32 hash i := by
  intro hr
  have h : hr.Standing sha256_32 := standing_calls calls
  refine ⟨hr.nodesAfter hash, length_nodesAfter hr hash, nodup_nodesAfter h hash,
    fun vn => mem_nodesAfter, nodesAfter_split h hash, fun i hi => ?_, fun i => ?_⟩
  · rw [visit_eq h, Nat.mod_eq_of_lt hi]
  · rw [visit_eq h, visit_eq h, Nat.add_mod_left]

/-! ## One virtual node more, and less -/

theorem exists_findNextNode {slot : UInt32} (h : slot ∈ hr.ring) (hash : UInt32) :
    ∃ vn, hr.findNextNode hash = some vn := by
  rw [findNextNode_eq_head]
  obtain ⟨vn, hvn⟩ := Option.isSome_iff_exists.mp (ExtTreeMap.mem_iff_isSome_getElem?.mp h)
  have hmem := ExtTreeMap.mem_toList_iff_getElem?_eq_some.mpr hvn
  rw [← Circular.mem_around (k := hash.toNat)] at hmem
  obtain ⟨p, t, ht⟩ := List.exists_cons_of_ne_nil (List.ne_nil_of_mem hmem)
  rw [ht]
  exact ⟨p.2, rfl⟩

/-- An addition moves a lookup to the new virtual node, or leaves it where it was. -/
theorem findNextNode_addNode (sha256_32 : Bytes → UInt32) (hr : HashRing) (vn : VirtualNode)
    (hash : UInt32) :
    (hr.addNode sha256_32 vn).findNextNode hash = some vn ∨
      (hr.addNode sha256_32 vn).findNextNode hash = hr.findNextNode hash := by
  have hnew : vn.hash sha256_32 ∈ (hr.addNode sha256_32 vn).ring :=
    mem_of_getElem?_eq_some (by rw [getElem?_addNode, if_pos rfl])
  obtain ⟨w, hw⟩ := exists_findNextNode hnew hash
  rw [hw]
  obtain ⟨slot, hslot, hmin⟩ := findNextNode_eq_some_iff.mp hw
  rw [getElem?_addNode] at hslot
  split at hslot
  · exact Or.inl hslot.symm
  · -- what stands before all others with the new node does so without it
    refine Or.inr (findNextNode_eq_some_iff.mpr ⟨slot, hslot, fun slot' hslot' => ?_⟩).symm
    refine hmin slot' ?_
    rw [addNode, ExtTreeMap.mem_insert]
    exact Or.inr hslot'

/-- An addition that is taken back leaves nothing at the hash of its virtual node. -/
theorem findNextNode_removeNode_addNode (h : hr.Standing sha256_32) (vn : VirtualNode)
    (hash : UInt32) :
    ((hr.addNode sha256_32 vn).removeNode sha256_32 vn).findNextNode hash = hr.findNextNode hash ↔
      hr.ring[vn.hash sha256_32]? = none ∨
        hr.findNextNode hash ≠ hr.ring[vn.hash sha256_32]? := by
  set hr' := (hr.addNode sha256_32 vn).removeNode sha256_32 vn with hhr'
  have hget : ∀ slot : UInt32, hr'.ring[slot]?
      = if vn.hash sha256_32 = slot then none else hr.ring[slot]? := fun slot => by
    rw [hhr', getElem?_removeNode, getElem?_addNode]
    split <;> rfl
  have hmem : ∀ slot : UInt32, slot ∈ hr'.ring → slot ∈ hr.ring := fun slot hslot => by
    rw [ExtTreeMap.mem_iff_isSome_getElem?, hget] at hslot
    split at hslot
    · cases hslot
    · exact ExtTreeMap.mem_iff_isSome_getElem?.mpr hslot
  have hstands : hr'.Standing sha256_32 := (h.addNode vn).removeNode vn
  cases hfind : hr.findNextNode hash with
  | none =>
      -- an empty ring stays empty
      have hnone : ∀ slot : UInt32, slot ∉ hr.ring := fun slot hslot => by
        obtain ⟨w, hw⟩ := exists_findNextNode hslot hash
        rw [hfind] at hw
        cases hw
      refine iff_of_true ?_ (Or.inl (ExtTreeMap.getElem?_eq_none (hnone _)))
      cases hfind' : hr'.findNextNode hash with
      | none => rfl
      | some w =>
          obtain ⟨slot, hslot, -⟩ := findNextNode_eq_some_iff.mp hfind'
          exact absurd (hmem slot (mem_of_getElem?_eq_some hslot)) (hnone slot)
  | some w =>
      obtain ⟨slot, hslot, hmin⟩ := findNextNode_eq_some_iff.mp hfind
      have hwhash := h slot w hslot
      by_cases hv : vn.hash sha256_32 = slot
      · -- the node that was found has lost its place
        rw [hv, hslot]
        refine iff_of_false (fun hsame => ?_) (by simp)
        obtain ⟨slot', hslot', -⟩ := findNextNode_eq_some_iff.mp hsame
        have hwhash' := hstands slot' w hslot'
        rw [hget, if_pos (by rw [hv, ← hwhash, hwhash'])] at hslot'
        cases hslot'
      · refine iff_of_true ?_ (Or.inr fun hsame => hv ?_)
        · exact findNextNode_eq_some_iff.mpr ⟨slot, by rw [hget, if_neg hv]; exact hslot,
            fun slot' hslot' => hmin slot' (hmem slot' hslot')⟩
        · rw [← hwhash, h _ w hsame.symm]

/-- **An addition disturbs only the lookups it takes over**, and taking it back restores a lookup
unless that ended at a virtual node with the same hash. -/
theorem findNextNode_moves (sha256_32 : Bytes → UInt32) (calls : List Call) (vn : VirtualNode)
    (hash : UInt32) :
    let hr := ofCalls sha256_32 calls
    ((hr.addNode sha256_32 vn).findNextNode hash = some vn ∨
        (hr.addNode sha256_32 vn).findNextNode hash = hr.findNextNode hash) ∧
      (((hr.addNode sha256_32 vn).removeNode sha256_32 vn).findNextNode hash
          = hr.findNextNode hash ↔
        hr.ring[vn.hash sha256_32]? = none ∨
          hr.findNextNode hash ≠ hr.ring[vn.hash sha256_32]?) :=
  ⟨findNextNode_addNode sha256_32 _ vn hash,
    findNextNode_removeNode_addNode (standing_calls calls) vn hash⟩

/-- Of two virtual nodes at one hash, the second replaces the first and takes it along when it is
removed: the lookup of 0 goes on to the node behind. -/
theorem removal_not_inverse :
    let sha256_32 := fun id : Bytes => (id.headD 0).toUInt32
    let hr := ofCalls sha256_32 [.addNode ⟨[5], 0⟩, .addNode ⟨[9], 1⟩]
    let vn : VirtualNode := ⟨[5, 1], 2⟩
    (∀ slot : UInt32, ∀ u, hr.ring[slot]? = some u → u.id ≠ vn.id) ∧
      hr.findNextNode 0 = some ⟨[5], 0⟩ ∧
      ((hr.addNode sha256_32 vn).removeNode sha256_32 vn).findNextNode 0 = some ⟨[9], 1⟩ := by
  intro sha256_32 hr vn
  refine ⟨fun slot u hu => ?_, by decide +kernel, by decide +kernel⟩
  have hmem : (slot, u) ∈ hr.ring.toList := ExtTreeMap.mem_toList_iff_getElem?_eq_some.mpr hu
  have hlist : hr.ring.toList = [(5, ⟨[5], 0⟩), (9, ⟨[9], 1⟩)] := by decide +kernel
  rw [hlist] at hmem
  simp only [List.mem_cons, Prod.mk.injEq, List.not_mem_nil, or_false] at hmem
  rcases hmem with ⟨-, rfl⟩ | ⟨-, rfl⟩ <;> decide

end HashRing

end RackKey
