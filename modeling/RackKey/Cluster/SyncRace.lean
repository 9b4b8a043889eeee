import RackKey.Cluster.Sync
import RackKey.Lib.Runs

set_option autoImplicit false

/-! # Answers of the nodes handled at the same time

The continuations of `syncWithStorageNode` run concurrently. For each key of its answer a
continuation takes the shared inner map of the key, or a new one if the KBN has none, adds its
node to it, and stores it in the KBN; `kbnMutex` is held for the first and the last of these
steps, and released in between. When no continuation looks up a key that another one has taken
a new map for, the KBN gets exactly what the answers report (`holds_iff_reported`). Otherwise a
stored map is replaced by another one, and its replicas are lost (`lost_replica`).
-/

namespace RackKey

open Std Words Payloads

namespace SyncRace

/-! ## The continuations -/

/-- Where a continuation is with the key of its loop: before the lookup, or holding the inner
map at an address. -/
inductive Phase where
  | lookUp
  | insert (map : Nat)
  | store (map : Nat)
  deriving DecidableEq, Repr

/-- The address of the inner map held. -/
def Phase.map? : Phase → Option Nat
  | .lookUp => none
  | .insert map => some map
  | .store map => some map

structure Continuation where
  /-- The position of the loop over `keyBlockNumMap`. -/
  pos : Nat
  phase : Phase
  deriving DecidableEq, Repr

/-- The KBN with its shared inner maps, and the continuation of each node. -/
structure State where
  keyBlockNodeMap : ExtTreeMap Bytes Nat
  blockNodeMaps : Nat → BlockNodeMap
  /-- The next address for a new inner map. -/
  next : Nat
  continuations : Nat → Continuation

/-- The master before the answers are handled. -/
def State.initial : State := ⟨∅, fun _ => ∅, 0, fun _ => ⟨0, .lookUp⟩⟩

/-- The entries of the answer of each node, in the order of `keyBlockNumMap`. -/
abbrev Answers : Type := Nat → ExtTreeMap Bytes (List UInt32)

section Step

variable (answers : Answers)

/-- The key at which the continuation of a node is, with its block numbers. -/
def entry (s : State) (nodeId : Nat) : Option (Bytes × List UInt32) :=
  (answers nodeId).toList[(s.continuations nodeId).pos]?

/-- Let a continuation go on. -/
def State.goOn (s : State) (nodeId pos : Nat) (phase : Phase) : State :=
  { s with continuations := Function.update s.continuations nodeId ⟨pos, phase⟩ }

/-- Make a new inner map. -/
def State.newMap (s : State) : State :=
  { s with
    blockNodeMaps := Function.update s.blockNodeMaps s.next ∅
    next := s.next + 1 }

/-- Add a node to the inner map at an address, for some blocks. -/
def State.addNode (s : State) (map nodeId : Nat) (blockNums : List UInt32) : State :=
  { s with
    blockNodeMaps := Function.update s.blockNodeMaps map
      ((s.blockNodeMaps map).addAll (blockNums.map fun blockNum => (blockNum, nodeId))) }

/-- Store the inner map of a key. -/
def State.record (s : State) (key : Bytes) (map : Nat) : State :=
  { s with keyBlockNodeMap := s.keyBlockNodeMap.insert key map }

/-- The next step of the continuation of a node; none after its loop. -/
def step (s : State) (nodeId : Nat) : Option State :=
  let pos := (s.continuations nodeId).pos
  match entry answers s nodeId with
  | none => none
  | some (key, blockNums) =>
      match (s.continuations nodeId).phase with
      | .lookUp =>
          match s.keyBlockNodeMap[key]? with
          | some map => some (s.goOn nodeId pos (.insert map))
          | none => some (s.newMap.goOn nodeId pos (.insert s.next))
      | .insert map => some ((s.addNode map nodeId blockNums).goOn nodeId pos (.store map))
      | .store map => some ((s.record key map).goOn nodeId (pos + 1) .lookUp)

/-- All continuations have finished. -/
def Finished (s : State) : Prop := ∀ n, entry answers s n = none

/-- The KBN records the node for the block of the key. -/
def Holds (s : State) (key : Bytes) (blockNum : UInt32) (nodeId : Nat) : Prop :=
  ∃ map, s.keyBlockNodeMap[key]? = some map ∧ (s.blockNodeMaps map).Related blockNum nodeId

/-- The answer of the node reports the block of the key. -/
def Reported (nodeId : Nat) (key : Bytes) (blockNum : UInt32) : Prop :=
  ∃ blockNums, (key, blockNums) ∈ (answers nodeId).toList ∧ blockNum ∈ blockNums

/-- The continuation of the node has taken the inner map for the key, and not stored it yet. -/
def Working (s : State) (nodeId : Nat) (key : Bytes) (map : Nat) : Prop :=
  ∃ blockNums, entry answers s nodeId = some (key, blockNums) ∧
    (s.continuations nodeId).phase.map? = some map

/-- The step does not look up a key that the KBN has no map for and that another continuation has
taken a new map for. -/
def Exclusive (s : State) (nodeId : Nat) : Prop :=
  ∀ key blockNums, entry answers s nodeId = some (key, blockNums) →
    (s.continuations nodeId).phase = .lookUp → s.keyBlockNodeMap[key]? = none →
      ∀ n map, ¬ Working answers s n key map

end Step

variable {answers : Answers} {s s' : State} {nodeId n : Nat} {key k : Bytes} {a : Nat}

/-! ## What a step does -/

theorem step_cases (h : step answers s nodeId = some s') :
    ∃ key blockNums, entry answers s nodeId = some (key, blockNums) ∧
      (((s.continuations nodeId).phase = .lookUp ∧ ∃ map, s.keyBlockNodeMap[key]? = some map ∧
          s' = s.goOn nodeId (s.continuations nodeId).pos (.insert map)) ∨
        ((s.continuations nodeId).phase = .lookUp ∧ s.keyBlockNodeMap[key]? = none ∧
          s' = s.newMap.goOn nodeId (s.continuations nodeId).pos (.insert s.next)) ∨
        (∃ map, (s.continuations nodeId).phase = .insert map ∧
          s' = (s.addNode map nodeId blockNums).goOn nodeId (s.continuations nodeId).pos
            (.store map)) ∨
        ∃ map, (s.continuations nodeId).phase = .store map ∧
          s' = (s.record key map).goOn nodeId ((s.continuations nodeId).pos + 1) .lookUp) := by
  unfold step at h
  cases he : entry answers s nodeId with
  | none =>
      rw [he] at h
      cases h
  | some p =>
      obtain ⟨key, blockNums⟩ := p
      rw [he] at h
      refine ⟨key, blockNums, rfl, ?_⟩
      dsimp only at h
      cases hp : (s.continuations nodeId).phase with
      | lookUp =>
          rw [hp] at h
          dsimp only at h
          cases hm : s.keyBlockNodeMap[key]? with
          | some map =>
              rw [hm] at h
              exact Or.inl ⟨rfl, map, rfl, (Option.some.inj h).symm⟩
          | none =>
              rw [hm] at h
              exact Or.inr (Or.inl ⟨rfl, rfl, (Option.some.inj h).symm⟩)
      | insert map =>
          rw [hp] at h
          exact Or.inr (Or.inr (Or.inl ⟨map, rfl, (Option.some.inj h).symm⟩))
      | store map =>
          rw [hp] at h
          exact Or.inr (Or.inr (Or.inr ⟨map, rfl, (Option.some.inj h).symm⟩))

/-- Whether a continuation is working on a map, after one of them went on. -/
theorem working_goOn {pos : Nat} {phase : Phase} :
    Working answers (s.goOn nodeId pos phase) n k a ↔
      if n = nodeId then ∃ blockNums, (answers nodeId).toList[pos]? = some (k, blockNums) ∧
        phase.map? = some a
      else Working answers s n k a := by
  unfold Working entry State.goOn
  by_cases hn : n = nodeId
  · subst hn
    simp only [Function.update_self, if_true]
  · simp only [Function.update_of_ne hn, if_neg hn]

/-- The map of the key is in the KBN, or some continuation is working on it. -/
def Current (answers : Answers) (s : State) (k : Bytes) (a : Nat) : Prop :=
  s.keyBlockNodeMap[k]? = some a ∨ ∃ n, Working answers s n k a

/-- The continuation of the node has added it to the map of the key, for the block. -/
def Inserted (answers : Answers) (s : State) (n : Nat) (k : Bytes) (b : UInt32) : Prop :=
  ∃ i blockNums, (answers n).toList[i]? = some (k, blockNums) ∧ b ∈ blockNums ∧
    (i < (s.continuations n).pos ∨
      i = (s.continuations n).pos ∧ ∃ map, (s.continuations n).phase = .store map)

theorem inserted_goOn {pos : Nat} {phase : Phase} {b : UInt32} :
    Inserted answers (s.goOn nodeId pos phase) n k b ↔
      if n = nodeId then ∃ i blockNums, (answers nodeId).toList[i]? = some (k, blockNums) ∧
        b ∈ blockNums ∧ (i < pos ∨ i = pos ∧ ∃ map, phase = .store map)
      else Inserted answers s n k b := by
  unfold Inserted State.goOn
  by_cases hn : n = nodeId
  · subst hn
    simp only [Function.update_self, if_true]
  · simp only [Function.update_of_ne hn, if_neg hn]

/-- A continuation before its lookup works on no map. -/
theorem not_working_of_lookUp (h : (s.continuations n).phase = .lookUp) :
    ¬ Working answers s n k a := by
  rintro ⟨blockNums, -, hmap⟩
  rw [h] at hmap
  cases hmap

/-! ## The invariant -/

/-- Every key has at most one map, which relates what has been inserted for the key. -/
structure Inv (answers : Answers) (s : State) : Prop where
  unique : ∀ k a a', Current answers s k a → Current answers s k a' → a = a'
  apart : ∀ k k' a, Current answers s k a → Current answers s k' a → k = k'
  alloc : ∀ k a, Current answers s k a → a < s.next
  related : ∀ k a, Current answers s k a → ∀ b n,
    (s.blockNodeMaps a).Related b n ↔ Inserted answers s n k b
  started : ∀ n k b, Inserted answers s n k b → ∃ a, Current answers s k a
  known : ∀ k a, Current answers s k a → ∃ n blockNums, (k, blockNums) ∈ (answers n).toList
  proper : ∀ a, (s.blockNodeMaps a).Proper

theorem inv_initial (answers : Answers) : Inv answers State.initial := by
  have hnone : ∀ k a, ¬ Current answers State.initial k a := by
    rintro k a (h | ⟨n, h⟩)
    · rw [State.initial, ExtTreeMap.getElem?_empty] at h
      cases h
    · exact not_working_of_lookUp rfl h
  refine ⟨fun k a a' h => absurd h (hnone k a), fun k k' a h => absurd h (hnone k a),
    fun k a h => absurd h (hnone k a), fun k a h => absurd h (hnone k a), ?_,
    fun k a h => absurd h (hnone k a), fun _ => Multimap.proper_empty⟩
  rintro n k b ⟨i, blockNums, -, -, hi | ⟨-, map, hphase⟩⟩
  · exact absurd hi (Nat.not_lt_zero i)
  · cases hphase

/-- A step that changes neither the maps nor which of them are current. -/
theorem Inv.congr (h : Inv answers s)
    (hcurrent : ∀ k a, Current answers s' k a ↔ Current answers s k a)
    (hinserted : ∀ n k b, Inserted answers s' n k b ↔ Inserted answers s n k b)
    (hmaps : s'.blockNodeMaps = s.blockNodeMaps) (hnext : s'.next = s.next) : Inv answers s' := by
  refine ⟨fun k a a' ha ha' => ?_, fun k k' a ha ha' => ?_, fun k a ha => ?_,
    fun k a ha b n => ?_, fun n k b hb => ?_, fun k a ha => ?_, fun a => ?_⟩
  · exact h.unique k a a' ((hcurrent k a).mp ha) ((hcurrent k a').mp ha')
  · exact h.apart k k' a ((hcurrent k a).mp ha) ((hcurrent k' a).mp ha')
  · rw [hnext]
    exact h.alloc k a ((hcurrent k a).mp ha)
  · rw [hmaps, hinserted]
    exact h.related k a ((hcurrent k a).mp ha) b n
  · obtain ⟨a, ha⟩ := h.started n k b ((hinserted n k b).mp hb)
    exact ⟨a, (hcurrent k a).mpr ha⟩
  · exact h.known k a ((hcurrent k a).mp ha)
  · rw [hmaps]
    exact h.proper a

section Steps

variable {blockNums : List UInt32} {map : Nat}
  (he : entry answers s nodeId = some (key, blockNums))

include he

/-- A continuation that goes on at its key is working on the map of its phase, and on no other. -/
theorem working_goOn_pos {t : State} (ht : t.continuations = s.continuations) {phase : Phase} :
    Working answers (t.goOn nodeId (s.continuations nodeId).pos phase) n k a ↔
      if n = nodeId then k = key ∧ phase.map? = some a else Working answers s n k a := by
  rw [working_goOn]
  by_cases hn : n = nodeId
  · rw [if_pos hn, if_pos hn]
    constructor
    · rintro ⟨nums, hnums, hmap⟩
      have heq := Option.some.inj (hnums.symm.trans he)
      exact ⟨(Prod.mk.inj heq).1, hmap⟩
    · rintro ⟨rfl, hmap⟩
      exact ⟨blockNums, he, hmap⟩
  · rw [if_neg hn, if_neg hn]
    unfold Working entry
    rw [ht]

omit he in
/-- Taking a map inserts nothing. -/
theorem inserted_lookUp {t : State} (ht : t.continuations = s.continuations)
    (hphase : (s.continuations nodeId).phase = .lookUp) {b : UInt32} :
    Inserted answers (t.goOn nodeId (s.continuations nodeId).pos (.insert map)) n k b ↔
      Inserted answers s n k b := by
  rw [inserted_goOn]
  by_cases hn : n = nodeId
  · subst hn
    rw [if_pos rfl]
    unfold Inserted
    simp only [hphase, reduceCtorEq, exists_false, and_false, or_false]
  · rw [if_neg hn]
    unfold Inserted
    rw [ht]

/-- A lookup that finds the map of the key. -/
theorem Inv.found (h : Inv answers s) (hphase : (s.continuations nodeId).phase = .lookUp)
    (hmap : s.keyBlockNodeMap[key]? = some map) :
    Inv answers (s.goOn nodeId (s.continuations nodeId).pos (.insert map)) := by
  refine h.congr (fun k a => ?_) (fun n k b => inserted_lookUp rfl hphase) rfl rfl
  unfold Current
  simp only [working_goOn_pos he rfl]
  constructor
  · rintro (hk | ⟨n, hw⟩)
    · exact Or.inl hk
    · split at hw
      · -- the continuation that went on works on the map it has found
        obtain ⟨rfl, ha⟩ := hw
        obtain rfl : map = a := Option.some.inj ha
        exact Or.inl hmap
      · exact Or.inr ⟨n, hw⟩
  · rintro (hk | ⟨n, hw⟩)
    · exact Or.inl hk
    · have hn : n ≠ nodeId := fun heq => not_working_of_lookUp hphase (heq ▸ hw)
      exact Or.inr ⟨n, by rwa [if_neg hn]⟩

/-- A new map is current for its key. -/
theorem current_created (hphase : (s.continuations nodeId).phase = .lookUp) :
    Current answers (s.newMap.goOn nodeId (s.continuations nodeId).pos (.insert s.next)) k a ↔
      Current answers s k a ∨ (k = key ∧ a = s.next) := by
  unfold Current
  simp only [working_goOn_pos he (t := s.newMap) rfl]
  constructor
  · rintro (hk | ⟨n, hw⟩)
    · exact Or.inl (Or.inl hk)
    · split at hw
      · exact Or.inr ⟨hw.1, (Option.some.inj hw.2).symm⟩
      · exact Or.inl (Or.inr ⟨n, hw⟩)
  · rintro ((hk | ⟨n, hw⟩) | ⟨rfl, rfl⟩)
    · exact Or.inl hk
    · have hn : n ≠ nodeId := fun heq => not_working_of_lookUp hphase (heq ▸ hw)
      exact Or.inr ⟨n, by rwa [if_neg hn]⟩
    · exact Or.inr ⟨nodeId, by rw [if_pos rfl]; exact ⟨rfl, rfl⟩⟩

/-- A lookup that makes a new map, while no continuation works on one for the key. -/
theorem Inv.created (h : Inv answers s) (hphase : (s.continuations nodeId).phase = .lookUp)
    (hno : ∀ a, ¬ Current answers s key a) :
    Inv answers (s.newMap.goOn nodeId (s.continuations nodeId).pos (.insert s.next)) := by
  set s' := s.newMap.goOn nodeId (s.continuations nodeId).pos (.insert s.next) with hs'
  have hcurrent : ∀ k a, Current answers s' k a ↔
      Current answers s k a ∨ (k = key ∧ a = s.next) := fun k a => current_created he hphase
  have hinserted : ∀ n k b, Inserted answers s' n k b ↔ Inserted answers s n k b :=
    fun n k b => inserted_lookUp rfl hphase
  have hold : ∀ k a, Current answers s k a → a ≠ s.next :=
    fun k a ha => Nat.ne_of_lt (h.alloc k a ha)
  refine ⟨fun k a a' ha ha' => ?_, fun k k' a ha ha' => ?_, fun k a ha => ?_,
    fun k a ha b n => ?_, fun n k b hb => ?_, fun k a ha => ?_, fun a => ?_⟩
  · rcases (hcurrent k a).mp ha with ha | ⟨rfl, rfl⟩
    · rcases (hcurrent k a').mp ha' with ha' | ⟨rfl, rfl⟩
      · exact h.unique k a a' ha ha'
      · exact absurd ha (hno a)
    · rcases (hcurrent k a').mp ha' with ha' | ⟨-, rfl⟩
      · exact absurd ha' (hno a')
      · rfl
  · rcases (hcurrent k a).mp ha with ha | ⟨rfl, rfl⟩
    · rcases (hcurrent k' a).mp ha' with ha' | ⟨-, rfl⟩
      · exact h.apart k k' a ha ha'
      · exact absurd rfl (hold k _ ha)
    · rcases (hcurrent k' s.next).mp ha' with ha' | ⟨rfl, -⟩
      · exact absurd rfl (hold k' _ ha')
      · rfl
  · show a < s.next + 1
    rcases (hcurrent k a).mp ha with ha | ⟨-, rfl⟩
    · exact Nat.lt_succ_of_lt (h.alloc k a ha)
    · exact Nat.lt_succ_self _
  · rw [hinserted]
    show (Function.update s.blockNodeMaps s.next ∅ a).Related b n ↔ _
    rcases (hcurrent k a).mp ha with ha | ⟨rfl, rfl⟩
    · rw [Function.update_of_ne (hold k a ha)]
      exact h.related k a ha b n
    · rw [Function.update_self]
      -- the new map is empty, and nothing has been inserted for a key without a map
      refine iff_of_false (fun hb => ?_) fun hb => ?_
      · exact ExtTreeMap.not_mem_empty (Multimap.mem_of_related hb)
      · obtain ⟨a, ha⟩ := h.started n k b hb
        exact hno a ha
  · obtain ⟨a, ha⟩ := h.started n k b ((hinserted n k b).mp hb)
    exact ⟨a, (hcurrent k a).mpr (Or.inl ha)⟩
  · rcases (hcurrent k a).mp ha with ha | ⟨rfl, -⟩
    · exact h.known k a ha
    · exact ⟨nodeId, blockNums, List.mem_of_getElem? he⟩
  · show (Function.update s.blockNodeMaps s.next ∅ a).Proper
    by_cases ha : a = s.next
    · rw [ha, Function.update_self]
      exact Multimap.proper_empty
    · rw [Function.update_of_ne ha]
      exact h.proper a

/-- Adding a node changes no map for another. -/
theorem current_added (hphase : (s.continuations nodeId).phase = .insert map) :
    Current answers ((s.addNode map nodeId blockNums).goOn nodeId (s.continuations nodeId).pos
      (.store map)) k a ↔ Current answers s k a := by
  unfold Current
  simp only [working_goOn_pos he (t := s.addNode map nodeId blockNums) rfl]
  refine or_congr_right (exists_congr fun n => ?_)
  by_cases hn : n = nodeId
  · subst hn
    rw [if_pos rfl]
    constructor
    · rintro ⟨rfl, ha⟩
      obtain rfl : map = a := Option.some.inj ha
      exact ⟨blockNums, he, by rw [hphase]; rfl⟩
    · rintro ⟨nums, hnums, ha⟩
      rw [hphase] at ha
      exact ⟨(Prod.mk.inj (Option.some.inj (hnums.symm.trans he))).1, ha⟩
  · rw [if_neg hn]

/-- Adding a node inserts it for the blocks of its entry. -/
theorem inserted_added (hphase : (s.continuations nodeId).phase = .insert map) {b : UInt32} :
    Inserted answers ((s.addNode map nodeId blockNums).goOn nodeId (s.continuations nodeId).pos
      (.store map)) n k b ↔
      Inserted answers s n k b ∨ (n = nodeId ∧ k = key ∧ b ∈ blockNums) := by
  rw [inserted_goOn]
  by_cases hn : n = nodeId
  · subst hn
    rw [if_pos rfl]
    constructor
    · -- an entry before the one of the step, or this one
      rintro ⟨i, nums, hi, hb, hlt | ⟨rfl, -⟩⟩
      · exact Or.inl ⟨i, nums, hi, hb, Or.inl hlt⟩
      · obtain ⟨rfl, rfl⟩ := Prod.mk.inj (Option.some.inj (hi.symm.trans he))
        exact Or.inr ⟨rfl, rfl, hb⟩
    · rintro (⟨i, nums, hi, hb, hlt | ⟨-, map', hstore⟩⟩ | ⟨-, rfl, hb⟩)
      · exact ⟨i, nums, hi, hb, Or.inl hlt⟩
      · rw [hphase] at hstore
        cases hstore
      · exact ⟨_, blockNums, he, hb, Or.inr ⟨rfl, map, rfl⟩⟩
  · rw [if_neg hn]
    simp only [hn, false_and, or_false]
    exact Iff.rfl

/-- The node is added to the map of the key. -/
theorem Inv.added (h : Inv answers s) (hphase : (s.continuations nodeId).phase = .insert map) :
    Inv answers ((s.addNode map nodeId blockNums).goOn nodeId (s.continuations nodeId).pos
      (.store map)) := by
  set s' := (s.addNode map nodeId blockNums).goOn nodeId (s.continuations nodeId).pos (.store map)
    with hs'
  have hcurrent : ∀ k a, Current answers s' k a ↔ Current answers s k a :=
    fun k a => current_added he hphase
  have hinserted : ∀ n k b, Inserted answers s' n k b ↔
      Inserted answers s n k b ∨ (n = nodeId ∧ k = key ∧ b ∈ blockNums) :=
    fun n k b => inserted_added he hphase
  have hworking : Working answers s nodeId key map := ⟨blockNums, he, by rw [hphase]; rfl⟩
  have hmap : Current answers s key map := Or.inr ⟨nodeId, hworking⟩
  refine ⟨fun k a a' ha ha' => ?_, fun k k' a ha ha' => ?_, fun k a ha => ?_,
    fun k a ha b n => ?_, fun n k b hb => ?_, fun k a ha => ?_, fun a => ?_⟩
  · exact h.unique k a a' ((hcurrent k a).mp ha) ((hcurrent k a').mp ha')
  · exact h.apart k k' a ((hcurrent k a).mp ha) ((hcurrent k' a).mp ha')
  · exact h.alloc k a ((hcurrent k a).mp ha)
  · have hold := (hcurrent k a).mp ha
    rw [hinserted, ← h.related k a hold b n]
    show (Function.update s.blockNodeMaps map ((s.blockNodeMaps map).addAll _) a).Related b n ↔ _
    by_cases hmapa : a = map
    · -- the map of the key, and of no other key
      subst hmapa
      obtain rfl := h.apart k key a hold hmap
      rw [Function.update_self, Multimap.related_addAll, or_comm]
      simp [eq_comm, and_comm]
    · -- the map of another key is not changed
      have hk : k ≠ key := fun heq => hmapa (h.unique key a map (heq ▸ hold) hmap)
      rw [Function.update_of_ne hmapa]
      simp [hk]
  · rcases (hinserted n k b).mp hb with hb | ⟨rfl, rfl, -⟩
    · obtain ⟨a, ha⟩ := h.started n k b hb
      exact ⟨a, (hcurrent k a).mpr ha⟩
    · exact ⟨map, (hcurrent k map).mpr hmap⟩
  · exact h.known k a ((hcurrent k a).mp ha)
  · show (Function.update s.blockNodeMaps map ((s.blockNodeMaps map).addAll _) a).Proper
    by_cases ha : a = map
    · rw [ha, Function.update_self]
      exact (h.proper map).addAll _
    · rw [Function.update_of_ne ha]
      exact h.proper a

/-- The map of the key is stored. -/
theorem Inv.stored (h : Inv answers s) (hphase : (s.continuations nodeId).phase = .store map) :
    Inv answers ((s.record key map).goOn nodeId ((s.continuations nodeId).pos + 1) .lookUp) := by
  have hworking : Working answers s nodeId key map := ⟨blockNums, he, by rw [hphase]; rfl⟩
  have hmap : Current answers s key map := Or.inr ⟨nodeId, hworking⟩
  refine h.congr (fun k a => ?_) (fun n k b => ?_) rfl rfl
  · unfold Current
    simp only [working_goOn]
    show (s.keyBlockNodeMap.insert key map)[k]? = some a ∨ _ ↔ _
    rw [getElem?_insert_eq]
    constructor
    · rintro (hk | ⟨n, hw⟩)
      · split at hk
        · -- the map stored is the one that the continuation worked on
          rename_i heq
          subst heq
          obtain rfl := Option.some.inj hk
          exact hmap
        · exact Or.inl hk
      · split at hw
        · obtain ⟨-, -, ha⟩ := hw
          cases ha
        · exact Or.inr ⟨n, hw⟩
    · intro ha
      by_cases hk : key = k
      · subst hk
        rw [if_pos rfl, h.unique key a map ha hmap]
        exact Or.inl rfl
      · rw [if_neg hk]
        rcases ha with ha | ⟨n, hw⟩
        · exact Or.inl ha
        · -- works on a map of another key, so it is not the continuation of the step
          refine Or.inr ⟨n, ?_⟩
          have hn : n ≠ nodeId := by
            rintro rfl
            obtain ⟨nums, hnums, -⟩ := hw
            exact hk (Prod.mk.inj (Option.some.inj (he.symm.trans hnums))).1
          rw [if_neg hn]
          exact hw
  · rw [inserted_goOn]
    by_cases hn : n = nodeId
    · subst hn
      rw [if_pos rfl]
      unfold Inserted
      refine exists_congr fun i => exists_congr fun nums => and_congr_right fun _ =>
        and_congr_right fun _ => ?_
      simp only [hphase, reduceCtorEq, exists_false, and_false, or_false, Phase.store.injEq,
        exists_eq', and_true]
      -- what was inserted up to the entry is what was inserted before the next one
      omega
    · rw [if_neg hn]
      exact Iff.rfl

end Steps

/-- **Every step that is not taken against another one keeps the invariant.** -/
theorem inv_step (h : Inv answers s) (hexclusive : Exclusive answers s nodeId)
    (hs : step answers s nodeId = some s') : Inv answers s' := by
  obtain ⟨key, blockNums, he, ⟨hphase, map, hmap, rfl⟩ | ⟨hphase, hmap, rfl⟩ | ⟨map, hphase, rfl⟩ |
    ⟨map, hphase, rfl⟩⟩ := step_cases hs
  · exact h.found he hphase hmap
  · refine h.created he hphase ?_
    -- a map of the key would be in the KBN or taken by another continuation
    rintro a (ha | ⟨n, hw⟩)
    · rw [hmap] at ha
      cases ha
    · exact hexclusive key blockNums he hphase hmap n a hw
  · exact h.added he hphase
  · exact h.stored he hphase

theorem Inv.holds_iff (hinv : Inv answers s) (hf : Finished answers s) :
    (∀ k b n, Holds s k b n ↔ Reported answers n k b) ∧
      ∀ k ∈ s.keyBlockNodeMap, ∃ n blockNums, (k, blockNums) ∈ (answers n).toList := by
  -- no continuation works on a map any more
  have hstored : ∀ k a, Current answers s k a ↔ s.keyBlockNodeMap[k]? = some a := by
    intro k a
    refine or_iff_left ?_
    rintro ⟨n, blockNums, he, -⟩
    rw [hf n] at he
    cases he
  have hinserted : ∀ n k b, Inserted answers s n k b ↔ Reported answers n k b := by
    intro n k b
    constructor
    · rintro ⟨i, blockNums, hi, hb, -⟩
      exact ⟨blockNums, List.mem_of_getElem? hi, hb⟩
    · rintro ⟨blockNums, hmem, hb⟩
      obtain ⟨i, hi⟩ := List.mem_iff_getElem?.mp hmem
      refine ⟨i, blockNums, hi, hb, Or.inl ?_⟩
      have hlen := (List.getElem?_eq_some_iff.mp hi).1
      exact Nat.lt_of_lt_of_le hlen (List.getElem?_eq_none_iff.mp (hf n))
  refine ⟨fun k b n => ?_, fun k hk => ?_⟩
  · rw [← hinserted]
    constructor
    · rintro ⟨a, ha, hb⟩
      exact (hinv.related k a ((hstored k a).mpr ha) b n).mp hb
    · intro hb
      obtain ⟨a, ha⟩ := hinv.started n k b hb
      exact ⟨a, (hstored k a).mp ha, (hinv.related k a ha b n).mpr hb⟩
  · exact hinv.known k _ ((hstored k _).mpr (ExtTreeMap.getElem?_eq_some_getElem hk))

/-- **No replica is lost**: when all continuations of such a run have finished, the KBN records
what the answers report, and nothing else. -/
theorem holds_iff_reported (h : Runs.Reached (step answers) (Exclusive answers) State.initial s)
    (hf : Finished answers s) :
    (∀ k b n, Holds s k b n ↔ Reported answers n k b) ∧
      ∀ k ∈ s.keyBlockNodeMap, ∃ n blockNums, (k, blockNums) ∈ (answers n).toList := by
  have hinv : Inv answers s := h.invariant (inv_initial answers)
    fun _ _ _ hs hc ht => inv_step hs hc ht
  exact hinv.holds_iff hf

/-! ## Answers handled one after another -/

/-- The KBN with the inner maps in place of their addresses. -/
def State.view (s : State) : KeyBlockNodeMap :=
  s.keyBlockNodeMap.map fun _ map => s.blockNodeMaps map

theorem getElem?_view (s : State) (k : Bytes) :
    s.view[k]? = s.keyBlockNodeMap[k]?.map s.blockNodeMaps := ExtTreeMap.getElem?_map

theorem holds_view (s : State) (k : Bytes) (b : UInt32) (n : Nat) :
    Nested.Holds s.view k b n ↔ Holds s k b n := by
  rw [Nested.holds_iff, getElem?_view]
  simp only [Option.map_eq_some_iff, Holds]
  constructor
  · rintro ⟨bm, ⟨a, ha, rfl⟩, hb⟩
    exact ⟨a, ha, hb⟩
  · rintro ⟨a, ha, hb⟩
    exact ⟨_, ⟨a, ha, rfl⟩, hb⟩

/-- What the answers of some nodes, merged one whole answer after another, relate. -/
theorem foldl_mergeSync (ids : List Nat) (hne : ∀ n, ∀ p ∈ (answers n).toList, p.2 ≠ []) :
    ∀ {kbn : KeyBlockNodeMap}, Nested.Full kbn →
      let kbn' := ids.foldl (fun kbn n => Cluster.mergeSync n kbn (answers n).toList) kbn
      Nested.Full kbn' ∧ ∀ k b n, Nested.Holds kbn' k b n ↔
        Nested.Holds kbn k b n ∨ (n ∈ ids ∧ Reported answers n k b) := by
  induction ids with
  | nil => simp
  | cons m ids ih =>
      intro kbn hfull
      obtain ⟨hfull', hholds⟩ := ih (Cluster.full_mergeSync m (answers m).toList hfull (hne m))
      refine ⟨hfull', fun k b n => ?_⟩
      rw [List.foldl_cons, hholds, Cluster.holds_mergeSync, or_assoc]
      refine or_congr_right ?_
      unfold Reported
      constructor
      · rintro (⟨rfl, hb⟩ | ⟨hn, hb⟩)
        · exact ⟨List.mem_cons_self, hb⟩
        · exact ⟨List.mem_cons_of_mem m hn, hb⟩
      · rintro ⟨hn, hb⟩
        rcases List.mem_cons.mp hn with rfl | hn
        · exact Or.inl ⟨rfl, hb⟩
        · exact Or.inr ⟨hn, hb⟩

/-- **Such a run has the effect of whole answers, handled in any order.** -/
theorem view_eq_mergeSync (h : Runs.Reached (step answers) (Exclusive answers) State.initial s)
    (hf : Finished answers s) (hne : ∀ n, ∀ p ∈ (answers n).toList, p.2 ≠ []) {ids : List Nat}
    (hids : ∀ n, answers n ≠ ∅ → n ∈ ids) :
    s.view = ids.foldl (fun kbn n => Cluster.mergeSync n kbn (answers n).toList) ∅ := by
  have hinv : Inv answers s := h.invariant (inv_initial answers)
    fun _ _ _ hs hc ht => inv_step hs hc ht
  obtain ⟨hholds, hknown⟩ := hinv.holds_iff hf
  obtain ⟨hfull, hmerged⟩ := foldl_mergeSync ids hne Nested.full_empty
  refine Nested.ext_holds (fun k bm hbm => ?_) hfull fun k b n => ?_
  · rw [getElem?_view, Option.map_eq_some_iff] at hbm
    obtain ⟨a, ha, rfl⟩ := hbm
    refine ⟨hinv.proper a, ?_⟩
    obtain ⟨n, blockNums, hmem⟩ := hknown k (mem_of_getElem?_eq_some ha)
    obtain ⟨b, hb⟩ := List.exists_mem_of_ne_nil _ (hne n _ hmem)
    obtain ⟨a', ha', hrel⟩ := (hholds k b n).mpr ⟨blockNums, hmem, hb⟩
    obtain rfl := Option.some.inj (ha.symm.trans ha')
    exact ⟨b, n, hrel⟩
  · rw [holds_view, hholds, hmerged]
    rw [or_iff_right (Nested.not_holds_empty k b n)]
    refine ⟨fun hr => ⟨hids n fun hnil => ?_, hr⟩, fun hr => hr.2⟩
    obtain ⟨blockNums, hmem, -⟩ := hr
    rw [ExtTreeMap.toList_eq_nil_iff.mpr hnil] at hmem
    cases hmem

/-! ## Samples -/

/-- Nodes 0 and 1 report the first block of one key. -/
def sampleAnswers : Answers :=
  fun n => if n < 2 then (∅ : ExtTreeMap Bytes (List UInt32)).insert (padded [97]) [0] else ∅

theorem finished_sample (h₀ : (s.continuations 0).pos = 1) (h₁ : (s.continuations 1).pos = 1) :
    Finished sampleAnswers s := by
  intro n
  unfold entry
  match n with
  | 0 => rw [h₀]; decide +kernel
  | 1 => rw [h₁]; decide +kernel
  | n + 2 =>
      have hnone : sampleAnswers (n + 2) = ∅ := if_neg (by omega)
      rw [ExtTreeMap.toList_eq_nil_iff.mpr hnone]
      rfl

theorem exclusive_of_phase (h : (s.continuations n).phase ≠ .lookUp) : Exclusive answers s n :=
  fun _ _ _ hphase => absurd hphase h

/-- One answer after the other. -/
theorem holds_iff_reported_sample :
    ∃ s, Runs.Reached (step sampleAnswers) (Exclusive sampleAnswers) State.initial s ∧
      Finished sampleAnswers s ∧
      ∀ k b n, Holds s k b n ↔ Reported sampleAnswers n k b := by
  have hall : (do
      let s₁ ← step sampleAnswers State.initial 0
      let s₂ ← step sampleAnswers s₁ 0
      let s₃ ← step sampleAnswers s₂ 0
      let s₄ ← step sampleAnswers s₃ 1
      let s₅ ← step sampleAnswers s₄ 1
      let s₆ ← step sampleAnswers s₅ 1
      some (decide ((s₁.continuations 0).phase = .insert 0 ∧ (s₂.continuations 0).phase = .store 0 ∧
        entry sampleAnswers s₃ 1 = some (padded [97], [0]) ∧
        s₃.keyBlockNodeMap[padded [97]]? = some 0 ∧ (s₄.continuations 1).phase = .insert 0 ∧
        (s₅.continuations 1).phase = .store 0 ∧ (s₆.continuations 0).pos = 1 ∧
        (s₆.continuations 1).pos = 1))) = some true := by
    decide +kernel
  simp only [Option.bind_eq_bind, Option.bind_eq_some_iff, Option.some.injEq, decide_eq_true_eq]
    at hall
  obtain ⟨s₁, h₁, s₂, h₂, s₃, h₃, s₄, h₄, s₅, h₅, s₆, h₆, hp₁, hp₂, he₃, hm₃, hp₄, hp₅, hf₀, hf₁⟩ :=
    hall
  have hrun : Runs.Reached (step sampleAnswers) (Exclusive sampleAnswers) State.initial s₃ :=
    ((Runs.Reached.start.step (fun _ _ _ _ _ _ _ => not_working_of_lookUp rfl) h₁).step
      (exclusive_of_phase (by rw [hp₁]; decide)) h₂).step
      (exclusive_of_phase (by rw [hp₂]; decide)) h₃
  have hstored : Exclusive sampleAnswers s₃ 1 := by
    intro key blockNums he _ hnone
    obtain ⟨rfl, -⟩ := Prod.mk.inj (Option.some.inj (he.symm.trans he₃))
    rw [hm₃] at hnone
    cases hnone
  have hrun' := ((hrun.step hstored h₄).step (exclusive_of_phase (by rw [hp₄]; decide)) h₅).step
    (exclusive_of_phase (by rw [hp₅]; decide)) h₆
  have hfinished := finished_sample hf₀ hf₁
  exact ⟨s₆, hrun', hfinished, (holds_iff_reported hrun' hfinished).1⟩

/-- Both continuations look up the key before either stores its map: node 1 replaces the map that
node 0 has stored. -/
theorem lost_replica :
    ∃ s, Runs.Reached (step sampleAnswers) (fun _ _ => True) State.initial s ∧
      Finished sampleAnswers s ∧ Reported sampleAnswers 0 (padded [97]) 0 ∧
      ¬ Holds s (padded [97]) 0 0 := by
  have hall : ([0, 1, 0, 0, 1, 1].foldlM (step sampleAnswers) State.initial).map (fun s =>
      ((s.continuations 0).pos, (s.continuations 1).pos,
        decide (Nested.Holds s.view (padded [97]) 0 0))) = some (1, 1, false) := by
    decide +kernel
  obtain ⟨s, hrun, hs⟩ := Option.map_eq_some_iff.mp hall
  simp only [Prod.mk.injEq, decide_eq_false_iff_not] at hs
  obtain ⟨hf₀, hf₁, hlost⟩ := hs
  refine ⟨s, Runs.reached_of_foldlM _ hrun (fun _ _ _ => trivial) .start,
    finished_sample hf₀ hf₁, ⟨[0], ?_, by decide⟩, fun h => hlost ((holds_view s _ _ _).mpr h)⟩
  decide +kernel

end SyncRace

end RackKey
