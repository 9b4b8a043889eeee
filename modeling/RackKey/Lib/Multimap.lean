import Std.Data.ExtTreeSet
import Std.Data.ExtTreeMap
import Mathlib.Data.List.Basic
import Mathlib.Data.List.Nodup

set_option autoImplicit false

/-! # Multimaps, and lists grouped by a tag

A multimap is a tree map into tree sets; `Related m k v` says that `v` is among the values of
`k`, and `add` inserts one pair. A multimap none of whose sets is empty is determined by its
relation (`ext_related`). `Nested` is a map into multimaps, `merge` inserts pairs under one of
its keys, and such a map is determined by its relation as well (`ext_holds`).

`group` sorts a list of tagged items into one list for each tag, in the order of the list
(`getD_group`).
-/

open Std

section TreeMaps

variable {κ β : Type} [Ord κ] [TransOrd κ] [LawfulEqOrd κ] [DecidableEq κ]

theorem getElem?_insert_eq (m : ExtTreeMap κ β) (k a : κ) (v : β) :
    (m.insert k v)[a]? = if k = a then some v else m[a]? := by
  rw [ExtTreeMap.getElem?_insert]
  simp only [LawfulEqOrd.compare_eq_iff_eq]

omit [LawfulEqOrd κ] [DecidableEq κ] in
theorem mem_of_getElem?_eq_some {m : ExtTreeMap κ β} {k : κ} {v : β} (h : m[k]? = some v) :
    k ∈ m := ExtTreeMap.mem_iff_isSome_getElem?.mpr (Option.isSome_of_eq_some h)

/-- A map with one entry. -/
theorem getElem?_single (k a : κ) (v w : β) :
    ((∅ : ExtTreeMap κ β).insert k v)[a]? = some w ↔ a = k ∧ w = v := by
  rw [getElem?_insert_eq]
  by_cases hk : k = a
  · simp [hk, eq_comm]
  · have hk' : ¬ a = k := fun h => hk h.symm
    simp [hk, hk']

theorem getElem?_erase_eq (m : ExtTreeMap κ β) (k a : κ) :
    (m.erase k)[a]? = if k = a then none else m[a]? := by
  rw [ExtTreeMap.getElem?_erase]
  simp only [LawfulEqOrd.compare_eq_iff_eq]

omit [DecidableEq κ] in
theorem nodup_toList (s : ExtTreeSet κ) : s.toList.Nodup :=
  s.distinct_toList.imp fun hne he => hne (by rw [he, ReflOrd.compare_self])

/-- Insert a list of entries with distinct keys. -/
theorem getElem?_foldl_insert {l : List (κ × β)} (hn : (l.map Prod.fst).Nodup)
    (m : ExtTreeMap κ β) (k : κ) (v : β) :
    (l.foldl (fun m p => m.insert p.1 p.2) m)[k]? = some v ↔
      (k, v) ∈ l ∨ ((∀ x, (k, x) ∉ l) ∧ m[k]? = some v) := by
  induction l generalizing m with
  | nil => simp
  | cons p l ih =>
      obtain ⟨k₀, v₀⟩ := p
      rw [List.map_cons, List.nodup_cons] at hn
      rw [List.foldl_cons, ih hn.2, getElem?_insert_eq]
      have hnot : ∀ x, (k₀, x) ∉ l := fun x hx => hn.1 (List.mem_map.mpr ⟨_, hx, rfl⟩)
      by_cases hk : k₀ = k
      · subst hk
        rw [if_pos rfl, Option.some.injEq]
        simp only [List.mem_cons, Prod.mk.injEq, true_and, eq_comm (a := v)]
        constructor
        · rintro (hx | ⟨-, rfl⟩)
          · exact absurd hx (hnot v)
          · exact Or.inl (Or.inl rfl)
        · rintro ((rfl | hx) | ⟨hx, -⟩)
          · exact Or.inr ⟨hnot, rfl⟩
          · exact absurd hx (hnot v)
          · exact absurd (Or.inl rfl) (hx v₀)
      · have hk' : ¬ k = k₀ := fun h => hk h.symm
        simp [hk, hk']

omit [DecidableEq κ] in
theorem nodup_keys_toList (m : ExtTreeMap κ β) : (m.toList.map Prod.fst).Nodup := by
  rw [List.Nodup, List.pairwise_map]
  refine m.distinct_keys_toList.imp fun h he => h ?_
  rw [he]
  exact LawfulEqOrd.compare_eq_iff_eq.mpr rfl

/-- Inserting the entries of a map one after another gives the map. -/
theorem foldl_insert_toList (m : ExtTreeMap κ β) :
    m.toList.foldl (fun m p => m.insert p.1 p.2) ∅ = m := by
  refine ExtTreeMap.ext_getElem? fun k => Option.ext fun v => ?_
  rw [getElem?_foldl_insert (nodup_keys_toList m), ExtTreeMap.mem_toList_iff_getElem?_eq_some]
  simp

omit [DecidableEq κ] in
/-- The keys of a map are the one sorted list of them. -/
theorem keys_eq_of_mem {m : ExtTreeMap κ β} {l : List κ}
    (hl : l.Pairwise fun a b => compare a b = .lt) (hmem : ∀ k, k ∈ m ↔ k ∈ l) : m.keys = l := by
  have hlt : ∀ a b : κ, compare a b = .lt → compare b a = .lt → a = b := by
    intro a b hab hba
    rw [OrientedOrd.eq_swap, hba] at hab
    cases hab
  have hn : l.Nodup := hl.imp fun h he => by
    rw [he, ReflOrd.compare_self] at h
    cases h
  have hperm : m.keys.Perm l :=
    (List.perm_ext_iff_of_nodup m.nodup_keys hn).mpr fun k => by rw [ExtTreeMap.mem_keys, hmem]
  exact hperm.eq_of_pairwise (fun a b _ _ => hlt a b) m.ordered_keys hl

/-- An entry of a map filled from a list is one of the list. -/
theorem mem_of_getElem?_foldl_insert {l : List (κ × β)} {m : ExtTreeMap κ β} {k : κ} {v : β}
    (h : (l.foldl (fun m p => m.insert p.1 p.2) m)[k]? = some v) : (k, v) ∈ l ∨ m[k]? = some v := by
  induction l generalizing m with
  | nil => exact Or.inr h
  | cons p l ih =>
      rcases ih h with hl | hm
      · exact Or.inl (List.mem_cons_of_mem p hl)
      · rw [getElem?_insert_eq] at hm
        split at hm
        · rename_i hk
          obtain rfl := Option.some.inj hm
          exact Or.inl (hk ▸ List.mem_cons_self)
        · exact Or.inr hm

/-- A list sorted by its keys is the list of the map filled from it. -/
theorem toList_foldl_insert {l : List (κ × β)}
    (hl : l.Pairwise fun p q => compare p.1 q.1 = .lt) :
    (l.foldl (fun m p => m.insert p.1 p.2) (∅ : ExtTreeMap κ β)).toList = l := by
  have hlt : ∀ p q : κ × β, compare p.1 q.1 = .lt → compare q.1 p.1 = .lt → p = q := by
    intro p q hpq hqp
    rw [OrientedOrd.eq_swap, hqp] at hpq
    cases hpq
  have hkeys : (l.map Prod.fst).Nodup := List.pairwise_map.mpr (hl.imp fun h he => by
    rw [he, ReflOrd.compare_self] at h
    cases h)
  have hnodup : ∀ {m : ExtTreeMap κ β}, m.toList.Nodup := fun {m} =>
    List.Nodup.of_map Prod.fst (nodup_keys_toList m)
  have hperm : List.Perm (l.foldl (fun m p => m.insert p.1 p.2) (∅ : ExtTreeMap κ β)).toList l := by
    refine (List.perm_ext_iff_of_nodup hnodup (List.Nodup.of_map Prod.fst hkeys)).mpr ?_
    rintro ⟨k, v⟩
    rw [ExtTreeMap.mem_toList_iff_getElem?_eq_some, getElem?_foldl_insert hkeys]
    simp
  exact hperm.eq_of_pairwise (fun p q _ _ => hlt p q) ExtTreeMap.ordered_keys_toList hl

end TreeMaps

abbrev Multimap (κ ν : Type) [Ord κ] [Ord ν] : Type := ExtTreeMap κ (ExtTreeSet ν)

namespace Multimap

variable {κ ν : Type} [Ord κ] [TransOrd κ] [Ord ν] [TransOrd ν]

/-- The values of a key. -/
def values (m : Multimap κ ν) (k : κ) : ExtTreeSet ν := m.getD k ∅

def Related (m : Multimap κ ν) (k : κ) (v : ν) : Prop := v ∈ m.values k

instance (m : Multimap κ ν) (k : κ) (v : ν) : Decidable (m.Related k v) :=
  inferInstanceAs (Decidable (v ∈ m.values k))

/-- Insert a pair. -/
def add (m : Multimap κ ν) (k : κ) (v : ν) : Multimap κ ν := m.insert k ((m.values k).insert v)

/-- Insert a list of pairs. -/
def addAll (m : Multimap κ ν) (l : List (κ × ν)) : Multimap κ ν :=
  l.foldl (fun m p => m.add p.1 p.2) m

theorem mem_of_related {m : Multimap κ ν} {k : κ} {v : ν} (h : m.Related k v) : k ∈ m := by
  by_contra hk
  have hv : v ∈ m.getD k ∅ := h
  rw [ExtTreeMap.getD_eq_fallback hk] at hv
  exact ExtTreeSet.not_mem_empty hv

/-- No key without a value. -/
def Proper (m : Multimap κ ν) : Prop := ∀ k ∈ m, ∃ v, m.Related k v

theorem proper_empty : Proper (∅ : Multimap κ ν) := by
  intro k hk
  exact absurd hk ExtTreeMap.not_mem_empty

section Lawful

variable [LawfulEqOrd κ]

theorem mem_add (m : Multimap κ ν) (k k' : κ) (v : ν) :
    k' ∈ m.add k v ↔ k = k' ∨ k' ∈ m := by
  unfold add
  rw [ExtTreeMap.mem_insert, LawfulEqOrd.compare_eq_iff_eq]

variable [LawfulEqOrd ν]

theorem related_add (m : Multimap κ ν) (k k' : κ) (v v' : ν) :
    (m.add k v).Related k' v' ↔ (k = k' ∧ v = v') ∨ m.Related k' v' := by
  unfold Related add values
  rw [ExtTreeMap.getD_insert]
  by_cases hk : k = k'
  · subst hk
    rw [if_pos (LawfulEqOrd.compare_eq_iff_eq.mpr rfl), ExtTreeSet.mem_insert,
      LawfulEqOrd.compare_eq_iff_eq]
    simp
  · rw [if_neg (fun h => hk (LawfulEqOrd.compare_eq_iff_eq.mp h))]
    simp [hk]

theorem related_addAll (l : List (κ × ν)) (m : Multimap κ ν) (k : κ) (v : ν) :
    (m.addAll l).Related k v ↔ (k, v) ∈ l ∨ m.Related k v := by
  induction l generalizing m with
  | nil => simp [addAll]
  | cons p l ih =>
      obtain ⟨k₀, v₀⟩ := p
      show ((m.add k₀ v₀).addAll l).Related k v ↔ _
      rw [ih, related_add, List.mem_cons, Prod.mk.injEq, eq_comm (a := k), eq_comm (a := v)]
      tauto

omit [LawfulEqOrd ν] in
theorem mem_addAll (l : List (κ × ν)) (m : Multimap κ ν) (k : κ) :
    k ∈ m.addAll l ↔ (∃ v, (k, v) ∈ l) ∨ k ∈ m := by
  induction l generalizing m with
  | nil => simp [addAll]
  | cons p l ih =>
      obtain ⟨k₀, v₀⟩ := p
      show k ∈ (m.add k₀ v₀).addAll l ↔ _
      rw [ih, mem_add]
      simp only [List.mem_cons, Prod.mk.injEq]
      constructor
      · rintro (⟨v, hv⟩ | rfl | hk)
        · exact Or.inl ⟨v, Or.inr hv⟩
        · exact Or.inl ⟨v₀, Or.inl ⟨rfl, rfl⟩⟩
        · exact Or.inr hk
      · rintro (⟨v, ⟨rfl, rfl⟩ | hv⟩ | hk)
        · exact Or.inr (Or.inl rfl)
        · exact Or.inl ⟨v, hv⟩
        · exact Or.inr (Or.inr hk)

theorem Proper.addAll {m : Multimap κ ν} (hm : m.Proper) (l : List (κ × ν)) :
    (m.addAll l).Proper := by
  intro k hk
  rcases (mem_addAll l m k).mp hk with ⟨v, hv⟩ | hk
  · exact ⟨v, (related_addAll l m k v).mpr (Or.inl hv)⟩
  · obtain ⟨v, hv⟩ := hm k hk
    exact ⟨v, (related_addAll l m k v).mpr (Or.inr hv)⟩

/-- **A proper multimap is its relation.** -/
theorem ext_related {m m' : Multimap κ ν} (hm : m.Proper) (hm' : m'.Proper)
    (h : ∀ k v, m.Related k v ↔ m'.Related k v) : m = m' := by
  have hmem : ∀ k, k ∈ m ↔ k ∈ m' := by
    intro k
    constructor
    · intro hk
      obtain ⟨v, hv⟩ := hm k hk
      exact mem_of_related ((h k v).mp hv)
    · intro hk
      obtain ⟨v, hv⟩ := hm' k hk
      exact mem_of_related ((h k v).mpr hv)
  refine ExtTreeMap.ext_getElem? fun k => ?_
  by_cases hk : k ∈ m
  · have hk' := (hmem k).mp hk
    have hset : m.values k = m'.values k := ExtTreeSet.ext_mem fun v => h k v
    unfold values at hset
    rw [ExtTreeMap.getElem?_eq_some_getD hk, ExtTreeMap.getElem?_eq_some_getD hk', hset]
  · have hk' : k ∉ m' := fun h' => hk ((hmem k).mpr h')
    rw [ExtTreeMap.getElem?_eq_none hk, ExtTreeMap.getElem?_eq_none hk']

end Lawful

end Multimap

/-! ## Multimaps under a key -/

abbrev Nested (ι κ ν : Type) [Ord ι] [Ord κ] [Ord ν] : Type := ExtTreeMap ι (Multimap κ ν)

namespace Nested

variable {ι κ ν : Type} [Ord ι] [TransOrd ι] [Ord κ] [TransOrd κ] [Ord ν] [TransOrd ν]

/-- The multimap of `i` relates `k` and `v`. -/
def Holds (m : Nested ι κ ν) (i : ι) (k : κ) (v : ν) : Prop := Multimap.Related (m.getD i ∅) k v

instance (m : Nested ι κ ν) (i : ι) (k : κ) (v : ν) : Decidable (m.Holds i k v) :=
  inferInstanceAs (Decidable (Multimap.Related _ k v))

/-- Insert a list of pairs into the multimap of `i`. -/
def merge (m : Nested ι κ ν) (i : ι) (l : List (κ × ν)) : Nested ι κ ν :=
  m.insert i (Multimap.addAll (m.getD i ∅) l)

/-- Every multimap is proper and relates something. -/
def Full (m : Nested ι κ ν) : Prop :=
  ∀ (i : ι) (bm : Multimap κ ν), m[i]? = some bm →
    Multimap.Proper bm ∧ ∃ k v, Multimap.Related bm k v

theorem full_empty : Full (∅ : Nested ι κ ν) := by
  intro i bm h
  rw [ExtTreeMap.getElem?_empty] at h
  cases h

theorem holds_iff (m : Nested ι κ ν) (i : ι) (k : κ) (v : ν) :
    m.Holds i k v ↔ ∃ bm, m[i]? = some bm ∧ Multimap.Related bm k v := by
  unfold Holds
  rw [ExtTreeMap.getD_eq_getD_getElem?]
  cases m[i]? with
  | none =>
      simp only [Option.getD_none, reduceCtorEq, false_and, exists_false, iff_false]
      exact fun h => ExtTreeMap.not_mem_empty (Multimap.mem_of_related h)
  | some bm => simp

theorem holds_of_some {m : Nested ι κ ν} {i : ι} {bm : Multimap κ ν} (h : m[i]? = some bm)
    (k : κ) (v : ν) : m.Holds i k v ↔ Multimap.Related bm k v := by
  rw [holds_iff, h]
  simp

theorem not_holds_of_none {m : Nested ι κ ν} {i : ι} (h : m[i]? = none) (k : κ) (v : ν) :
    ¬ m.Holds i k v := by
  rw [holds_iff, h]
  simp

theorem not_holds_empty (i : ι) (k : κ) (v : ν) : ¬ Holds (∅ : Nested ι κ ν) i k v :=
  not_holds_of_none ExtTreeMap.getElem?_empty k v

section Lawful

variable [LawfulEqOrd ι] [LawfulEqOrd κ] [LawfulEqOrd ν] [DecidableEq ι]

theorem holds_merge (m : Nested ι κ ν) (i i' : ι) (l : List (κ × ν)) (k : κ) (v : ν) :
    (m.merge i l).Holds i' k v ↔ (i = i' ∧ (k, v) ∈ l) ∨ m.Holds i' k v := by
  rw [holds_iff, merge, getElem?_insert_eq]
  by_cases hi : i = i'
  · subst hi
    rw [if_pos rfl]
    simp only [Option.some.injEq, exists_eq_left', Multimap.related_addAll, true_and]
    exact Iff.rfl
  · rw [if_neg hi, ← holds_iff]
    simp [hi]

theorem Full.merge {m : Nested ι κ ν} (hm : m.Full) (i : ι) {l : List (κ × ν)} (hl : l ≠ []) :
    (m.merge i l).Full := by
  intro i' bm h
  rw [Nested.merge, getElem?_insert_eq] at h
  by_cases hi : i = i'
  · rw [if_pos hi] at h
    obtain rfl := Option.some.inj h
    obtain ⟨p, hp⟩ := List.exists_mem_of_ne_nil l hl
    refine ⟨Multimap.Proper.addAll ?_ l, p.1, p.2, ?_⟩
    · rw [ExtTreeMap.getD_eq_getD_getElem?]
      cases hget : m[i]? with
      | none => exact Multimap.proper_empty
      | some bm => exact (hm i bm hget).1
    · exact (Multimap.related_addAll l _ p.1 p.2).mpr (Or.inl hp)
  · rw [if_neg hi] at h
    exact hm i' bm h

omit [DecidableEq ι] in
/-- **A full map is its relation.** -/
theorem ext_holds {m m' : Nested ι κ ν} (hm : m.Full) (hm' : m'.Full)
    (h : ∀ i k v, m.Holds i k v ↔ m'.Holds i k v) : m = m' := by
  have half : ∀ {m m' : Nested ι κ ν}, m.Full → m'.Full →
      (∀ i k v, m.Holds i k v ↔ m'.Holds i k v) →
      ∀ (i : ι) (bm : Multimap κ ν), m[i]? = some bm → m'[i]? = some bm := by
    intro m m' hm hm' h i bm hget
    obtain ⟨hproper, k, v, hrel⟩ := hm i bm hget
    obtain ⟨bm', hget', -⟩ := (holds_iff m' i k v).mp
      ((h i k v).mp ((holds_iff m i k v).mpr ⟨bm, hget, hrel⟩))
    have heq : bm = bm' := by
      refine Multimap.ext_related hproper (hm' i bm' hget').1 fun k v => ?_
      have hkv := h i k v
      rw [holds_iff, holds_iff, hget, hget'] at hkv
      simpa using hkv
    rw [hget', heq]
  refine ExtTreeMap.ext_getElem? fun i => Option.ext fun bm => ⟨half hm hm' h i bm, ?_⟩
  exact half hm' hm (fun i k v => (h i k v).symm) i bm

end Lawful

end Nested

/-! ## Lists grouped by a tag -/

namespace Groups

variable {κ β : Type} [Ord κ] [TransOrd κ] [LawfulEqOrd κ] [DecidableEq κ]

/-- Append an item to the list of its tag. -/
def push (m : ExtTreeMap κ (List β)) (p : κ × β) : ExtTreeMap κ (List β) :=
  m.insert p.1 (m.getD p.1 [] ++ [p.2])

def group (l : List (κ × β)) : ExtTreeMap κ (List β) := l.foldl push ∅

/-- The items of a tag, in the order of the list. -/
def items (l : List (κ × β)) (k : κ) : List β := (l.filter fun p => p.1 = k).map Prod.snd

private theorem foldl_push (l : List (κ × β)) (m : ExtTreeMap κ (List β)) (k : κ) :
    (l.foldl push m).getD k [] = m.getD k [] ++ items l k ∧
      (k ∈ l.foldl push m ↔ k ∈ m ∨ ∃ x, (k, x) ∈ l) := by
  induction l generalizing m with
  | nil => simp [items]
  | cons p l ih =>
      obtain ⟨k₀, x₀⟩ := p
      obtain ⟨hget, hmem⟩ := ih (push m (k₀, x₀))
      rw [List.foldl_cons, hget, hmem]
      by_cases hk : k₀ = k
      · subst hk
        simp [push, items]
      · have hne : compare k₀ k ≠ .eq := fun h => hk (LawfulEqOrd.compare_eq_iff_eq.mp h)
        have hk' : ¬ k = k₀ := fun h => hk h.symm
        simp [push, items, ExtTreeMap.getD_insert, hne, hk, hk']

/-- **Each tag is grouped with its items, in order.** -/
theorem getD_group (l : List (κ × β)) (k : κ) : (group l).getD k [] = items l k := by
  rw [group, (foldl_push l ∅ k).1, ExtTreeMap.getD_empty, List.nil_append]

theorem mem_group (l : List (κ × β)) (k : κ) : k ∈ group l ↔ ∃ x, (k, x) ∈ l := by
  rw [group, (foldl_push l ∅ k).2]
  simp

omit [Ord κ] [TransOrd κ] [LawfulEqOrd κ] in
theorem mem_items {l : List (κ × β)} {k : κ} {x : β} : x ∈ items l k ↔ (k, x) ∈ l := by
  simp [items]

end Groups
