import Mathlib.Algebra.BigOperators.Group.Finset.Piecewise
import Mathlib.Algebra.BigOperators.Group.List.Basic
import Mathlib.Algebra.Order.Ring.Nat
import Mathlib.Data.Finset.Card
import RackKey.Lib.Keyed
import RackKey.Lib.Multimap

set_option autoImplicit false

/-! # Counting in tables and tree maps

`total` adds up a weight over the entries of a tree map. Setting or erasing one entry changes it
by the weight of that entry (`total_insert`, `total_erase`). `countOf` counts the keys of a
multimap under which a value stands, which is the number of the keys it is related to
(`countOf_eq_card`). A sum over a table with distinct keys is one over its keys
(`sum_map_eq_sum_lookup`).
-/

open Std

namespace Tally

variable {κ β : Type} [Ord κ] [TransOrd κ] [LawfulEqOrd κ]

/-- The sum of the weights of all entries. -/
def total (weight : β → Nat) (m : ExtTreeMap κ β) : Nat :=
  (m.toList.map fun p => weight p.2).sum

/-- The weight of a key, zero when it is missing. -/
def weightOf (weight : β → Nat) (m : ExtTreeMap κ β) (k : κ) : Nat := (m[k]?.map weight).getD 0

theorem nodup_toList (m : ExtTreeMap κ β) : m.toList.Nodup :=
  (nodup_keys_toList m).of_map _

variable [DecidableEq κ]

/-- The entries of a map are one of them and those left when it is erased. -/
theorem toList_perm {m : ExtTreeMap κ β} {k : κ} {v : β} (h : m[k]? = some v) :
    m.toList.Perm ((k, v) :: (m.erase k).toList) := by
  have hnot : (k, v) ∉ (m.erase k).toList := by
    rw [ExtTreeMap.mem_toList_iff_getElem?_eq_some, getElem?_erase_eq, if_pos rfl]
    exact Option.some_ne_none v ∘ Eq.symm
  refine (List.perm_ext_iff_of_nodup (nodup_toList m)
    (List.nodup_cons.mpr ⟨hnot, nodup_toList _⟩)).mpr ?_
  rintro ⟨k', v'⟩
  rw [List.mem_cons, ExtTreeMap.mem_toList_iff_getElem?_eq_some,
    ExtTreeMap.mem_toList_iff_getElem?_eq_some, getElem?_erase_eq, Prod.mk.injEq]
  by_cases hk : k = k'
  · subst hk
    rw [h, if_pos rfl]
    simp [eq_comm]
  · rw [if_neg hk]
    simp [Ne.symm hk]

theorem total_of_getElem? {weight : β → Nat} {m : ExtTreeMap κ β} {k : κ} {v : β}
    (h : m[k]? = some v) : total weight m = weight v + total weight (m.erase k) := by
  unfold total
  rw [((toList_perm h).map fun p => weight p.2).sum_eq, List.map_cons, List.sum_cons]

/-- **Erasing a key takes its weight away.** -/
theorem total_erase (weight : β → Nat) (m : ExtTreeMap κ β) (k : κ) :
    total weight (m.erase k) + weightOf weight m k = total weight m := by
  unfold weightOf
  cases h : m[k]? with
  | none =>
      have hsame : m.erase k = m := by
        refine ExtTreeMap.ext_getElem? fun k' => ?_
        rw [getElem?_erase_eq]
        split
        · rename_i hk
          rw [← hk, h]
        · rfl
      rw [hsame]
      rfl
  | some v =>
      rw [total_of_getElem? h, Nat.add_comm]
      rfl

/-- **Setting a key replaces its weight.** -/
theorem total_insert (weight : β → Nat) (m : ExtTreeMap κ β) (k : κ) (v : β) :
    total weight (m.insert k v) + weightOf weight m k = total weight m + weight v := by
  have hget : (m.insert k v)[k]? = some v := by rw [getElem?_insert_eq, if_pos rfl]
  have herase : (m.insert k v).erase k = m.erase k := by
    refine ExtTreeMap.ext_getElem? fun k' => ?_
    rw [getElem?_erase_eq, getElem?_erase_eq, getElem?_insert_eq]
    split <;> rfl
  rw [total_of_getElem? hget, herase, ← total_erase weight m k]
  omega

theorem weightOf_le_total (weight : β → Nat) (m : ExtTreeMap κ β) (k : κ) :
    weightOf weight m k ≤ total weight m := by
  have := total_erase weight m k
  omega

end Tally

namespace Multimap

variable {κ ν : Type} [Ord κ] [TransOrd κ] [LawfulEqOrd κ] [Ord ν] [TransOrd ν]

/-- The number of keys under which a value stands. -/
def countOf (m : Multimap κ ν) (v : ν) : Nat := m.toList.countP fun p => decide (v ∈ p.2)

/-- **The keys under which a value stands are those it is related to.** -/
theorem countOf_eq_card [DecidableEq κ] {m : Multimap κ ν} {v : ν} {S : Finset κ}
    (h : ∀ k, m.Related k v ↔ k ∈ S) : m.countOf v = S.card := by
  have hsub : ((m.toList.filter fun p => decide (v ∈ p.2)).map Prod.fst).Nodup :=
    (nodup_keys_toList m).sublist (List.filter_sublist.map _)
  have hset : ((m.toList.filter fun p => decide (v ∈ p.2)).map Prod.fst).toFinset = S := by
    ext k
    rw [← h, List.mem_toFinset, List.mem_map]
    constructor
    · rintro ⟨⟨k', s⟩, hp, rfl⟩
      rw [List.mem_filter, decide_eq_true_iff, ExtTreeMap.mem_toList_iff_getElem?_eq_some] at hp
      show v ∈ m.getD k' ∅
      rw [ExtTreeMap.getD_eq_getD_getElem?, hp.1]
      exact hp.2
    · intro hk
      have hmem := mem_of_related hk
      refine ⟨(k, m.values k), ?_, rfl⟩
      rw [List.mem_filter, decide_eq_true_iff, ExtTreeMap.mem_toList_iff_getElem?_eq_some, values]
      exact ⟨ExtTreeMap.getElem?_eq_some_getD hmem, hk⟩
  rw [countOf, List.countP_eq_length_filter, ← hset, List.toFinset_card_of_nodup hsub,
    List.length_map]

theorem countOf_eq_length [DecidableEq κ] {m : Multimap κ ν} {v : ν} {l : List κ} (hl : l.Nodup)
    (h : ∀ k, m.Related k v ↔ k ∈ l) : m.countOf v = l.length := by
  rw [countOf_eq_card (S := l.toFinset) fun k => (h k).trans List.mem_toFinset.symm,
    List.toFinset_card_of_nodup hl]

theorem countOf_eq_zero_iff [DecidableEq κ] {m : Multimap κ ν} {v : ν} :
    m.countOf v = 0 ↔ ∀ k, ¬ m.Related k v := by
  constructor
  · intro h k hk
    have hmem := mem_of_related hk
    rw [countOf, List.countP_eq_zero] at h
    refine h (k, m.values k) ?_ (decide_eq_true hk)
    rw [ExtTreeMap.mem_toList_iff_getElem?_eq_some, values]
    exact ExtTreeMap.getElem?_eq_some_getD hmem
  · intro h
    exact countOf_eq_length List.nodup_nil fun k => iff_of_false (h k) List.not_mem_nil

end Multimap

namespace Tally

/-- A sum over the numbers below a bound that are kept. -/
theorem sum_filter_range (w : Nat → Nat) (keep : Nat → Prop) [DecidablePred keep] (N : Nat) :
    (((List.range N).filter fun i => decide (keep i)).map w).sum
      = ∑ i ∈ Finset.range N, if keep i then w i else 0 := by
  induction N with
  | zero => rfl
  | succ N ih =>
      rw [Finset.sum_range_succ, ← ih, List.range_succ, List.filter_append, List.map_append,
        List.sum_append]
      by_cases hN : keep N <;> simp [hN]

end Tally

namespace Keyed

variable {α κ : Type} [DecidableEq κ] {key : α → κ}

/-- **With distinct keys a sum over the table is one over the keys.** -/
theorem sum_map_eq_sum_lookup {l : List α} (w : α → Nat) {S : Finset κ} (hn : (l.map key).Nodup)
    (hS : ∀ x ∈ l, key x ∈ S) :
    (l.map w).sum = ∑ k ∈ S, ((lookup key l k).map w).getD 0 := by
  induction l with
  | nil => simp [lookup]
  | cons x l ih =>
      rw [List.map_cons, List.nodup_cons] at hn
      obtain ⟨hx, hn⟩ := hn
      have hnone : lookup key l (key x) = none :=
        lookup_eq_none.mpr fun y hy he => hx (he ▸ List.mem_map_of_mem hy)
      calc ((x :: l).map w).sum = w x + (l.map w).sum := by rw [List.map_cons, List.sum_cons]
        _ = (∑ k ∈ S, if k = key x then w x else 0)
              + ∑ k ∈ S, ((lookup key l k).map w).getD 0 := by
            rw [Finset.sum_ite_eq', if_pos (hS x (by simp)), ih hn fun y hy => hS y (by simp [hy])]
        _ = ∑ k ∈ S, ((if k = key x then w x else 0) + ((lookup key l k).map w).getD 0) :=
            Finset.sum_add_distrib.symm
        _ = ∑ k ∈ S, ((lookup key (x :: l) k).map w).getD 0 := by
            refine Finset.sum_congr rfl fun k _ => ?_
            by_cases hk : k = key x
            · subst hk
              rw [hnone, if_pos rfl]
              simp [lookup]
            · rw [if_neg hk, Nat.zero_add]
              simp [lookup, Ne.symm hk]

end Keyed

namespace Tally

variable {κ β γ : Type} [Ord κ] [TransOrd κ] [LawfulEqOrd κ] [DecidableEq κ]

end Tally
