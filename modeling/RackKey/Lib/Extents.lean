import Mathlib.Algebra.BigOperators.Group.Finset.Basic
import Mathlib.Algebra.Order.Ring.Nat
import Mathlib.Data.List.Nodup
import Mathlib.Order.Interval.Finset.Nat

set_option autoImplicit false

/-! # Disjoint sets of cells, counted

A family of pairwise disjoint sets of cells inside `[0, c)` has at most `c` cells in all
(`sum_card_le`, and `card_outside_add_sum` with the cells left over), hence at most `c` members when
none is empty (`length_le_of_nonempty`). Of two disjoint non-empty intervals one ends before the
other starts (`before_or_after`). Cells of one
size, laid out one behind the other from an origin with addresses that wrap, stay apart from each
other and from what is before the origin exactly when no address wraps (`cells_disjoint_iff`).
-/

namespace Extents

/-- The union of the sets in a list. -/
private def union (l : List (Finset Nat)) : Finset Nat := l.foldr (· ∪ ·) ∅

private theorem mem_union {l : List (Finset Nat)} {x : Nat} :
    x ∈ union l ↔ ∃ s ∈ l, x ∈ s := by
  induction l with
  | nil => simp [union]
  | cons s l ih =>
      show x ∈ s ∪ union l ↔ _
      rw [Finset.mem_union, ih]
      simp

private theorem card_union {l : List (Finset Nat)} (h : l.Pairwise Disjoint) :
    (union l).card = (l.map Finset.card).sum := by
  induction l with
  | nil => rfl
  | cons s l ih =>
      rw [List.pairwise_cons] at h
      have hdisj : Disjoint s (union l) := by
        rw [Finset.disjoint_left]
        intro x hx hu
        obtain ⟨t, ht, hxt⟩ := mem_union.mp hu
        exact Finset.disjoint_left.mp (h.1 t ht) hx hxt
      show (s ∪ union l).card = _
      rw [Finset.card_union_of_disjoint hdisj, ih h.2]
      rfl

/-- Pairwise disjoint sets below `c` have at most `c` elements together. -/
theorem sum_card_le {l : List (Finset Nat)} {c : Nat} (hd : l.Pairwise Disjoint)
    (hin : ∀ s ∈ l, ∀ x ∈ s, x < c) : (l.map Finset.card).sum ≤ c := by
  rw [← card_union hd]
  have hsub : union l ⊆ Finset.range c := by
    intro x hx
    obtain ⟨s, hs, hxs⟩ := mem_union.mp hx
    exact Finset.mem_range.mpr (hin s hs x hxs)
  have hcard := Finset.card_le_card hsub
  rwa [Finset.card_range] at hcard

/-- Pairwise disjoint sets below `c` and the cells in none of them are `c` cells together. -/
theorem card_outside_add_sum {l : List (Finset Nat)} {c : Nat} (hd : l.Pairwise Disjoint)
    (hin : ∀ s ∈ l, ∀ x ∈ s, x < c) {outside : Finset Nat}
    (houtside : ∀ x, x ∈ outside ↔ x < c ∧ ∀ s ∈ l, x ∉ s) :
    outside.card + (l.map Finset.card).sum = c := by
  have hdisj : Disjoint outside (union l) := by
    rw [Finset.disjoint_left]
    intro x hx hu
    obtain ⟨s, hs, hxs⟩ := mem_union.mp hu
    exact ((houtside x).mp hx).2 s hs hxs
  have hall : outside ∪ union l = Finset.range c := by
    ext x
    rw [Finset.mem_union, mem_union, Finset.mem_range, houtside]
    constructor
    · rintro (⟨hx, -⟩ | ⟨s, hs, hxs⟩)
      · exact hx
      · exact hin s hs x hxs
    · intro hx
      by_cases hs : ∃ s ∈ l, x ∈ s
      · exact Or.inr hs
      · exact Or.inl ⟨hx, fun s hsl hxs => hs ⟨s, hsl, hxs⟩⟩
  calc outside.card + (l.map Finset.card).sum
      = outside.card + (union l).card := by rw [card_union hd]
    _ = (outside ∪ union l).card := (Finset.card_union_of_disjoint hdisj).symm
    _ = c := by rw [hall, Finset.card_range]

/-- Pairwise disjoint non-empty sets below `c`: there are at most `c` of them. -/
theorem length_le_of_nonempty {l : List (Finset Nat)} {c : Nat} (hd : l.Pairwise Disjoint)
    (hin : ∀ s ∈ l, ∀ x ∈ s, x < c) (hne : ∀ s ∈ l, s.Nonempty) : l.length ≤ c := by
  have hsum := sum_card_le hd hin
  have hlen : l.length ≤ (l.map Finset.card).sum := by
    clear hd hin hsum
    induction l with
    | nil => exact Nat.le_refl 0
    | cons s l ih =>
        have hs := Finset.card_pos.mpr (hne s (by simp))
        have := ih (fun t ht => hne t (by simp [ht]))
        simp only [List.map_cons, List.sum_cons, List.length_cons]
        omega
  omega

theorem before_or_after {s n s' n' : Nat} (hn : 0 < n) (hn' : 0 < n')
    (hd : Disjoint (Finset.Ico s (s + n)) (Finset.Ico s' (s' + n'))) :
    s + n ≤ s' ∨ s' + n' ≤ s := by
  by_contra hc
  have hx : max s s' ∈ Finset.Ico s (s + n) := Finset.mem_Ico.mpr ⟨by omega, by omega⟩
  have hx' : max s s' ∈ Finset.Ico s' (s' + n') := Finset.mem_Ico.mpr ⟨by omega, by omega⟩
  exact Finset.disjoint_left.mp hd hx hx'

/-! ## Cells at addresses that wrap -/

/-- Cell `i` of the cells of size `d` from the origin `o` on. Its start wraps at `w`. -/
def cell (w o d i : Nat) : Finset Nat := Finset.Ico ((o + d * i) % w) ((o + d * i) % w + d)

/-- Cells that do not wrap are behind the origin, in order. -/
theorem cell_eq {w o d i : Nat} (h : o + d * i < w) :
    cell w o d i = Finset.Ico (o + d * i) (o + d * i + d) := by
  rw [cell, Nat.mod_eq_of_lt h]

/-- If a cell wraps, the first one that does starts before the origin or in the first cell. -/
theorem not_wraps_of_disjoint {w o d n : Nat} (hd : 0 < d) (hdw : d ≤ w) (ho : o < w)
    (hfront : ∀ i < n, Disjoint (Finset.Ico 0 o) (cell w o d i))
    (hcells : ∀ i j, i < j → j < n → Disjoint (cell w o d i) (cell w o d j)) :
    ∀ i < n, o + d * i < w := by
  intro i
  induction i with
  | zero => exact fun _ => by omega
  | succ i ih =>
      intro hi
      have hprev := ih (by omega)
      by_contra hwrap
      rw [Nat.mul_succ] at hwrap
      have hstart : (o + d * (i + 1)) % w = o + d * i + d - w := by
        rw [Nat.mul_succ, ← Nat.add_assoc, Nat.mod_eq_sub_mod (by omega),
          Nat.mod_eq_of_lt (by omega)]
      have hmem : o + d * i + d - w ∈ cell w o d (i + 1) := by
        rw [cell, hstart, Finset.mem_Ico]
        omega
      by_cases hlow : o + d * i + d - w < o
      · exact Finset.disjoint_left.mp (hfront (i + 1) hi)
          (Finset.mem_Ico.mpr ⟨Nat.zero_le _, hlow⟩) hmem
      · have hfirst : o + d * i + d - w ∈ cell w o d 0 := by
          rw [cell_eq (by omega), Finset.mem_Ico]
          omega
        exact Finset.disjoint_left.mp (hcells 0 (i + 1) (by omega) hi) hfirst hmem

theorem cells_disjoint_iff {w o d n : Nat} (hd : 0 < d) (hdw : d ≤ w) (ho : o < w) :
    ((∀ i < n, Disjoint (Finset.Ico 0 o) (cell w o d i)) ∧
      ∀ i j, i < j → j < n → Disjoint (cell w o d i) (cell w o d j)) ↔
      ∀ i < n, o + d * i < w := by
  constructor
  · rintro ⟨hfront, hcells⟩
    exact not_wraps_of_disjoint hd hdw ho hfront hcells
  · intro h
    refine ⟨fun i hi => ?_, fun i j hij hj => ?_⟩
    · rw [cell_eq (h i hi), Finset.disjoint_left]
      intro x hx hx'
      rw [Finset.mem_Ico] at hx hx'
      omega
    · rw [cell_eq (h i (by omega)), cell_eq (h j hj), Finset.disjoint_left]
      intro x hx hx'
      rw [Finset.mem_Ico] at hx hx'
      have hmul : d * (i + 1) ≤ d * j := Nat.mul_le_mul_left d hij
      rw [Nat.mul_succ] at hmul
      omega

end Extents
