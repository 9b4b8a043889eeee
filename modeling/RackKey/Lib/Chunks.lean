import Mathlib.Algebra.Order.Ring.Nat
import Mathlib.Data.List.Basic
import Mathlib.Data.List.Nodup
import Mathlib.Data.List.Range

set_option autoImplicit false

/-! # Cutting a list into chunks

`chunk d l b` is the `b`-th chunk of `d` elements. The chunks concatenate to the list
(`flatMap_chunk`), and all but the last are full (`length_chunk`).
-/

namespace Chunks

variable {α : Type}

def chunk (d : Nat) (l : List α) (b : Nat) : List α := (l.drop (b * d)).take d

def numChunks (d n : Nat) : Nat := (n + d - 1) / d

theorem flatMap_range_chunk (d : Nat) (l : List α) (k : Nat) :
    (List.range k).flatMap (chunk d l) = l.take (k * d) := by
  induction k with
  | zero => simp
  | succ k ih =>
      rw [List.range_succ, List.flatMap_append, ih, List.flatMap_singleton, Nat.succ_mul,
        List.take_add]
      rfl

theorem le_numChunks_mul {d : Nat} (hd : 0 < d) (n : Nat) : n ≤ numChunks d n * d := by
  have hdiv := Nat.div_add_mod (n + d - 1) d
  have hmod := Nat.mod_lt (n + d - 1) hd
  rw [Nat.mul_comm] at hdiv
  unfold numChunks
  omega

/-- A position is the start of a chunk exactly when it lies in the list. -/
theorem lt_numChunks_iff {d : Nat} (hd : 0 < d) (n b : Nat) : b < numChunks d n ↔ b * d < n := by
  have hdiv := Nat.div_add_mod (n + d - 1) d
  have hmod := Nat.mod_lt (n + d - 1) hd
  unfold numChunks
  rw [← Nat.succ_le_iff, Nat.le_div_iff_mul_le hd, Nat.succ_mul]
  omega

/-- **The chunks put together are the list.** -/
theorem flatMap_chunk {d : Nat} (hd : 0 < d) (l : List α) :
    (List.range (numChunks d l.length)).flatMap (chunk d l) = l := by
  rw [flatMap_range_chunk, List.take_of_length_le (le_numChunks_mul hd l.length)]

theorem sum_length_chunk {d : Nat} (hd : 0 < d) (l : List α) :
    ((List.range (numChunks d l.length)).map fun b => (chunk d l b).length).sum = l.length := by
  rw [← List.length_flatMap, flatMap_chunk hd]

theorem length_chunk_le (d : Nat) (l : List α) (b : Nat) : (chunk d l b).length ≤ d := by
  rw [chunk, List.length_take]
  omega

/-- Every chunk before the last is full. -/
theorem length_chunk {d : Nat} (hd : 0 < d) {l : List α} {b : Nat}
    (hb : b + 1 < numChunks d l.length) : (chunk d l b).length = d := by
  have hlt := (lt_numChunks_iff hd l.length (b + 1)).mp hb
  rw [Nat.succ_mul] at hlt
  rw [chunk, List.length_take, List.length_drop]
  omega

theorem length_flatMap {β : Type} {f : α → List β} {d : Nat} (hf : ∀ a, (f a).length = d)
    (l : List α) : (l.flatMap f).length = d * l.length := by
  induction l with
  | nil => rfl
  | cons a l ih =>
      rw [List.flatMap_cons, List.length_append, hf, ih, List.length_cons, Nat.mul_succ,
        Nat.add_comm]

/-- The chunks of a concatenation of pieces of one length are the pieces. -/
theorem chunk_flatMap {β : Type} {f : α → List β} {d : Nat} (hf : ∀ a, (f a).length = d) :
    ∀ {l : List α} {b : Nat} (hb : b < l.length), chunk d (l.flatMap f) b = f l[b]
  | a :: l, 0, _ => by
      rw [List.flatMap_cons, chunk, Nat.zero_mul, List.drop_zero]
      exact List.take_left' (hf a)
  | a :: l, b + 1, hb => by
      have hb' : b < l.length := Nat.lt_of_succ_lt_succ hb
      have hskip : (b + 1) * d = (f a).length + b * d := by rw [hf, Nat.succ_mul, Nat.add_comm]
      rw [List.getElem_cons_succ, ← chunk_flatMap hf hb', List.flatMap_cons, chunk, chunk, hskip,
        List.drop_length_add_append]

/-- The last element of a sublist that is dropped comes after the rest of it. -/
theorem sublist_dropLast {l l' : List α} (h : List.Sublist l' l) :
    List.Sublist l'.dropLast l.dropLast := by
  induction h with
  | slnil => exact List.Sublist.slnil
  | @cons l' l a h ih =>
      cases l with
      | nil =>
          rw [List.eq_nil_of_sublist_nil h]
          exact List.nil_sublist _
      | cons b l => exact ih.trans (List.sublist_cons_self _ _)
  | @cons_cons l' l a h ih =>
      cases l' with
      | nil => exact List.nil_sublist _
      | cons c l' =>
          cases l with
          | nil => cases h
          | cons b l => exact ih.cons_cons a

end Chunks
