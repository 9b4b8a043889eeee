import Mathlib.Data.List.Basic

set_option autoImplicit false

/-! # Random-access files

A file is the list of its cells. `readAt` returns the cells of a range as far as they exist;
`writeAt` replaces a range, growing the file when the range ends beyond its end and filling
a gap with a given cell, as a seek beyond the end of a file followed by a write does.

The rules below say what a write does to a later read: the written range reads back
(`readAt_writeAt_self`), ranges before and after it are untouched
(`readAt_writeAt_before`, `readAt_writeAt_after`), and two adjacent writes are one
(`writeAt_writeAt_append`).
-/

namespace ByteFile

variable {α : Type}

/-- The cells of `f` from `off` on, at most `n` of them. -/
def readAt (f : List α) (off n : Nat) : List α := (f.drop off).take n

/-- `f` with `bs` written at `off`; a gap before `off` is filled with `z`. Writing no cells
leaves the file as it is. -/
def writeAt (z : α) (f : List α) (off : Nat) (bs : List α) : List α :=
  if bs.isEmpty then f
  else f.take off ++ List.replicate (off - f.length) z ++ bs ++ f.drop (off + bs.length)

@[simp] theorem writeAt_nil (z : α) (f : List α) (off : Nat) : writeAt z f off [] = f := rfl

theorem writeAt_of_ne_nil (z : α) (f : List α) (off : Nat) {bs : List α} (h : bs ≠ []) :
    writeAt z f off bs
      = f.take off ++ List.replicate (off - f.length) z ++ bs ++ f.drop (off + bs.length) := by
  unfold writeAt
  rw [if_neg (by simpa using h)]

theorem readAt_length_le (f : List α) (off n : Nat) : (readAt f off n).length ≤ n := by
  simp only [readAt, List.length_take]; omega

theorem readAt_length {f : List α} {off n : Nat} (h : off + n ≤ f.length) :
    (readAt f off n).length = n := by
  simp only [readAt, List.length_take, List.length_drop]; omega

theorem getElem?_readAt (f : List α) (off n i : Nat) :
    (readAt f off n)[i]? = if i < n then f[off + i]? else none := by
  rw [readAt, List.getElem?_take, List.getElem?_drop]

theorem le_length_of_readAt {off : Nat} (f bs : List α) (h : readAt f off bs.length = bs)
    (hne : bs ≠ []) : off + bs.length ≤ f.length := by
  have hpos := List.length_pos_of_ne_nil hne
  have hlen := congrArg List.length h
  simp only [readAt, List.length_take, List.length_drop] at hlen
  omega

/-- A range is the concatenation of two adjacent ranges. -/
theorem readAt_append_iff {f as bs : List α} {off : Nat} :
    readAt f off (as ++ bs).length = as ++ bs ↔
      readAt f off as.length = as ∧ readAt f (off + as.length) bs.length = bs := by
  have hsplit : readAt f off (as ++ bs).length
      = readAt f off as.length ++ readAt f (off + as.length) bs.length := by
    simp only [readAt, List.length_append, List.take_add, List.drop_drop]
  rw [hsplit]
  constructor
  · intro h
    have hlen := congrArg List.length h
    simp only [List.length_append] at hlen
    have h1 := readAt_length_le f off as.length
    have h2 := readAt_length_le f (off + as.length) bs.length
    exact List.append_inj h (by omega)
  · rintro ⟨h1, h2⟩
    rw [h1, h2]

/-- The front part of a file up to `off`, filled up with `z`. -/
private theorem front_length (z : α) (f : List α) (off : Nat) :
    (f.take off ++ List.replicate (off - f.length) z).length = off := by
  simp only [List.length_append, List.length_take, List.length_replicate]; omega

theorem getElem?_writeAt_before (z : α) {f bs : List α} {off i : Nat} (hi : i < off)
    (hf : i < f.length) : (writeAt z f off bs)[i]? = f[i]? := by
  by_cases hb : bs = []
  · rw [hb, writeAt_nil]
  · rw [writeAt_of_ne_nil z f off hb, List.append_assoc, List.append_assoc,
      List.getElem?_append_left (by rw [List.length_take]; omega), List.getElem?_take, if_pos hi]

theorem getElem?_writeAt_inside (z : α) {f bs : List α} {off i : Nat} (hi : off ≤ i)
    (hb : i < off + bs.length) : (writeAt z f off bs)[i]? = bs[i - off]? := by
  have hne : bs ≠ [] := by
    intro h
    rw [h] at hb
    simp only [List.length_nil] at hb
    omega
  have hlen := front_length z f off
  rw [writeAt_of_ne_nil z f off hne,
    List.getElem?_append_left (by rw [List.length_append, hlen]; omega),
    List.getElem?_append_right (by omega), hlen]

theorem getElem?_writeAt_after (z : α) {f bs : List α} {off i : Nat}
    (hi : off + bs.length ≤ i) : (writeAt z f off bs)[i]? = f[i]? := by
  by_cases hb : bs = []
  · rw [hb, writeAt_nil]
  · have hlen := front_length z f off
    rw [writeAt_of_ne_nil z f off hb,
      List.getElem?_append_right (by rw [List.length_append, hlen]; omega),
      List.length_append, hlen, List.getElem?_drop]
    congr 1
    omega

theorem writeAt_length (z : α) (f : List α) (off : Nat) {bs : List α} (h : bs ≠ []) :
    (writeAt z f off bs).length = max f.length (off + bs.length) := by
  have hlen := front_length z f off
  rw [writeAt_of_ne_nil z f off h, List.length_append, List.length_append, hlen,
    List.length_drop]
  omega

theorem length_le_writeAt_length (z : α) (f : List α) (off : Nat) (bs : List α) :
    f.length ≤ (writeAt z f off bs).length := by
  by_cases h : bs = []
  · subst h
    exact Nat.le_refl f.length
  · have hlen := writeAt_length z f off h
    omega

/-- A written range reads back. -/
theorem readAt_writeAt_self (z : α) (f : List α) (off : Nat) (bs : List α) :
    readAt (writeAt z f off bs) off bs.length = bs := by
  apply List.ext_getElem?
  intro i
  rw [getElem?_readAt]
  by_cases hi : i < bs.length
  · rw [if_pos hi, getElem?_writeAt_inside z (by omega) (by omega)]
    congr 1
    omega
  · rw [if_neg hi, List.getElem?_eq_none (by omega)]

/-- A range that ends before the written one, and inside the file, is untouched. -/
theorem readAt_writeAt_before (z : α) {f : List α} {off off' n : Nat} (bs : List α)
    (h : off' + n ≤ off) (hf : off' + n ≤ f.length) :
    readAt (writeAt z f off bs) off' n = readAt f off' n := by
  apply List.ext_getElem?
  intro i
  rw [getElem?_readAt, getElem?_readAt]
  by_cases hi : i < n
  · rw [if_pos hi, if_pos hi, getElem?_writeAt_before z (by omega) (by omega)]
  · rw [if_neg hi, if_neg hi]

/-- A range that starts after the written one is untouched. -/
theorem readAt_writeAt_after (z : α) (f : List α) {off off' : Nat} (n : Nat) {bs : List α}
    (h : off + bs.length ≤ off') :
    readAt (writeAt z f off bs) off' n = readAt f off' n := by
  apply List.ext_getElem?
  intro i
  rw [getElem?_readAt, getElem?_readAt]
  by_cases hi : i < n
  · rw [if_pos hi, if_pos hi, getElem?_writeAt_after z (by omega)]
  · rw [if_neg hi, if_neg hi]

/-- Two writes to adjacent ranges are one write. -/
theorem writeAt_writeAt_append (z : α) (f : List α) (off : Nat) (as bs : List α) :
    writeAt z (writeAt z f off as) (off + as.length) bs = writeAt z f off (as ++ bs) := by
  by_cases ha : as = []
  · simp [ha]
  by_cases hb : bs = []
  · simp [hb]
  have hlen := front_length z f off
  have hlen' : (f.take off ++ List.replicate (off - f.length) z ++ as).length
      = off + as.length := by
    rw [List.length_append, hlen]
  have hw := writeAt_length z f off ha
  have htake : (writeAt z f off as).take (off + as.length)
      = f.take off ++ List.replicate (off - f.length) z ++ as := by
    rw [writeAt_of_ne_nil z f off ha, List.take_append_of_le_length (by omega),
      List.take_of_length_le (by omega)]
  have hdrop : (writeAt z f off as).drop (off + as.length + bs.length)
      = f.drop (off + (as.length + bs.length)) := by
    rw [writeAt_of_ne_nil z f off ha, List.drop_append, List.drop_of_length_le (by omega),
      List.nil_append, List.drop_drop, hlen']
    congr 1
    omega
  have hgap : off + as.length - (writeAt z f off as).length = 0 := by omega
  rw [writeAt_of_ne_nil z (writeAt z f off as) _ hb, htake, hgap, hdrop,
    writeAt_of_ne_nil z f off (by simp [ha]), List.length_append, List.replicate_zero,
    List.append_nil, List.append_assoc _ as bs]

end ByteFile
