import Mathlib.Algebra.Order.Ring.Nat
import Mathlib.Data.List.Basic

set_option autoImplicit false

/-! # 32-bit words as bytes

The little-endian byte representation of a 32-bit word, and reading one word off the front
of a byte string. `readLe32` consumes exactly what `le32` produces, in both directions
(`readLe32_append`, `eq_of_readLe32`), so a format that is a concatenation of words and
counted fields can be decoded by peeling one field at a time.
-/

namespace Words

/-- A byte string. -/
abbrev Bytes := List UInt8

/-- The four bytes of a word, least significant first. -/
def le32 (x : UInt32) : Bytes :=
  [UInt8.ofNat x.toNat, UInt8.ofNat (x.toNat / 256), UInt8.ofNat (x.toNat / 65536),
    UInt8.ofNat (x.toNat / 16777216)]

/-- The word with the given bytes, least significant first. -/
def ofLe32 (a b c d : UInt8) : UInt32 :=
  UInt32.ofNat (a.toNat + 256 * b.toNat + 65536 * c.toNat + 16777216 * d.toNat)

/-- Read one word off the front; `none` when fewer than four bytes are left. -/
def readLe32 : Bytes → Option (UInt32 × Bytes)
  | a :: b :: c :: d :: rest => some (ofLe32 a b c d, rest)
  | _ => none

@[simp] theorem le32_length (x : UInt32) : (le32 x).length = 4 := rfl

theorem ofLe32_le32 (x : UInt32) :
    ofLe32 (UInt8.ofNat x.toNat) (UInt8.ofNat (x.toNat / 256)) (UInt8.ofNat (x.toNat / 65536))
      (UInt8.ofNat (x.toNat / 16777216)) = x := by
  have hx : x.toNat < 4294967296 := x.toNat_lt
  apply UInt32.toNat_inj.mp
  simp only [ofLe32, UInt8.toNat_ofNat', UInt32.toNat_ofNat']
  omega

theorem le32_ofLe32 (a b c d : UInt8) : le32 (ofLe32 a b c d) = [a, b, c, d] := by
  have ha : a.toNat < 256 := a.toNat_lt
  have hb : b.toNat < 256 := b.toNat_lt
  have hc : c.toNat < 256 := c.toNat_lt
  have hd : d.toNat < 256 := d.toNat_lt
  simp only [le32, ofLe32, UInt32.toNat_ofNat', List.cons.injEq, and_true]
  refine ⟨?_, ?_, ?_, ?_⟩ <;>
    (apply UInt8.toNat_inj.mp; simp only [UInt8.toNat_ofNat']; omega)

/-- Reading a word undoes writing it, whatever follows. -/
@[simp] theorem readLe32_append (x : UInt32) (rest : Bytes) :
    readLe32 (le32 x ++ rest) = some (x, rest) := by
  simp only [le32, List.cons_append, List.nil_append, readLe32, ofLe32_le32]

/-- What `readLe32` reads is the byte representation of the word it returns. -/
theorem eq_of_readLe32 {bs rest : Bytes} {x : UInt32} (h : readLe32 bs = some (x, rest)) :
    bs = le32 x ++ rest := by
  match bs, h with
  | a :: b :: c :: d :: t, h =>
      simp only [readLe32, Option.some.injEq, Prod.mk.injEq] at h
      obtain ⟨rfl, rfl⟩ := h
      rw [le32_ofLe32]
      rfl

/-- Four bytes are a word. -/
theorem exists_le32 (bs : Bytes) (h : 4 ≤ bs.length) : ∃ x, bs = le32 x ++ bs.drop 4 := by
  match bs, h with
  | a :: b :: c :: d :: t, _ =>
      refine ⟨ofLe32 a b c d, ?_⟩
      rw [le32_ofLe32]
      rfl

theorem exists_two_le32 (bs : Bytes) (h : bs.length = 8) : ∃ x y, bs = le32 x ++ le32 y := by
  obtain ⟨x, hx⟩ := exists_le32 bs (by omega)
  obtain ⟨y, hy⟩ := exists_le32 (bs.drop 4) (by rw [List.length_drop]; omega)
  have hend : (bs.drop 4).drop 4 = [] :=
    List.drop_eq_nil_of_le (by rw [List.length_drop]; omega)
  rw [hend, List.append_nil] at hy
  exact ⟨x, y, by rw [← hy]; exact hx⟩

theorem toNat_min (x y : UInt32) : (min x y).toNat = min x.toNat y.toNat := by
  have hmin : min x y = if x ≤ y then x else y := rfl
  rw [hmin]
  split
  · rename_i hle
    rw [UInt32.le_iff_toNat_le] at hle
    omega
  · rename_i hle
    rw [UInt32.le_iff_toNat_le] at hle
    omega

/-- The smaller of a word and a length that fits in one. -/
theorem toNat_min_ofNat (x : UInt32) {n : Nat} (h : n < 2 ^ 32) :
    (min x (UInt32.ofNat n)).toNat = min x.toNat n := by
  rw [toNat_min, UInt32.toNat_ofNat_of_lt' h]

end Words
