import RackKey.Lib.Words

set_option autoImplicit false

/-! # Shared utilities

`MathUtils::ceilDiv`, `StringUtils::fixedSize` and `ApiUtils::parsePath`. A `std::string` is
the list of its bytes; all integers are 32-bit words with their wrap-around.
-/

namespace RackKey

open Words

namespace MathUtils

/-- `ceilDiv`: the numerator of the division wraps. (Division by zero, which traps in C++, is
`0` here.) -/
def ceilDiv (numerator denominator : UInt32) : UInt32 :=
  (numerator + denominator - 1) / denominator

/-- Without wrap-around, `ceilDiv` is the ceiling of the division. -/
theorem ceilDiv_toNat {n d : UInt32} (hd : 0 < d.toNat) (h : n.toNat + d.toNat - 1 < 2 ^ 32) :
    (ceilDiv n d).toNat = (n.toNat + d.toNat - 1) / d.toNat := by
  have hn := n.toNat_lt
  have hd' := d.toNat_lt
  unfold ceilDiv
  rw [UInt32.toNat_div, UInt32.toNat_sub, UInt32.toNat_add]
  congr 1
  simp only [UInt32.toNat_one]
  omega

/-- A numerator that wraps leaves nothing: the quotient is `0`. -/
theorem ceilDiv_of_wrap {n d : UInt32} (h : 2 ^ 32 ≤ n.toNat + d.toNat - 1) :
    (ceilDiv n d).toNat = 0 := by
  have hn := n.toNat_lt
  have hd' := d.toNat_lt
  unfold ceilDiv
  rw [UInt32.toNat_div, UInt32.toNat_sub, UInt32.toNat_add]
  apply Nat.div_eq_of_lt
  simp only [UInt32.toNat_one]
  omega

/-- A quotient that is not `0` comes from a numerator that did not wrap. -/
theorem ceilDiv_fits {n d : UInt32} (h : 0 < (ceilDiv n d).toNat) :
    n.toNat + d.toNat - 1 < 2 ^ 32 := by
  by_contra hc
  rw [ceilDiv_of_wrap (by omega)] at h
  omega

/-- Whatever wraps, the quotient never exceeds what fits in a word. -/
theorem ceilDiv_mul_le (n d : UInt32) : (ceilDiv n d).toNat * d.toNat < 2 ^ 32 := by
  unfold ceilDiv
  rw [UInt32.toNat_div]
  exact Nat.lt_of_le_of_lt (Nat.div_mul_le_self _ _) (UInt32.toNat_lt _)

/-- A quotient that is not `0` covers the numerator, with less than one divisor to spare. -/
theorem le_ceilDiv_mul {n d : UInt32} (h : 0 < (ceilDiv n d).toNat) :
    n.toNat ≤ (ceilDiv n d).toNat * d.toNat ∧
      (ceilDiv n d).toNat * d.toNat < n.toNat + d.toNat := by
  have hd : 0 < d.toNat := by
    rcases Nat.eq_zero_or_pos d.toNat with h0 | hpos
    · unfold ceilDiv at h
      rw [UInt32.toNat_div, h0, Nat.div_zero] at h
      omega
    · exact hpos
  have hq := ceilDiv_toNat hd (ceilDiv_fits h)
  have hdiv := Nat.div_add_mod (n.toNat + d.toNat - 1) d.toNat
  have hmod := Nat.mod_lt (n.toNat + d.toNat - 1) hd
  rw [← hq, Nat.mul_comm] at hdiv
  omega

/-- Eight divides into a capacity without wrap-around exactly. -/
theorem ceilDiv_eight {n : UInt32} (h : n.toNat % 8 = 0) : 8 * (ceilDiv n 8).toNat = n.toNat := by
  have hn := n.toNat_lt
  have h8 : (8 : UInt32).toNat = 8 := rfl
  rw [ceilDiv_toNat (by rw [h8]; omega) (by rw [h8]; omega), h8]
  omega

/-- Rounding up to whole bytes of bits adds nothing exactly to a multiple of 8, or when it wraps. -/
theorem ceilDiv_eight_le_iff (n : UInt32) :
    8 * (ceilDiv n 8).toNat ≤ n.toNat ↔ n.toNat % 8 = 0 ∨ 2 ^ 32 ≤ n.toNat + 7 := by
  have h8 : (8 : UInt32).toNat = 8 := rfl
  by_cases hwrap : 2 ^ 32 ≤ n.toNat + 7
  · rw [ceilDiv_of_wrap (by rw [h8]; omega)]
    exact iff_of_true (Nat.zero_le _) (Or.inr hwrap)
  · rw [ceilDiv_toNat (by rw [h8]; omega) (by rw [h8]; omega), h8]
    omega

theorem ceilDiv_eight_lt (n : UInt32) : 8 * (ceilDiv n 8).toNat < 2 ^ 32 := by
  have h := ceilDiv_mul_le n 8
  have h8 : (8 : UInt32).toNat = 8 := rfl
  rw [h8] at h
  omega

end MathUtils

namespace StringUtils

/-- `fixedSize`: the string truncated, or padded with NUL bytes, to the given size. -/
def fixedSize (s : Bytes) (size : UInt32) : Bytes :=
  s.take size.toNat ++ List.replicate (size.toNat - s.length) 0

theorem fixedSize_length (s : Bytes) (size : UInt32) : (fixedSize s size).length = size.toNat := by
  simp only [fixedSize, List.length_append, List.length_take, List.length_replicate]
  omega

/-- `c_str()` read as a C string: the bytes before the first NUL. -/
def cStr (s : Bytes) : Bytes := s.takeWhile (· != 0)

theorem takeWhile_append_replicate_zero {s : Bytes} (h : (0 : UInt8) ∉ s) (n : Nat) :
    cStr (s ++ List.replicate n 0) = s := by
  induction s with
  | nil =>
      cases n with
      | zero => rfl
      | succ n => rfl
  | cons a t ih =>
      have ha : a ≠ 0 := fun h0 => h (by simp [h0])
      have ht : (0 : UInt8) ∉ t := fun h0 => h (List.mem_cons_of_mem a h0)
      show (a :: (t ++ List.replicate n 0)).takeWhile (· != 0) = a :: t
      rw [List.takeWhile_cons_of_pos (by simpa using ha)]
      exact congrArg (a :: ·) (ih ht)

/-- `removeNullChars`. -/
def removeNullChars (s : Bytes) : Bytes := s.filter (· != 0)

end StringUtils

namespace ApiUtils

/-- The character `/`. -/
def slash : UInt8 := 47

/-- The parts of a string before and after its last `/`. -/
def splitLastSlash (s : Bytes) : Option (Bytes × Bytes) :=
  match s.reverse.findIdx? (· == slash) with
  | none => none
  | some i => some (s.take (s.length - 1 - i), s.drop (s.length - i))

/-- `parsePath`: a URI into a {path, param} pair. (The source indexes the last character of an
empty URI, which a request never has.) -/
def parsePath (uri : Bytes) : Bytes × Bytes :=
  let cleanUri := if uri.getLast? = some slash then uri.dropLast else uri
  match splitLastSlash cleanUri with
  | none => (cleanUri, [])
  | some (pre, key) => if pre = [] then (cleanUri, []) else (pre, key)

end ApiUtils

/-! ## Hashes for examples -/

/-- The length of a key. -/
def lengthHash (key : Bytes) : UInt32 := UInt32.ofNat key.length

/-- The first byte of a key. -/
def headHash (key : Bytes) : UInt32 := (key.headD 0).toUInt32

end RackKey
