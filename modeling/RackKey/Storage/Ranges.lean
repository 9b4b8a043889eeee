import RackKey.Storage.FreeSpace

set_option autoImplicit false

/-! # Ranges of blocks

`allocateNBlocks` and `freeNBlocks` change exactly the bits of their range, and undo each other
(`ranges_exact`). Neither compares a byte index with the size of the bitmap. `checkedMarkNBlocks`
is their common body with that comparison at each access; it goes through exactly when the range
ends inside the bitmap (`checkedMarkNBlocks_eq`).
-/

namespace RackKey

open Bitmap

namespace FreeSpaceMap

/-! ## Access inside the bitmap -/

/-- `markBitsInByte`; `none` when the bitmap has no byte with the index. -/
def checkedMarkBitsInByte (v : Bool) (bitMap : List (BitVec 8)) (index startPos count : Nat) :
    Option (List (BitVec 8)) :=
  if index < bitMap.length then some (markBitsInByte v bitMap index startPos count) else none

/-- `markWholeBytes`, the same way. -/
def checkedMarkWholeBytes (v : Bool) : Nat → List (BitVec 8) → Nat → Option (List (BitVec 8))
  | 0, bitMap, _ => some bitMap
  | count + 1, bitMap, index =>
      if index < bitMap.length then
        checkedMarkWholeBytes v count
          (bitMap.modify index fun _ => if v then 0xFF#8 else 0#8) (index + 1)
      else none

/-- `markNBlocks`; `none` when it would index outside of the bitmap. -/
def checkedMarkNBlocks (v : Bool) (bitMap : List (BitVec 8)) (startBlockNum N : Nat) :
    Option (List (BitVec 8)) :=
  if N < 1 then some bitMap
  else do
    let index := startBlockNum / 8
    let pos := startBlockNum % 8
    let numBits := if pos ≠ 0 then min N (8 - pos) else 0
    let bitMap₁ ←
      (if pos ≠ 0 then checkedMarkBitsInByte v bitMap index pos numBits else some bitMap)
    let index₁ := if pos ≠ 0 then index + 1 else index
    let N₁ := N - numBits
    let bitMap₂ ← checkedMarkWholeBytes v (N₁ / 8) bitMap₁ index₁
    let index₂ := index₁ + N₁ / 8
    let N₂ := N₁ % 8
    if N₂ > 0 then checkedMarkBitsInByte v bitMap₂ index₂ 0 N₂ else some bitMap₂

theorem checkedMarkWholeBytes_eq (v : Bool) :
    ∀ (count : Nat) (m : List (BitVec 8)) (index : Nat),
      checkedMarkWholeBytes v count m index
        = if count = 0 ∨ index + count ≤ m.length then some (markWholeBytes v count m index)
          else none
  | 0, _, _ => rfl
  | count + 1, m, index => by
      rw [checkedMarkWholeBytes, checkedMarkWholeBytes_eq v count, List.length_modify,
        markWholeBytes]
      by_cases hindex : index < m.length
      · rw [if_pos hindex]
        refine if_congr ?_ rfl rfl
        omega
      · rw [if_neg hindex, if_neg (by omega)]

/-- **The three phases stay inside the bitmap** exactly when the range does. -/
theorem checkedMarkNBlocks_eq (v : Bool) (m : List (BitVec 8)) (s n : Nat) :
    checkedMarkNBlocks v m s n
      = if n = 0 ∨ s + n ≤ 8 * m.length then some (markNBlocks v m s n) else none := by
  unfold checkedMarkNBlocks markNBlocks
  by_cases hn : n < 1
  · rw [if_pos hn, if_pos hn, if_pos (by omega)]
  · rw [if_neg hn, if_neg hn]
    dsimp only [Option.bind_eq_bind]
    set numBits := if s % 8 ≠ 0 then min n (8 - s % 8) else 0 with hnum
    set index₁ := if s % 8 ≠ 0 then s / 8 + 1 else s / 8 with hindex
    set m₁ := if s % 8 ≠ 0 then markBitsInByte v m (s / 8) (s % 8) numBits else m with hm₁
    have hlen : m₁.length = m.length := by rw [hm₁]; split <;> simp
    have hfirst : (if s % 8 ≠ 0 then checkedMarkBitsInByte v m (s / 8) (s % 8) numBits
        else some m) = if s % 8 ≠ 0 → s / 8 < m.length then some m₁ else none := by
      by_cases hpos : s % 8 ≠ 0
      · rw [hm₁, if_pos hpos, if_pos hpos, checkedMarkBitsInByte]
        refine if_congr ?_ rfl rfl
        exact ⟨fun h _ => h, fun h => h hpos⟩
      · rw [hm₁, if_neg hpos, if_neg hpos, if_pos fun h => absurd h hpos]
    have hphase : (s % 8 ≠ 0 ∧ numBits = min n (8 - s % 8) ∧ index₁ = s / 8 + 1) ∨
        (s % 8 = 0 ∧ numBits = 0 ∧ index₁ = s / 8) := by
      rw [hnum, hindex]
      split <;> omega
    clear_value numBits index₁ m₁
    rw [hfirst]
    by_cases hin₁ : s % 8 ≠ 0 → s / 8 < m.length
    · rw [if_pos hin₁, Option.bind_some, checkedMarkWholeBytes_eq, hlen]
      by_cases hin₂ : (n - numBits) / 8 = 0 ∨ index₁ + (n - numBits) / 8 ≤ m.length
      · rw [if_pos hin₂, Option.bind_some, checkedMarkBitsInByte,
          length_markWholeBytes, hlen]
        -- what is left lies in the byte behind the whole ones
        by_cases hrest : (n - numBits) % 8 > 0
        · rw [if_pos hrest, if_pos hrest]
          refine if_congr ?_ rfl rfl
          omega
        · rw [if_neg hrest, if_neg hrest, if_pos (by omega)]
      · rw [if_neg hin₂, Option.bind_none, if_neg (by omega)]
    · rw [if_neg hin₁, Option.bind_none, if_neg (by omega)]

/-- `allocateNBlocks`; `none` when it would index outside of the bitmap. -/
def checkedAllocateNBlocks (fsm : FreeSpaceMap) (startBlockNum N : UInt32) : Option FreeSpaceMap :=
  (checkedMarkNBlocks true fsm.bitMap startBlockNum.toNat N.toNat).map
    fun _ => (fsm.allocateNBlocks startBlockNum N).2

theorem checkedAllocateNBlocks_eq (fsm : FreeSpaceMap) (s N : UInt32) :
    fsm.checkedAllocateNBlocks s N
      = if N.toNat = 0 ∨ s.toNat + N.toNat ≤ fsm.numBits then some (fsm.allocateNBlocks s N).2
        else none := by
  unfold checkedAllocateNBlocks numBits
  rw [checkedMarkNBlocks_eq]
  split <;> rfl

/-! ## What isMapped observes -/

theorem isMapped_eq_some_false_iff (fsm : FreeSpaceMap) (b : UInt32) :
    fsm.isMapped b = some false ↔ b.toNat < fsm.numBits ∧ ¬ fsm.Mapped b.toNat := by
  unfold isMapped Mapped numBits
  by_cases h : fsm.bitMap.length ≤ b.toNat / 8
  · rw [if_pos h]
    simp only [reduceCtorEq, false_iff, not_and]
    omega
  · rw [if_neg h, Option.some.injEq, Bool.not_eq_true]
    exact (and_iff_right (by omega)).symm

/-- A range that is marked, as observed by `isMapped`. -/
theorem isMapped_mark {fsm fsm' : FreeSpaceMap} {v : Bool} {s N : UInt32}
    (h : s.toNat + N.toNat ≤ fsm.numBits)
    (hmark : fsm'.bitMap = markNBlocks v fsm.bitMap s.toNat N.toNat) (b : UInt32) :
    fsm'.isMapped b
      = if s.toNat ≤ b.toNat ∧ b.toNat < s.toNat + N.toNat then some v else fsm.isMapped b := by
  unfold isMapped
  rw [hmark, length_markNBlocks, bit_markNBlocks v h]
  unfold numBits at h
  by_cases hb : s.toNat ≤ b.toNat ∧ b.toNat < s.toNat + N.toNat
  · rw [if_neg (by omega), if_pos hb, if_pos hb]
  · rw [if_neg hb, if_neg hb]

/-- **Allocating and freeing a range is bit-exact**: exactly the bits of the range change, no byte
outside of the bitmap is accessed, and the one restores what the other changed. -/
theorem ranges_exact {fsm : FreeSpaceMap} {s N : UInt32} (h : s.toNat + N.toNat ≤ fsm.numBits) :
    (∀ b : UInt32, (fsm.allocateNBlocks s N).2.isMapped b
      = if s.toNat ≤ b.toNat ∧ b.toNat < s.toNat + N.toNat then some true else fsm.isMapped b) ∧
    (∀ b : UInt32, (fsm.freeNBlocks s N).isMapped b
      = if s.toNat ≤ b.toNat ∧ b.toNat < s.toNat + N.toNat then some false else fsm.isMapped b) ∧
    checkedMarkNBlocks true fsm.bitMap s.toNat N.toNat
      = some (fsm.allocateNBlocks s N).2.bitMap ∧
    checkedMarkNBlocks false fsm.bitMap s.toNat N.toNat = some (fsm.freeNBlocks s N).bitMap ∧
    ((∀ b : UInt32, s.toNat ≤ b.toNat → b.toNat < s.toNat + N.toNat →
        fsm.isMapped b = some false) →
      (fsm.allocateNBlocks s N).2.freeNBlocks s N = fsm) ∧
    ((∀ b : UInt32, s.toNat ≤ b.toNat → b.toNat < s.toNat + N.toNat →
        fsm.isMapped b = some true) →
      ((fsm.freeNBlocks s N).allocateNBlocks s N).2 = fsm) := by
  have hinside : ∀ v, checkedMarkNBlocks v fsm.bitMap s.toNat N.toNat
      = some (markNBlocks v fsm.bitMap s.toNat N.toNat) := fun v => by
    rw [checkedMarkNBlocks_eq]
    exact if_pos (Or.inr h)
  have hbits : (fsm.allocateNBlocks s N).2.numBits = fsm.numBits :=
    congrArg (8 * ·) (length_markNBlocks _ _ _ _)
  -- a block of the range is a 32-bit number
  have hword : ∀ b ∈ Finset.Ico s.toNat (s.toNat + N.toNat),
      (UInt32.ofNat b).toNat = b ∧ s.toNat ≤ (UInt32.ofNat b).toNat ∧
        (UInt32.ofNat b).toNat < s.toNat + N.toNat := fun b hb => by
    have hbits := fsm.numBits_lt
    rw [Finset.mem_Ico] at hb
    have hlt : b < 2 ^ 32 := by omega
    have heq : (UInt32.ofNat b).toNat = b := UInt32.toNat_ofNat_of_lt' hlt
    rw [heq]
    exact ⟨rfl, hb⟩
  refine ⟨isMapped_mark h rfl, isMapped_mark h rfl, hinside true, hinside false,
    fun hfree => ?_, fun hused => ?_⟩
  · refine freeNBlocks_of_added rfl (by rw [hbits]; exact h) (mapped_allocateNBlocks h)
      fun b hmem => ?_
    obtain ⟨heq, hle, hlt⟩ := hword b hmem
    have hfalse := hfree (UInt32.ofNat b) hle hlt
    rw [isMapped_eq_some_false_iff, heq] at hfalse
    exact hfalse.2
  · refine allocateNBlocks_freeNBlocks h fun b hmem => ?_
    obtain ⟨heq, hle, hlt⟩ := hword b hmem
    have htrue := hused (UInt32.ofNat b) hle hlt
    rwa [isMapped_eq_some_true_iff, heq] at htrue

/-- Ten blocks from bit 3 on, over the end of the first byte. -/
theorem ranges_exact_bytes :
    let fsm : FreeSpaceMap := ⟨16, [0x05#8, 0xE0#8], by decide⟩
    (fsm.allocateNBlocks 3 10).2.bitMap = [0xFD#8, 0xFF#8] ∧
      (fsm.allocateNBlocks 3 10).2.freeNBlocks 3 10 = fsm := by
  intro fsm
  have hinside : (3 : UInt32).toNat + (10 : UInt32).toNat ≤ fsm.numBits := by decide
  have hexact := ranges_exact hinside
  refine ⟨by decide, hexact.2.2.2.2.1 fun b hb hb' => ?_⟩
  rw [isMapped_eq_some_false_iff]
  have hclear : ∀ b < 13, 3 ≤ b → ¬ fsm.Mapped b := by decide
  exact ⟨lt_of_lt_of_le hb' (by decide), hclear b.toNat hb' hb⟩

end FreeSpaceMap

end RackKey
