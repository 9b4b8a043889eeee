import Mathlib.Order.Interval.Finset.Nat
import RackKey.Lib.Bitmap
import RackKey.Shared.Utils

set_option autoImplicit false

/-! # The free space map

`FreeSpaceMap` keeps one bit per disk block, set for a mapped block. A range of blocks is
allocated or freed in three phases: the rest of the first byte, whole bytes, and the rest of
the last byte. `bit_markNBlocks` says that the three phases together change exactly the bits
of the range, and `findNFreeBlocks_eq_some_iff` that the search finds the first free run.

`initialise` makes a bitmap of `ceilDiv(blockCapacity, 8)` bytes, and no method changes its
size. The structure carries this as a field; it bounds every block number by `2^32`, so the
32-bit positions and counters of the source do not wrap.
-/

namespace RackKey

open Bitmap MathUtils

structure FreeSpaceMap where
  /-- Number of blocks the bitmap keeps track of. -/
  blockCapacity : UInt32
  bitMap : List (BitVec 8)
  size_eq : bitMap.length = (ceilDiv blockCapacity 8).toNat
  deriving DecidableEq

namespace FreeSpaceMap

/-- `initialise`: a fresh map for `blockCapacity` blocks, all of them free. -/
def initialise (blockCapacity : UInt32) : FreeSpaceMap where
  blockCapacity := blockCapacity
  bitMap := List.replicate (ceilDiv blockCapacity 8).toNat 0#8
  size_eq := List.length_replicate

/-! ## Marking a range of blocks

`allocateNBlocks` and `freeNBlocks` differ only in the value they give to the bits. -/

/-- `allocateBitsInByte` (`v = true`) and `freeBitsInByte` (`v = false`). -/
def markBitsInByte (v : Bool) (bitMap : List (BitVec 8)) (index startPos count : Nat) :
    List (BitVec 8) :=
  bitMap.modify index fun cell =>
    if v then cell ||| runMask startPos count else cell &&& ~~~runMask startPos count

/-- The loop over whole bytes: `count` bytes from `index` on. -/
def markWholeBytes (v : Bool) : Nat → List (BitVec 8) → Nat → List (BitVec 8)
  | 0, bitMap, _ => bitMap
  | count + 1, bitMap, index =>
      markWholeBytes v count (bitMap.modify index fun _ => if v then 0xFF#8 else 0#8) (index + 1)

/-- The body shared by `allocateNBlocks` and `freeNBlocks`. -/
def markNBlocks (v : Bool) (bitMap : List (BitVec 8)) (startBlockNum N : Nat) :
    List (BitVec 8) :=
  if N < 1 then bitMap
  else
    let index := startBlockNum / 8
    let pos := startBlockNum % 8
    -- any un-aligned blocks at the beginning
    let numBits := if pos ≠ 0 then min N (8 - pos) else 0
    let bitMap₁ := if pos ≠ 0 then markBitsInByte v bitMap index pos numBits else bitMap
    let index₁ := if pos ≠ 0 then index + 1 else index
    let N₁ := N - numBits
    -- aligned blocks
    let bitMap₂ := markWholeBytes v (N₁ / 8) bitMap₁ index₁
    let index₂ := index₁ + N₁ / 8
    let N₂ := N₁ % 8
    -- any un-aligned blocks at the end
    if N₂ > 0 then markBitsInByte v bitMap₂ index₂ 0 N₂ else bitMap₂

@[simp] theorem length_markBitsInByte (v : Bool) (m : List (BitVec 8)) (index pos count : Nat) :
    (markBitsInByte v m index pos count).length = m.length := by
  simp [markBitsInByte]

@[simp] theorem length_markWholeBytes (v : Bool) :
    ∀ (count : Nat) (m : List (BitVec 8)) (index : Nat),
      (markWholeBytes v count m index).length = m.length
  | 0, _, _ => rfl
  | count + 1, m, index => by
      rw [markWholeBytes, length_markWholeBytes v count, List.length_modify]

@[simp] theorem length_markNBlocks (v : Bool) (m : List (BitVec 8)) (s n : Nat) :
    (markNBlocks v m s n).length = m.length := by
  unfold markNBlocks
  split
  · rfl
  · dsimp only
    split <;> split <;> simp

theorem bit_markBitsInByte (v : Bool) {m : List (BitVec 8)} {index pos count : Nat}
    (hindex : index < m.length) (hpos : pos + count ≤ 8) (i : Nat) :
    bit (markBitsInByte v m index pos count) i
      = if 8 * index + pos ≤ i ∧ i < 8 * index + pos + count then v else bit m i := by
  unfold markBitsInByte
  rw [bit_modify]
  by_cases hi : i / 8 = index
  · have hmod : i % 8 < 8 := Nat.mod_lt i (by omega)
    have hbit : bit m i = (m[index]?.getD 0#8).getLsbD (i % 8) := by rw [bit, hi]
    have hmask := getLsbD_runMask pos count hmod
    have hin : (8 * index + pos ≤ i ∧ i < 8 * index + pos + count) ↔
        (pos ≤ i % 8 ∧ i % 8 < pos + count) := by omega
    rw [if_pos ⟨hi, hindex⟩, hbit, if_congr hin rfl rfl]
    cases v with
    | true =>
        rw [if_pos rfl, BitVec.getLsbD_or, hmask]
        by_cases h : pos ≤ i % 8 ∧ i % 8 < pos + count
        · rw [if_pos h, decide_eq_true h, Bool.or_true]
        · rw [if_neg h, decide_eq_false h, Bool.or_false]
    | false =>
        rw [if_neg (by decide), BitVec.getLsbD_and, BitVec.getLsbD_not, hmask]
        by_cases h : pos ≤ i % 8 ∧ i % 8 < pos + count
        · rw [if_pos h, decide_eq_true h, Bool.not_true, Bool.and_false, Bool.and_false]
        · rw [if_neg h, decide_eq_false h, decide_eq_true hmod, Bool.not_false, Bool.and_true,
            Bool.and_true]
  · rw [if_neg (fun h => hi h.1), if_neg (by omega)]

theorem bit_markWholeBytes (v : Bool) :
    ∀ (count : Nat) (m : List (BitVec 8)) (index : Nat), index + count ≤ m.length → ∀ i,
      bit (markWholeBytes v count m index) i
        = if 8 * index ≤ i ∧ i < 8 * (index + count) then v else bit m i
  | 0, m, index, _, i => by
      rw [markWholeBytes, if_neg (by omega)]
  | count + 1, m, index, h, i => by
      have hfull : ∀ j < 8, (if v then 0xFF#8 else 0#8).getLsbD j = v := by cases v <;> decide
      rw [markWholeBytes, bit_markWholeBytes v count _ _ (by rw [List.length_modify]; omega) i]
      by_cases hin : 8 * (index + 1) ≤ i ∧ i < 8 * (index + 1 + count)
      · rw [if_pos hin, if_pos (by omega)]
      · rw [if_neg hin, bit_modify]
        by_cases hi : i / 8 = index
        · rw [if_pos ⟨hi, by omega⟩, hfull _ (Nat.mod_lt i (by omega)), if_pos (by omega)]
        · rw [if_neg (fun hc => hi hc.1), if_neg (by omega)]

/-- **A range is marked bit-exactly**: its bits get the value, every other bit keeps its own. -/
theorem bit_markNBlocks (v : Bool) {m : List (BitVec 8)} {s n : Nat} (h : s + n ≤ 8 * m.length)
    (i : Nat) :
    bit (markNBlocks v m s n) i = if s ≤ i ∧ i < s + n then v else bit m i := by
  unfold markNBlocks
  by_cases hn : n < 1
  · rw [if_pos hn, if_neg (by omega)]
  · rw [if_neg hn]
    dsimp only
    set numBits := if s % 8 ≠ 0 then min n (8 - s % 8) else 0 with hnum
    set m₁ := if s % 8 ≠ 0 then markBitsInByte v m (s / 8) (s % 8) numBits else m with hm₁
    set index₁ := if s % 8 ≠ 0 then s / 8 + 1 else s / 8 with hindex
    have hlen : m₁.length = m.length := by rw [hm₁]; split <;> simp
    -- after the first phase the marked part ends at `s + numBits`, on a byte boundary
    -- unless the whole range lies in the first byte
    have hend : s + numBits = 8 * index₁ ∨ (n - numBits = 0 ∧ s + numBits < 8 * index₁) := by
      rw [hnum, hindex]
      split <;> omega
    have hfirst : ∀ j, bit m₁ j = if s ≤ j ∧ j < s + numBits then v else bit m j := by
      intro j
      rw [hm₁, hnum]
      split
      · rename_i hpos
        rw [bit_markBitsInByte v (by omega) (by omega), show 8 * (s / 8) + s % 8 = s by omega]
      · rw [if_neg (by omega)]
    have hle : numBits ≤ n := by rw [hnum]; split <;> omega
    have hwhole : ∀ j, bit (markWholeBytes v ((n - numBits) / 8) m₁ index₁) j
        = if s ≤ j ∧ j < s + numBits + 8 * ((n - numBits) / 8) then v else bit m j := by
      intro j
      rcases hend with hb | ⟨h0, -⟩
      · rw [bit_markWholeBytes v _ _ _ (by omega), hfirst]
        by_cases hj : 8 * index₁ ≤ j ∧ j < 8 * (index₁ + (n - numBits) / 8)
        · rw [if_pos hj, if_pos (by omega)]
        · rw [if_neg hj]
          by_cases hj' : s ≤ j ∧ j < s + numBits
          · rw [if_pos hj', if_pos (by omega)]
          · rw [if_neg hj', if_neg (by omega)]
      · rw [h0, Nat.zero_div, markWholeBytes, hfirst, Nat.mul_zero, Nat.add_zero]
    by_cases hrest : (n - numBits) % 8 > 0
    · rw [if_pos hrest]
      have hb : s + numBits = 8 * index₁ := by omega
      rw [bit_markBitsInByte v (by rw [length_markWholeBytes, hlen]; omega) (by omega), hwhole]
      by_cases hj : 8 * (index₁ + (n - numBits) / 8) + 0 ≤ i ∧
          i < 8 * (index₁ + (n - numBits) / 8) + 0 + (n - numBits) % 8
      · rw [if_pos hj, if_pos (by omega)]
      · rw [if_neg hj]
        by_cases hj' : s ≤ i ∧ i < s + numBits + 8 * ((n - numBits) / 8)
        · rw [if_pos hj', if_pos (by omega)]
        · rw [if_neg hj', if_neg (by omega)]
    · rw [if_neg hrest, hwhole, show s + numBits + 8 * ((n - numBits) / 8) = s + n by omega]

/-- `allocateNBlocks`. -/
def allocateNBlocks (fsm : FreeSpaceMap) (startBlockNum N : UInt32) :
    Option UInt32 × FreeSpaceMap :=
  (if N < 1 then none else some startBlockNum,
    { fsm with
      bitMap := markNBlocks true fsm.bitMap startBlockNum.toNat N.toNat
      size_eq := by rw [length_markNBlocks]; exact fsm.size_eq })

/-- `freeNBlocks`. -/
def freeNBlocks (fsm : FreeSpaceMap) (startBlockNum N : UInt32) : FreeSpaceMap :=
  { fsm with
    bitMap := markNBlocks false fsm.bitMap startBlockNum.toNat N.toNat
    size_eq := by rw [length_markNBlocks]; exact fsm.size_eq }

/-- `isMapped`; `none` is the exception for a block the bitmap has no byte for. -/
def isMapped (fsm : FreeSpaceMap) (blockNum : UInt32) : Option Bool :=
  if fsm.bitMap.length ≤ blockNum.toNat / 8 then none else some (bit fsm.bitMap blockNum.toNat)

/-- The number of blocks the bitmap has a bit for. -/
def numBits (fsm : FreeSpaceMap) : Nat := 8 * fsm.bitMap.length

theorem numBits_lt (fsm : FreeSpaceMap) : fsm.numBits < 2 ^ 32 := by
  unfold numBits
  rw [fsm.size_eq]
  exact ceilDiv_eight_lt _

/-- With a capacity that is a multiple of 8 there is exactly one bit per block. -/
theorem numBits_eq (fsm : FreeSpaceMap) (h : fsm.blockCapacity.toNat % 8 = 0) :
    fsm.numBits = fsm.blockCapacity.toNat := by
  unfold numBits
  rw [fsm.size_eq]
  exact ceilDiv_eight h

/-- Block `b` is mapped. -/
def Mapped (fsm : FreeSpaceMap) (b : Nat) : Prop := bit fsm.bitMap b = true

instance (fsm : FreeSpaceMap) (b : Nat) : Decidable (fsm.Mapped b) :=
  inferInstanceAs (Decidable (bit fsm.bitMap b = true))

theorem isMapped_eq_some_true_iff (fsm : FreeSpaceMap) (b : UInt32) :
    fsm.isMapped b = some true ↔ fsm.Mapped b.toNat := by
  unfold isMapped Mapped
  by_cases h : fsm.bitMap.length ≤ b.toNat / 8
  · rw [if_pos h, bit_of_le (by omega)]
    simp
  · rw [if_neg h]
    simp

theorem Mapped.lt {fsm : FreeSpaceMap} {b : Nat} (h : fsm.Mapped b) : b < fsm.numBits :=
  lt_of_bit h

@[simp] theorem mapped_initialise (c : UInt32) (b : Nat) : ¬ (initialise c).Mapped b := by
  simp [Mapped, initialise]

theorem mapped_allocateNBlocks {fsm : FreeSpaceMap} {s N : UInt32}
    (h : s.toNat + N.toNat ≤ fsm.numBits) (b : Nat) :
    (fsm.allocateNBlocks s N).2.Mapped b ↔
      b ∈ Finset.Ico s.toNat (s.toNat + N.toNat) ∨ fsm.Mapped b := by
  show bit (markNBlocks true fsm.bitMap s.toNat N.toNat) b = true ↔ _
  rw [bit_markNBlocks true h, Finset.mem_Ico]
  unfold Mapped
  split <;> simp_all

theorem mapped_freeNBlocks {fsm : FreeSpaceMap} {s N : UInt32}
    (h : s.toNat + N.toNat ≤ fsm.numBits) (b : Nat) :
    (fsm.freeNBlocks s N).Mapped b ↔ b ∉ Finset.Ico s.toNat (s.toNat + N.toNat) ∧ fsm.Mapped b := by
  show bit (markNBlocks false fsm.bitMap s.toNat N.toNat) b = true ↔ _
  rw [bit_markNBlocks false h, Finset.mem_Ico]
  unfold Mapped
  split <;> simp_all

/-- Two maps of one capacity with the same mapped blocks are equal. -/
theorem ext_mapped {fsm fsm' : FreeSpaceMap} (hc : fsm.blockCapacity = fsm'.blockCapacity)
    (h : ∀ b, fsm.Mapped b ↔ fsm'.Mapped b) : fsm = fsm' := by
  have hlen : fsm.bitMap.length = fsm'.bitMap.length := by rw [fsm.size_eq, fsm'.size_eq, hc]
  have hbits : fsm.bitMap = fsm'.bitMap := ext_bit hlen (fun b => Bool.eq_iff_iff.mpr (h b))
  cases fsm
  cases fsm'
  simp_all

/-- Freeing the blocks that a map has more than another gives the other. -/
theorem freeNBlocks_of_added {fsm fsm' : FreeSpaceMap} {s N : UInt32}
    (hc : fsm'.blockCapacity = fsm.blockCapacity) (h : s.toNat + N.toNat ≤ fsm'.numBits)
    (hadded : ∀ b, fsm'.Mapped b ↔ b ∈ Finset.Ico s.toNat (s.toNat + N.toNat) ∨ fsm.Mapped b)
    (hfree : ∀ b ∈ Finset.Ico s.toNat (s.toNat + N.toNat), ¬ fsm.Mapped b) :
    fsm'.freeNBlocks s N = fsm := by
  refine ext_mapped hc fun b => ?_
  rw [mapped_freeNBlocks h, hadded]
  constructor
  · rintro ⟨hnot, hb | hb⟩
    · exact absurd hb hnot
    · exact hb
  · exact fun hb => ⟨fun hmem => hfree b hmem hb, Or.inr hb⟩

/-- Allocating used blocks again after they were freed gives the map back. -/
theorem allocateNBlocks_freeNBlocks {fsm : FreeSpaceMap} {s N : UInt32}
    (h : s.toNat + N.toNat ≤ fsm.numBits)
    (hused : ∀ b ∈ Finset.Ico s.toNat (s.toNat + N.toNat), fsm.Mapped b) :
    ((fsm.freeNBlocks s N).allocateNBlocks s N).2 = fsm := by
  have hbits : (fsm.freeNBlocks s N).numBits = fsm.numBits :=
    congrArg (8 * ·) (length_markNBlocks _ _ _ _)
  refine ext_mapped rfl fun b => ?_
  rw [mapped_allocateNBlocks (by rw [hbits]; exact h), mapped_freeNBlocks h]
  constructor
  · rintro (hmem | ⟨-, hb⟩)
    · exact hused b hmem
    · exact hb
  · intro hb
    by_cases hmem : b ∈ Finset.Ico s.toNat (s.toNat + N.toNat)
    · exact Or.inl hmem
    · exact Or.inr ⟨hmem, hb⟩

/-- A range of no blocks changes nothing. -/
theorem freeNBlocks_zero (fsm : FreeSpaceMap) (s : UInt32) {N : UInt32} (hN : N.toNat = 0) :
    fsm.freeNBlocks s N = fsm := by
  refine ext_mapped rfl fun b => ?_
  show Bitmap.bit (markNBlocks false fsm.bitMap s.toNat N.toNat) b = true ↔ _
  rw [markNBlocks, hN, if_pos (by omega)]
  rfl

theorem allocateNBlocks_zero (fsm : FreeSpaceMap) (s : UInt32) {N : UInt32} (hN : N.toNat = 0) :
    (fsm.allocateNBlocks s N).2 = fsm := by
  refine ext_mapped rfl fun b => ?_
  show Bitmap.bit (markNBlocks true fsm.bitMap s.toNat N.toNat) b = true ↔ _
  rw [markNBlocks, hN, if_pos (by omega)]
  rfl

/-! ## Finding free blocks -/

/-- The inner loop of `findNFreeBlocks`: the last `k` positions of the byte `currEntry`, which
has index `index`. Returns the start of the run found, or the run start and run length
carried over to the next byte. -/
def scanByte (N : Nat) (currEntry : BitVec 8) (index : Nat) :
    Nat → Nat → Nat → Nat ⊕ (Nat × Nat)
  | 0, currStartBlock, contiguousCount => .inr (currStartBlock, contiguousCount)
  | k + 1, currStartBlock, contiguousCount =>
      let pos := 8 - (k + 1)
      if currEntry.getLsbD pos = false then
        let currStartBlock := if contiguousCount = 0 then index * 8 + pos else currStartBlock
        if contiguousCount + 1 = N then .inl currStartBlock
        else scanByte N currEntry index k currStartBlock (contiguousCount + 1)
      else scanByte N currEntry index k currStartBlock 0

/-- The outer loop of `findNFreeBlocks`: the bytes from `index` on. -/
def scanBytes (N : Nat) : List (BitVec 8) → Nat → Nat → Nat → Option Nat
  | [], _, _, _ => none
  | currEntry :: rest, index, currStartBlock, contiguousCount =>
      match scanByte N currEntry index 8 currStartBlock contiguousCount with
      | .inl s => some s
      | .inr (s, c) => scanBytes N rest (index + 1) s c

/-- `findNFreeBlocks`. -/
def findNFreeBlocks (fsm : FreeSpaceMap) (N : UInt32) : Option UInt32 :=
  (scanBytes N.toNat fsm.bitMap 0 0 0).map UInt32.ofNat

private theorem scan_eq_scanByte (free : Nat → Bool) (N : Nat) {index : Nat} {currEntry : BitVec 8}
    (hfree : ∀ pos < 8, free (index * 8 + pos) = !currEntry.getLsbD pos) (steps : Nat) :
    ∀ (k start count : Nat), k ≤ 8 →
      scan free N (k + steps) (index * 8 + (8 - k)) start count
        = match scanByte N currEntry index k start count with
          | .inl s => some s
          | .inr (s, c) => scan free N steps (index * 8 + 8) s c
  | 0, start, count, _ => by
      rw [Nat.zero_add]
      rfl
  | k + 1, start, count, hk => by
      have hf := hfree (8 - (k + 1)) (by omega)
      have hnext : index * 8 + (8 - (k + 1)) + 1 = index * 8 + (8 - k) := by omega
      rw [show k + 1 + steps = (k + steps) + 1 by omega, scanByte]
      dsimp only
      cases hb : currEntry.getLsbD (8 - (k + 1)) with
      | false =>
          rw [hb, Bool.not_false] at hf
          rw [scan_free hf, hnext, if_pos rfl]
          by_cases hn : count + 1 = N
          · rw [if_pos hn, if_pos hn]
          · rw [if_neg hn, if_neg hn]
            exact scan_eq_scanByte free N hfree steps k _ _ (by omega)
      | true =>
          rw [hb, Bool.not_true] at hf
          rw [scan_used hf, hnext, if_neg (by decide)]
          exact scan_eq_scanByte free N hfree steps k _ _ (by omega)

/-- The nested loops are one pass over all positions. -/
private theorem scanBytes_eq_scan (N : Nat) (m : List (BitVec 8)) :
    ∀ (l : List (BitVec 8)) (index start count : Nat), m.drop index = l →
      scanBytes N l index start count
        = scan (fun i => !bit m i) N (8 * l.length) (index * 8) start count
  | [], _, _, _, _ => rfl
  | e :: l, index, start, count, h => by
      have hlt : index < m.length := by
        by_contra hc
        rw [List.drop_of_length_le (by omega)] at h
        cases h
      have hcons := List.drop_eq_getElem_cons hlt
      rw [h, List.cons.injEq] at hcons
      have hfree : ∀ pos < 8, (!bit m (index * 8 + pos)) = !e.getLsbD pos := by
        intro pos hp
        rw [bit, show (index * 8 + pos) / 8 = index by omega,
          show (index * 8 + pos) % 8 = pos by omega, List.getElem?_eq_getElem hlt, hcons.1]
        rfl
      have hscan := scan_eq_scanByte (fun i => !bit m i) N hfree (8 * l.length) 8
        start count (Nat.le_refl 8)
      rw [Nat.sub_self, Nat.add_zero] at hscan
      rw [List.length_cons, show 8 * (l.length + 1) = 8 + 8 * l.length by omega, hscan, scanBytes]
      cases scanByte N e index 8 start count with
      | inl s => rfl
      | inr sc =>
          show scanBytes N l (index + 1) sc.1 sc.2 = _
          rw [scanBytes_eq_scan N m l (index + 1) sc.1 sc.2 hcons.2.symm,
            show (index + 1) * 8 = index * 8 + 8 by omega]

/-- The blocks `s, …, s + n - 1` all have a bit, and it is clear. -/
def FreeRun (fsm : FreeSpaceMap) (n s : Nat) : Prop :=
  s + n ≤ fsm.numBits ∧ ∀ b ∈ Finset.Ico s (s + n), ¬ fsm.Mapped b

private theorem freeRun_iff (fsm : FreeSpaceMap) (n s : Nat) :
    Bitmap.FreeRun (fun i => !bit fsm.bitMap i) (8 * fsm.bitMap.length) n s ↔ fsm.FreeRun n s := by
  unfold Bitmap.FreeRun FreeRun numBits Mapped
  refine and_congr_right fun _ => ?_
  constructor
  · intro h b hb
    rw [Finset.mem_Ico] at hb
    have := h b hb.1 hb.2
    simpa using this
  · intro h b hb hb'
    have := h b (Finset.mem_Ico.mpr ⟨hb, hb'⟩)
    simpa using this

/-- **The search is a first-fit search**: it returns the least start of a free run. -/
theorem findNFreeBlocks_eq_some_iff {fsm : FreeSpaceMap} {N s : UInt32} (hN : 0 < N.toNat) :
    fsm.findNFreeBlocks N = some s ↔
      fsm.FreeRun N.toNat s.toNat ∧ ∀ s' < s.toNat, ¬ fsm.FreeRun N.toNat s' := by
  have hscan := scanBytes_eq_scan N.toNat fsm.bitMap fsm.bitMap 0 0 0 rfl
  rw [Nat.zero_mul] at hscan
  have hspec : ∀ t, scanBytes N.toNat fsm.bitMap 0 0 0 = some t ↔
      fsm.FreeRun N.toNat t ∧ ∀ s' < t, ¬ fsm.FreeRun N.toNat s' := by
    intro t
    rw [hscan, scan_eq_some_iff hN]
    simp only [freeRun_iff]
  unfold findNFreeBlocks
  rw [Option.map_eq_some_iff]
  constructor
  · rintro ⟨t, ht, rfl⟩
    have htrun := (hspec t).mp ht
    have hlt : t < 2 ^ 32 := by
      have h1 := htrun.1.1
      have h2 := fsm.numBits_lt
      omega
    rw [UInt32.toNat_ofNat_of_lt' hlt]
    exact htrun
  · intro h
    exact ⟨s.toNat, (hspec s.toNat).mpr h, UInt32.ofNat_toNat⟩

/-- The search fails exactly when there is no free run at all. -/
theorem findNFreeBlocks_eq_none_iff {fsm : FreeSpaceMap} {N : UInt32} (hN : 0 < N.toNat) :
    fsm.findNFreeBlocks N = none ↔ ∀ s, ¬ fsm.FreeRun N.toNat s := by
  have hscan := scanBytes_eq_scan N.toNat fsm.bitMap fsm.bitMap 0 0 0 rfl
  rw [Nat.zero_mul] at hscan
  unfold findNFreeBlocks
  rw [Option.map_eq_none_iff, hscan, scan_eq_none_iff hN]
  simp only [freeRun_iff]

/-- No run of no blocks is ever found: the counter is compared after it was incremented. -/
theorem findNFreeBlocks_zero (fsm : FreeSpaceMap) {N : UInt32} (hN : N.toNat = 0) :
    fsm.findNFreeBlocks N = none := by
  have hscan := scanBytes_eq_scan N.toNat fsm.bitMap fsm.bitMap 0 0 0 rfl
  unfold findNFreeBlocks
  rw [hscan, hN, scan_zero]
  rfl

end FreeSpaceMap

end RackKey
