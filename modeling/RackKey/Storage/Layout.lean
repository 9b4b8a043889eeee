import RackKey.Lib.Extents
import RackKey.Storage.DiskStorage

set_option autoImplicit false

/-! # The layout of a store file

The header, the table and the disk blocks of a new store have their own bytes of the file, and the
blocks cover `maxDataSize`, exactly when none of the 32-bit sizes and offsets wraps
(`laidOut_iff`). The first offset that wraps lands on the header, the table or the first block.
-/

namespace RackKey

open MathUtils

namespace Header

/-! ## The regions of a store file -/

/-- The bytes of the table, `[batOffset, batOffset + batSize)`. -/
def batRange (h : Header) : Finset Nat :=
  Finset.Ico h.batOffset.toNat (h.batOffset.toNat + h.batSize.toNat)

/-- The bytes of a disk block. -/
def diskBlockRange (h : Header) (b : UInt32) : Finset Nat :=
  Finset.Ico (h.getDiskBlockOffset b).toNat
    ((h.getDiskBlockOffset b).toNat + h.diskBlockSize.toNat)

/-- The disk blocks for `maxDataSize`. -/
def numDiskBlocks (h : Header) : UInt32 := h.getNumDiskBlocks h.maxDataSize

/-- Header, table and disk blocks have their own bytes, and the disk blocks cover `maxDataSize`. -/
structure LaidOut (h : Header) : Prop where
  header_bat : Disjoint (Finset.Ico 0 size) h.batRange
  header_block : ∀ b < h.numDiskBlocks, Disjoint (Finset.Ico 0 size) (h.diskBlockRange b)
  bat_block : ∀ b < h.numDiskBlocks, Disjoint h.batRange (h.diskBlockRange b)
  blocks : ∀ b < h.numDiskBlocks, ∀ b' < h.numDiskBlocks, b ≠ b' →
    Disjoint (h.diskBlockRange b) (h.diskBlockRange b')
  covered : h.maxDataSize.toNat ≤ h.numDiskBlocks.toNat * h.diskBlockSize.toNat

/-! ## A new store -/

section New

open DiskStorage (initialiseHeader)

variable {d m : UInt32}

theorem batSize_toNat (d m : UInt32) :
    (initialiseHeader d m).batSize.toNat = (4 + 62 * (ceilDiv m d).toNat) % 2 ^ 32 := by
  simp only [initialiseHeader, UInt32.toNat_add, UInt32.toNat_mul, UInt32.reduceToNat]
  omega

/-- The disk blocks are cells behind header and table. -/
theorem diskBlockRange_new (b : UInt32) :
    (initialiseHeader d m).diskBlockRange b
      = Extents.cell (2 ^ 32) (24 + (initialiseHeader d m).batSize.toNat) d.toNat b.toNat := by
  have hoff : ((initialiseHeader d m).getDiskBlockOffset b).toNat
      = (24 + (initialiseHeader d m).batSize.toNat + d.toNat * b.toNat) % 2 ^ 32 := by
    simp only [getDiskBlockOffset, initialiseHeader, UInt32.toNat_add, UInt32.toNat_mul,
      UInt32.reduceToNat]
    omega
  rw [diskBlockRange, hoff]
  rfl

/-- Every number below the count is a block for `maxDataSize`. -/
theorem exists_block {i : Nat} (hi : i < (ceilDiv m d).toNat) :
    ∃ b < (initialiseHeader d m).numDiskBlocks, b.toNat = i := by
  have hlt : i < 2 ^ 32 := Nat.lt_trans hi (ceilDiv m d).toNat_lt
  have htoNat : (UInt32.ofNat i).toNat = i := UInt32.toNat_ofNat_of_lt' hlt
  refine ⟨UInt32.ofNat i, UInt32.lt_iff_toNat_lt.mpr ?_, htoNat⟩
  rwa [htoNat]

/-- What is before the blocks is the header and the table. -/
theorem disjoint_front_iff {s : Finset Nat} :
    Disjoint (Finset.Ico 0 (24 + (initialiseHeader d m).batSize.toNat)) s ↔
      Disjoint (Finset.Ico 0 size) s ∧ Disjoint (initialiseHeader d m).batRange s := by
  have hunion : Finset.Ico 0 (24 + (initialiseHeader d m).batSize.toNat)
      = Finset.Ico 0 size ∪ (initialiseHeader d m).batRange :=
    (Finset.Ico_union_Ico_eq_Ico (Nat.zero_le _) (Nat.le_add_right _ _)).symm
  rw [hunion, Finset.disjoint_union_left]

/-- The layout, on the cells of the blocks. -/
theorem laidOut_cells_iff :
    (initialiseHeader d m).LaidOut ↔
      ((∀ i < (ceilDiv m d).toNat,
          Disjoint (Finset.Ico 0 (24 + (initialiseHeader d m).batSize.toNat))
            (Extents.cell (2 ^ 32) (24 + (initialiseHeader d m).batSize.toNat) d.toNat i)) ∧
        ∀ i j, i < j → j < (ceilDiv m d).toNat →
          Disjoint (Extents.cell (2 ^ 32) (24 + (initialiseHeader d m).batSize.toNat) d.toNat i)
            (Extents.cell (2 ^ 32) (24 + (initialiseHeader d m).batSize.toNat) d.toNat j)) ∧
      m.toNat ≤ (ceilDiv m d).toNat * d.toNat := by
  constructor
  · intro h
    refine ⟨⟨fun i hi => ?_, fun i j hij hj => ?_⟩, h.covered⟩
    · obtain ⟨b, hb, rfl⟩ := exists_block hi
      rw [← diskBlockRange_new]
      exact disjoint_front_iff.mpr ⟨h.header_block b hb, h.bat_block b hb⟩
    · obtain ⟨b, hb, rfl⟩ := exists_block (Nat.lt_trans hij hj)
      obtain ⟨b', hb', rfl⟩ := exists_block hj
      rw [← diskBlockRange_new, ← diskBlockRange_new]
      exact h.blocks b hb b' hb' fun heq => Nat.ne_of_lt hij (congrArg UInt32.toNat heq)
  · rintro ⟨⟨hfront, hcells⟩, hcov⟩
    have hbefore : ∀ b < (initialiseHeader d m).numDiskBlocks,
        Disjoint (Finset.Ico 0 (24 + (initialiseHeader d m).batSize.toNat))
          ((initialiseHeader d m).diskBlockRange b) := by
      intro b hb
      rw [diskBlockRange_new]
      exact hfront b.toNat (UInt32.lt_iff_toNat_lt.mp hb)
    refine ⟨Finset.Ico_disjoint_Ico_consecutive _ _ _, fun b hb => ?_, fun b hb => ?_, ?_, hcov⟩
    · exact (disjoint_front_iff.mp (hbefore b hb)).1
    · exact (disjoint_front_iff.mp (hbefore b hb)).2
    · intro b hb b' hb' hne
      rw [diskBlockRange_new, diskBlockRange_new]
      rw [ne_eq, ← UInt32.toNat_inj] at hne
      rcases Nat.lt_or_gt_of_ne hne with hlt | hgt
      · exact hcells _ _ hlt (UInt32.lt_iff_toNat_lt.mp hb')
      · exact (hcells _ _ hgt (UInt32.lt_iff_toNat_lt.mp hb)).symm

/-- In a sound layout the table ends within 32 bits, or the first block would be in the header. -/
theorem LaidOut.bat_end (h : (initialiseHeader d m).LaidOut) (hd : 1 ≤ d.toNat)
    (hpos : 0 < (ceilDiv m d).toNat) :
    24 + (initialiseHeader d m).batSize.toNat < 2 ^ 32 := by
  by_contra hwrap
  have hsize := (initialiseHeader d m).batSize.toNat_lt
  have hblock := h.header_block 0 (UInt32.lt_iff_toNat_lt.mpr hpos)
  rw [diskBlockRange_new, UInt32.toNat_zero, Finset.disjoint_left] at hblock
  refine hblock
    (Finset.mem_Ico.mpr (⟨Nat.zero_le _, ?_⟩ :
      0 ≤ (24 + (initialiseHeader d m).batSize.toNat) % 2 ^ 32 ∧ _)) ?_
  · rw [size]
    omega
  · rw [Extents.cell, Finset.mem_Ico]
    omega

/-- **When the layout is sound**: exactly when neither the number of disk blocks nor the offset of
the last one goes past 32 bits. -/
theorem laidOut_iff (hd : 1 ≤ d.toNat) (hm : 1 ≤ m.toNat) :
    (initialiseHeader d m).LaidOut ↔ m.toNat + d.toNat ≤ 2 ^ 32 ∧
      24 + (4 + 62 * ((m.toNat + d.toNat - 1) / d.toNat)) % 2 ^ 32
        + d.toNat * ((m.toNat + d.toNat - 1) / d.toNat - 1) < 2 ^ 32 := by
  have hd32 := d.toNat_lt
  have hcells (ho : 24 + (initialiseHeader d m).batSize.toNat < 2 ^ 32) :=
    Extents.cells_disjoint_iff (n := (ceilDiv m d).toNat) hd (Nat.le_of_lt d.toNat_lt) ho
  constructor
  · intro h
    have hpos : 0 < (ceilDiv m d).toNat := by
      by_contra h0
      have hcov : m.toNat ≤ (ceilDiv m d).toNat * d.toNat := h.covered
      rw [show (ceilDiv m d).toNat = 0 by omega, Nat.zero_mul] at hcov
      omega
    have hfits := ceilDiv_fits hpos
    have hinside := (hcells (h.bat_end hd hpos)).mp (laidOut_cells_iff.mp h).1
    rw [← ceilDiv_toNat hd hfits, ← batSize_toNat]
    exact ⟨by omega, hinside _ (Nat.sub_lt hpos Nat.one_pos)⟩
  · rintro ⟨hfits, hlast⟩
    rw [← ceilDiv_toNat hd (by omega), ← batSize_toNat] at hlast
    have hpos : 0 < (ceilDiv m d).toNat := by
      rw [ceilDiv_toNat hd (by omega)]
      exact Nat.div_pos (by omega) (by omega)
    refine laidOut_cells_iff.mpr
      ⟨(hcells (by omega)).mpr fun i hi => ?_, (le_ceilDiv_mul hpos).1⟩
    have hle : d.toNat * i ≤ d.toNat * ((ceilDiv m d).toNat - 1) :=
      Nat.mul_le_mul_left _ (by omega)
    omega

theorem laidOut_iff_small : (initialiseHeader 8 64).LaidOut :=
  (laidOut_iff (d := 8) (m := 64) (by decide) (by decide)).mpr (by decide)

/-- With `2^30` bytes for data in blocks of 20 bytes, block 48318379 is in the header. -/
theorem offset_wraps :
    48318379 < (initialiseHeader 20 (UInt32.ofNat (2 ^ 30))).numDiskBlocks ∧
      (initialiseHeader 20 (UInt32.ofNat (2 ^ 30))).getDiskBlockOffset 48318379 = 16 ∧
      ¬ (initialiseHeader 20 (UInt32.ofNat (2 ^ 30))).LaidOut := by
  have hblock : 48318379 < (initialiseHeader 20 (UInt32.ofNat (2 ^ 30))).numDiskBlocks := by
    decide +kernel
  have hoff : (initialiseHeader 20 (UInt32.ofNat (2 ^ 30))).getDiskBlockOffset 48318379 = 16 := by
    decide +kernel
  refine ⟨hblock, hoff, fun h => ?_⟩
  have hdisj := h.header_block 48318379 hblock
  rw [diskBlockRange, hoff] at hdisj
  exact Finset.disjoint_left.mp hdisj (Finset.mem_Ico.mpr ⟨Nat.zero_le 16, by decide⟩)
    (Finset.mem_Ico.mpr ⟨Nat.le_refl _, by decide⟩)

end New

end Header

end RackKey
