import RackKey.Storage.Layout
import RackKey.Storage.Reopen

set_option autoImplicit false

/-! # The size of a new store file

A new store file is made before the header is initialised, so that its size is the one that the
uninitialised header announces. It is that of the new header for some contents of that memory, and
for no sizes whatever the contents (`fullSize_iff`).
-/

namespace RackKey

open Words ByteFile MathUtils

namespace DiskStorage

/-- The file is as long as the header it contains says, and a read of disk blocks inside the data
section reads bytes that exist. -/
structure FullSize (ds : DiskStorage) : Prop where
  header : readAt ds.storeFile.bytes 0 Header.size = ds.header.bytes
  length : ds.storeFile.bytes.length
    = Header.size + ds.header.batSize.toNat + ds.header.maxDataSize.toNat
  raw : ∀ start N : UInt32,
    (start.toNat + N.toNat) * ds.header.diskBlockSize.toNat ≤ ds.header.maxDataSize.toNat →
      (ds.getDiskBlockOffset start).toNat + (N * ds.header.diskBlockSize).toNat
        ≤ ds.storeFile.bytes.length

/-- What `seekp(totalFileSize - 1)` and one byte make the size of an empty file. -/
theorem totalFileSize_fresh (junk : Junk) (keyLengthMax : UInt32) :
    ((fresh junk [] [] keyLengthMax).totalFileSize - 1).toNat + 1
      = (24 + junk.header.batSize.toNat + junk.header.maxDataSize.toNat - 1) % 2 ^ 32 + 1 := by
  have hbat := junk.header.batSize.toNat_lt
  have hmax := junk.header.maxDataSize.toNat_lt
  have htotal : (fresh junk [] [] keyLengthMax).totalFileSize
      = 24 + junk.header.batSize + junk.header.maxDataSize := rfl
  rw [htotal]
  simp only [UInt32.toNat_sub, UInt32.toNat_add, UInt32.reduceToNat]
  omega

section New

variable (junk : Junk) (d m keyLengthMax : UInt32)

/-- The size of the file of a new store: that which the uninitialised header announces, or that of
the header. -/
theorem length_initialiseNew :
    (initialiseNew d m (fresh junk [] [] keyLengthMax)).2.storeFile.bytes.length
      = max ((24 + junk.header.batSize.toNat + junk.header.maxDataSize.toNat - 1) % 2 ^ 32 + 1)
          Header.size := by
  obtain ⟨f, -, hbytes, heq⟩ := initialiseNew_fresh junk d m keyLengthMax
  have hne : (initialiseHeader d m).bytes ≠ [] := by simp [Header.bytes, le32]
  rw [heq]
  show f.bytes.length = _
  rw [hbytes, writeAt_length 0 _ 0 hne, writeAt_length 0 [] _ (List.cons_ne_nil 0 []),
    ← totalFileSize_fresh junk keyLengthMax, Header.bytes_length, List.length_singleton,
    List.length_nil, Nat.zero_max, Nat.zero_add]

/-- The new header announces more than its own size. -/
theorem size_lt_header :
    Header.size < Header.size + (initialiseHeader d m).batSize.toNat + m.toNat := by
  by_cases hm : m.toNat = 0
  · -- no data, and a table that is empty but for its count
    have hceil : (ceilDiv m d).toNat = 0 := by
      by_contra hpos
      have hlt := (le_ceilDiv_mul (Nat.pos_of_ne_zero hpos)).2
      have hle := Nat.le_mul_of_pos_left d.toNat (Nat.pos_of_ne_zero hpos)
      omega
    have hbat := Header.batSize_toNat d m
    rw [hceil] at hbat
    omega
  · omega

/-- In a file of that size no read of disk blocks goes past the end. -/
theorem raw_le_length {start N : UInt32} {length : Nat}
    (hsize : length = Header.size + (initialiseHeader d m).batSize.toNat + m.toNat)
    (hinside : (start.toNat + N.toNat) * d.toNat ≤ m.toNat) :
    ((initialiseHeader d m).getDiskBlockOffset start).toNat + (N * d).toNat ≤ length := by
  have hoff : ((initialiseHeader d m).getDiskBlockOffset start).toNat
      = (24 + (initialiseHeader d m).batSize.toNat + d.toNat * start.toNat) % 2 ^ 32 := by
    simp only [Header.getDiskBlockOffset, initialiseHeader, UInt32.toNat_add, UInt32.toNat_mul,
      UInt32.reduceToNat]
    omega
  have hsplit : (start.toNat + N.toNat) * d.toNat = d.toNat * start.toNat + N.toNat * d.toNat := by
    rw [Nat.add_mul, Nat.mul_comm start.toNat]
  have hmax := m.toNat_lt
  have hnum : (N * d).toNat = N.toNat * d.toNat := by
    rw [UInt32.toNat_mul, Nat.mod_eq_of_lt (by omega)]
  -- an offset that wraps is smaller still
  have hmod := Nat.mod_le (24 + (initialiseHeader d m).batSize.toNat + d.toNat * start.toNat)
    (2 ^ 32)
  rw [hoff, hnum]
  unfold Header.size at hsize
  omega

theorem fullSize_initialiseNew :
    (initialiseNew d m (fresh junk [] [] keyLengthMax)).2.FullSize ↔
      (24 + junk.header.batSize.toNat + junk.header.maxDataSize.toNat - 1) % 2 ^ 32 + 1
        = Header.size + (initialiseHeader d m).batSize.toNat + m.toNat := by
  have hlength := length_initialiseNew junk d m keyLengthMax
  have hmore := size_lt_header d m
  have hlt : (24 + junk.header.batSize.toNat + junk.header.maxDataSize.toNat - 1) % 2 ^ 32
      < 2 ^ 32 := Nat.mod_lt _ (by decide)
  obtain ⟨f, -, hbytes, heq⟩ := initialiseNew_fresh junk d m keyLengthMax
  rw [heq] at hlength ⊢
  constructor
  · intro h
    have hsame := h.length
    dsimp only at hlength hsame
    rw [hlength] at hsame
    have hmax : (initialiseHeader d m).maxDataSize = m := rfl
    rw [hmax] at hsame
    omega
  · intro hcond
    rw [hcond, Nat.max_eq_left (Nat.le_of_lt hmore)] at hlength
    refine ⟨?_, hlength, fun start N hinside => ?_⟩
    · show readAt f.bytes 0 Header.size = _
      rw [hbytes]
      exact readAt_writeAt_self 0 _ 0 (initialiseHeader d m).bytes
    · exact raw_le_length d m hlength hinside

end New

theorem construct_new {onDisk : Option Bytes} {removeExistingStore : Bool}
    (hnew : onDisk = none ∨ removeExistingStore = true) (junk : Junk) (d m keyLengthMax : UInt32) :
    construct junk onDisk [] d m removeExistingStore keyLengthMax
      = initialiseNew d m (fresh junk [] [] keyLengthMax) := by
  rcases hnew with rfl | rfl
  · rfl
  · cases onDisk <;> rfl

/-- **When a new store file has its full size**: exactly when the uninitialised header announces
the size of the new one, so for no sizes is it the same whatever that memory holds. -/
theorem fullSize_iff {onDisk : Option Bytes} {removeExistingStore : Bool}
    (hnew : onDisk = none ∨ removeExistingStore = true) (d m keyLengthMax : UInt32) :
    (∀ junk : Junk,
      (construct junk onDisk [] d m removeExistingStore keyLengthMax).1 = .ok () ∧
        ((construct junk onDisk [] d m removeExistingStore keyLengthMax).2.FullSize ↔
          (24 + junk.header.batSize.toNat + junk.header.maxDataSize.toNat - 1) % 2 ^ 32 + 1
            = Header.size + (initialiseHeader d m).batSize.toNat + m.toNat)) ∧
      ¬ ∀ junk : Junk,
        (construct junk onDisk [] d m removeExistingStore keyLengthMax).2.FullSize := by
  refine ⟨fun junk => ?_, fun hall => ?_⟩
  · rw [construct_new hnew]
    obtain ⟨f, -, -, heq⟩ := initialiseNew_fresh junk d m keyLengthMax
    exact ⟨by rw [heq], fullSize_initialiseNew junk d m keyLengthMax⟩
  · -- a header of zeros announces nothing but itself
    have hzero := hall default
    rw [construct_new hnew, fullSize_initialiseNew] at hzero
    have hmore := size_lt_header d m
    have hbat : (default : Junk).header.batSize.toNat = 0 := rfl
    have hmax : (default : Junk).header.maxDataSize.toNat = 0 := rfl
    rw [hbat, hmax] at hzero
    unfold Header.size at hzero hmore
    omega

theorem fullSize_iff_removed :
    ¬ ∀ junk : Junk, (construct junk (some [1]) [] 8 64 true 50).2.FullSize := by
  have hremoved : (some [1] : Option Bytes) = none ∨ true = true := Or.inr rfl
  exact (fullSize_iff hremoved 8 64 50).2

/-- With zeros in the memory of the header, the file of a store for 64 bytes has 24 bytes instead
of 588, and none of its disk blocks exists. -/
theorem new_file_too_short :
    let ds := (construct default none [] 8 64 false 50).2
    ds.storeFile.bytes.length = 24 ∧ (ds.getDiskBlockOffset 0).toNat = 524 ∧ ¬ ds.FullSize := by
  intro ds
  have hlength : ds.storeFile.bytes.length = 24 := by decide +kernel
  refine ⟨hlength, by decide +kernel, fun h => ?_⟩
  have hfull := h.length
  rw [hlength] at hfull
  revert hfull
  decide +kernel

end DiskStorage

end RackKey
