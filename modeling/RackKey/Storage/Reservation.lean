import Mathlib.Order.Bounds.Basic
import RackKey.Storage.ReadBack
import RackKey.Storage.Rollback

set_option autoImplicit false

/-! # What a write reserves and a delete gives back

A write that returns has recorded the bytes it wrote, in the least number of disk blocks that hold
them, all of which were free (`writeBlocks_exact`): each 32-bit sum or quotient that wraps is
caught by the search for free blocks or by the comparison with the size of the buffer. A delete
gives back exactly the blocks of its entry, and takes back a write of a new key
(`deleteBlocks_exact`).
-/

namespace RackKey

open Words ByteFile MathUtils

namespace DiskStorage

variable {sha256_32 : Bytes → UInt32} {ds ds' : DiskStorage} {key : Bytes}

/-! ## Writes -/

section Write

variable {dataBlocks : List Block} {start : UInt32}

/-- What a write that returned has recorded, written and reserved for its key. -/
structure ExactWrite (sha256_32 : Bytes → UInt32) (ds : DiskStorage) (key : Bytes)
    (dataBlocks : List Block) (ds' : DiskStorage) (e : BATEntry) : Prop where
  total : e.numBytes = totalNumBytes dataBlocks
  recorded : e.numBytes.toNat = (dataBlocks.map fun b => 4 + b.data.length).sum
  written : (copyBlocks dataBlocks).length = e.numBytes.toNat ∧
    ∃ f : StoreFile, f.bytes = writeAt 0 ds.storeFile.bytes
        (ds.getDiskBlockOffset e.startingDiskBlockNum).toNat (copyBlocks dataBlocks) ∧
      ds'.storeFile = f.writeBAT ds'.bat
  least : IsLeast {n : Nat | e.numBytes.toNat ≤ n * ds.header.diskBlockSize.toNat}
    (ds.getNumDiskBlocks e.numBytes).toNat
  nonempty : 1 ≤ (ds.getNumDiskBlocks e.numBytes).toNat
  inside : e.startingDiskBlockNum.toNat + (ds.getNumDiskBlocks e.numBytes).toNat
    ≤ ds.freeSpaceMap.numBits
  free : ∀ b ∈ e.extent ds.header, ds.freeSpaceMap.Mapped b →
    ∃ i old, ds.findEntry sha256_32 key = some (i, old) ∧ b ∈ old.extent ds.header
  allocated : ∀ b, ds'.freeSpaceMap.Mapped b ↔ b ∈ e.extent ds.header ∨
    (ds.freeSpaceMap.Mapped b ∧
      ∀ i old, ds.findEntry sha256_32 key = some (i, old) → b ∉ old.extent ds.header)

/-- **A write never spills out of what it reserved.** -/
theorem writeBlocks_exact (hin : ∀ e ∈ ds.bat.table, e.startingDiskBlockNum.toNat
      + (ds.getNumDiskBlocks e.numBytes).toNat ≤ ds.freeSpaceMap.numBits)
    (hw : ds.writeBlocks sha256_32 key dataBlocks = (.ok (), ds')) :
    ∃ i e, ds'.findEntry sha256_32 key = some (i, e) ∧
      ExactWrite sha256_32 ds key dataBlocks ds' e := by
  obtain ⟨start, hok⟩ := writeBlocks_ok hw
  obtain ⟨i, hfind⟩ := hok.findEntry
  obtain ⟨hN, hle, hfree⟩ := hok.run
  have hfreed := mapped_freeExisting_iff sha256_32 hin key
  refine ⟨i, _, hfind, ?_⟩
  set e := newEntry sha256_32 key start (totalNumBytes dataBlocks) (ds.findEntry sha256_32 key)
    with he
  have hstart : e.startingDiskBlockNum = start := newEntry_start _ _ _ _
  have hnum : e.numBytes = totalNumBytes dataBlocks := newEntry_numBytes _ _ _ _
  have hext : e.extent ds.header = Finset.Ico start.toNat
      (start.toNat + (ds.getNumDiskBlocks (totalNumBytes dataBlocks)).toNat) :=
    newEntry_extent _ _ _ _ _
  have hcopied := hok.copied
  obtain ⟨hcover, hspare⟩ := le_ceilDiv_mul hN
  refine ⟨hnum, ?_, ⟨?_, _, ?_, hok.storeFile⟩, ⟨?_, fun n hn => ?_⟩, ?_, ?_, fun b hb hb' => ?_,
    fun b => ?_⟩
  · rw [hnum, ← hcopied, copyBlocks_length]
  · rw [hnum, hcopied]
  · rw [hstart]
    exact StoreFile.writeExtent_ok hok.written
  · rw [Set.mem_ofPred_eq, hnum]
    exact hcover
  · rw [Set.mem_ofPred_eq, hnum] at hn
    rw [hnum]
    by_contra hlt
    have hmul := Nat.mul_le_mul_right ds.header.diskBlockSize.toNat (Nat.lt_of_not_le hlt)
    rw [Nat.succ_mul] at hmul
    unfold getNumDiskBlocks Header.getNumDiskBlocks at hmul
    omega
  · rw [hnum]
    exact hN
  · rw [hstart, hnum, ← (ds.freeExisting_capacity (ds.findEntry sha256_32 key)).2]
    exact hle
  · -- a block found was clear after the old ones were freed, so a mapped one is among those
    rw [hext] at hb
    have hnot := hfree b hb
    rw [hfreed] at hnot
    by_contra hall
    exact hnot ⟨hb', fun i old h hbo => hall ⟨i, old, h, hbo⟩⟩
  · rw [hok.freeSpaceMap, mapped_allocateNew hle, hext, hfreed]

private def oneBlock : List Block := [⟨[97], 0, 8, [1, 2, 3, 4, 5, 6, 7, 8]⟩]

private def oneStored : DiskStorage :=
  ((newStore default 8 64 50).writeBlocks lengthHash [97] oneBlock).2

private theorem oneStored_sound : oneStored.Sound := by
  obtain ⟨hnew, -⟩ := recoverable_newStore default 8 64 50
  have hw : (newStore default 8 64 50).writeBlocks lengthHash [97] oneBlock = (.ok (), oneStored) :=
    Prod.ext (by decide +kernel) rfl
  obtain ⟨start, hok⟩ := writeBlocks_ok hw
  exact (hok.sound hnew.sound).1

/-- An overwrite with more blocks: the old ones are free again for it. -/
theorem writeBlocks_exact_overwrite :
    ∃ ds' i e, oneStored.writeBlocks lengthHash [97] (oneBlock ++ [⟨[97], 1, 5, [1, 2, 3, 4, 5]⟩])
        = (.ok (), ds') ∧ ds'.findEntry lengthHash [97] = some (i, e) ∧
      ExactWrite lengthHash oneStored [97] (oneBlock ++ [⟨[97], 1, 5, [1, 2, 3, 4, 5]⟩]) ds' e := by
  obtain ⟨ds', hw⟩ : ∃ ds', oneStored.writeBlocks lengthHash [97]
      (oneBlock ++ [⟨[97], 1, 5, [1, 2, 3, 4, 5]⟩]) = (.ok (), ds') :=
    ⟨_, Prod.ext (by decide +kernel) rfl⟩
  obtain ⟨i, e, hfind, hexact⟩ := writeBlocks_exact oneStored_sound.table.inside hw
  exact ⟨ds', i, e, hw, hfind, hexact⟩

end Write

/-! ## Deletes -/

section Delete

/-- What a delete that returned has done: `e` is the entry of its key. -/
structure ExactDelete (sha256_32 : Bytes → UInt32) (ds : DiskStorage) (key : Bytes) (e : BATEntry)
    (ds' : DiskStorage) : Prop where
  table : ds'.bat.table = ds.bat.table.filter fun y => y.keyHash ≠ sha256_32 key
  entry : ∀ y ∈ ds.bat.table, y.keyHash = sha256_32 key ↔ y = e
  numEntries : ds'.bat.numEntries = ds.bat.numEntries - 1
  marked : ∀ b ∈ e.extent ds.header, ds.freeSpaceMap.Mapped b
  cleared : ∀ b, ds'.freeSpaceMap.Mapped b ↔ ds.freeSpaceMap.Mapped b ∧ b ∉ e.extent ds.header
  reads : ∀ key', sha256_32 key' ≠ sha256_32 key → ∀ S dataBlockSize,
    (ds'.readBlocks sha256_32 key' S dataBlockSize).1
      = (ds.readBlocks sha256_32 key' S dataBlockSize).1
  gone : ∀ S dataBlockSize,
    (ds'.readBlocks sha256_32 key S dataBlockSize).1 = .error (.noEntryForRead key)

theorem deleteBlocks_stored {bound : Nat} (hbound : bound ≤ ds.freeSpaceMap.numBits)
    (ht : TableOk ds.header bound ds.bat.table) (hm : ds.MarksExactly) {i : Nat} {e : BATEntry}
    (h : ds.findEntry sha256_32 key = some (i, e)) :
    ∃ ds', ds.deleteBlocks sha256_32 key = (.ok (), ds') ∧
      ExactDelete sha256_32 ds key e ds' := by
  obtain ⟨hf, -, he, hk⟩ := findEntry_eq_some h
  obtain ⟨ds', hdel, hbat, hfsm, hheader, hfile⟩ : ∃ ds',
      ds.deleteBlocks sha256_32 key = (.ok (), ds') ∧
      ds'.bat = ⟨ds.bat.numEntries - 1, ds.bat.table.eraseIdx i⟩ ∧
      ds'.freeSpaceMap = ds.freeSpaceMap.freeNBlocks e.startingDiskBlockNum
        (ds.getNumDiskBlocks e.numBytes) ∧
      ds'.header = ds.header ∧ ds'.storeFile = ds.storeFile := by
    rw [deleteBlocks, h]
    exact ⟨_, rfl, rfl, rfl, rfl, rfl⟩
  refine ⟨ds', hdel, ?_, fun y hy => ⟨fun hyk => ?_, ?_⟩, by rw [hbat],
    fun b hb => (hm b).mpr ⟨e, he, hb⟩, fun b => ?_, fun key' hne S n => ?_, fun S n => ?_⟩
  · rw [hbat]
    exact Keyed.eraseIdx_eq_filter ht.hashes hf
  · exact List.inj_on_of_nodup_map ht.hashes hy he (hyk.trans hk.symm)
  · rintro rfl
    exact hk
  · rw [hfsm]
    exact (FreeSpaceMap.mapped_freeNBlocks (Nat.le_trans (ht.inside e he) hbound) b).trans and_comm
  · refine (reads_congr hheader hfile ?_).1 S n
    rw [hbat]
    exact Keyed.lookup_eraseIdx_ne hf hne
  · have hnone : ds'.findEntry sha256_32 key = none := by
      refine BAT.findBATEntry_eq_none.mpr (Keyed.find_eq_none.mpr fun y hy => ?_)
      rw [hbat] at hy
      exact ((Keyed.mem_eraseIdx ht.hashes hf).mp hy).2
    rw [readBlocks, hnone]

/-- Freeing a run that was free before it was allocated gives the map as it was. -/
theorem freeNBlocks_allocateNew {fsm : FreeSpaceMap} {s N : UInt32}
    (hrun : fsm.FreeRun N.toNat s.toNat) (o : Option (Nat × BATEntry)) :
    (allocateNew fsm s N o).freeNBlocks s N = fsm := by
  obtain ⟨hin, hfree⟩ := hrun
  obtain ⟨hcapacity, hbits⟩ := allocateNew_capacity fsm s N o
  exact FreeSpaceMap.freeNBlocks_of_added hcapacity (by rw [hbits]; exact hin)
    (mapped_allocateNew hin o) hfree

/-- A write of a new key that throws leaves table and map as they were. -/
theorem writeBlocks_error_new (hnone : ds.findEntry sha256_32 key = none) {dataBlocks : List Block}
    {err : StorageError} (h : ds.writeBlocks sha256_32 key dataBlocks = (.error err, ds')) :
    ds'.freeSpaceMap = ds.freeSpaceMap ∧ ds'.bat = ds.bat := by
  rcases writeBlocks_error h with ⟨-, rfl⟩ | ⟨-, -, rfl⟩ | ⟨f, -, rfl⟩
  · exact ⟨rfl, rfl⟩
  · rw [hnone]
    exact ⟨rfl, rfl⟩
  · rw [hnone]
    exact ⟨rfl, rfl⟩

/-- A write of a new key, returned or not, is taken back by a delete of the key. -/
theorem deleteBlocks_writeBlocks (hnone : ds.findEntry sha256_32 key = none)
    (dataBlocks : List Block) :
    let written := ds.writeBlocks sha256_32 key dataBlocks
    let deleted := written.2.deleteBlocks sha256_32 key
    (written.1 = .ok () → deleted.1 = .ok ()) ∧
      deleted.2.freeSpaceMap = ds.freeSpaceMap ∧ deleted.2.bat = ds.bat := by
  dsimp only
  cases hw : ds.writeBlocks sha256_32 key dataBlocks with
  | mk r ds₁ =>
      cases r with
      | error err =>
          obtain ⟨hfsm, hbat⟩ := writeBlocks_error_new hnone hw
          have hnone₁ : ds₁.findEntry sha256_32 key = none := by
            rw [findEntry, hbat]
            exact hnone
          rw [deleteBlocks, hnone₁]
          exact ⟨fun h => absurd h (by simp), hfsm, hbat⟩
      | ok u =>
          obtain ⟨start, hok⟩ := writeBlocks_ok hw
          have hbat := hok.bat
          have hfsm := hok.freeSpaceMap
          obtain ⟨-, hrun⟩ := hok.run
          rw [hnone] at hbat hfsm hrun
          rw [deleteBlocks, hok.findEntry_new hnone]
          have hN : ds₁.getNumDiskBlocks (totalNumBytes dataBlocks)
              = ds.getNumDiskBlocks (totalNumBytes dataBlocks) := by
            simp only [getNumDiskBlocks, hok.header]
          refine ⟨fun _ => rfl, ?_, ?_⟩
          · dsimp only
            rw [hfsm, hN]
            exact freeNBlocks_allocateNew hrun none
          · -- the entry was the last one of the table
            dsimp only
            rw [hbat]
            simp only [updateBAT]
            rw [List.eraseIdx_append_of_length_le (Nat.le_refl _), Nat.sub_self,
              UInt32.add_sub_cancel, List.eraseIdx_cons_zero, List.append_nil]

/-- **Delete is exact, and takes back a write of a new key**, in a store whose entries own disjoint
non-empty extents that the map marks exactly. -/
theorem deleteBlocks_exact (hcap : ds.freeSpaceMap.blockCapacity.toNat % 8 = 0)
    (ht : TableOk ds.header ds.freeSpaceMap.blockCapacity.toNat ds.bat.table)
    (hm : ds.MarksExactly) (key : Bytes) :
    (∀ i e, ds.findEntry sha256_32 key = some (i, e) →
      ∃ ds', ds.deleteBlocks sha256_32 key = (.ok (), ds') ∧
        ExactDelete sha256_32 ds key e ds') ∧
    (ds.findEntry sha256_32 key = none → ∀ dataBlocks,
      let written := ds.writeBlocks sha256_32 key dataBlocks
      let deleted := written.2.deleteBlocks sha256_32 key
      (written.1 = .ok () → deleted.1 = .ok ()) ∧
        deleted.2.freeSpaceMap = ds.freeSpaceMap ∧ deleted.2.bat = ds.bat) :=
  ⟨fun _ _ h => deleteBlocks_stored (Nat.le_of_eq (ds.freeSpaceMap.numBits_eq hcap).symm) ht hm h,
    deleteBlocks_writeBlocks⟩

/-- The stored key is deleted, and a write of another key is taken back. -/
theorem deleteBlocks_exact_stored :
    ∃ i e ds', oneStored.findEntry lengthHash [97] = some (i, e) ∧
      oneStored.deleteBlocks lengthHash [97] = (.ok (), ds') ∧
      ExactDelete lengthHash oneStored [97] e ds' ∧
      ((oneStored.writeBlocks lengthHash [97, 98] oneBlock).2.deleteBlocks
        lengthHash [97, 98]).2.bat = oneStored.bat := by
  have hcap : oneStored.freeSpaceMap.blockCapacity.toNat % 8 = 0 := by decide +kernel
  have ht := oneStored_sound.table
  rw [oneStored.freeSpaceMap.numBits_eq hcap] at ht
  obtain ⟨i, e, hfind⟩ : ∃ i e, oneStored.findEntry lengthHash [97] = some (i, e) := by
    have hsome : (oneStored.findEntry lengthHash [97]).isSome = true := by decide +kernel
    obtain ⟨⟨i, e⟩, h⟩ := Option.isSome_iff_exists.mp hsome
    exact ⟨i, e, h⟩
  obtain ⟨ds', hdel, hexact⟩ :=
    (deleteBlocks_exact hcap ht oneStored_sound.marks [97]).1 i e hfind
  have hnone : oneStored.findEntry lengthHash [97, 98] = none := by decide +kernel
  obtain ⟨-, -, hbat⟩ :=
    (deleteBlocks_exact hcap ht oneStored_sound.marks [97, 98]).2 hnone oneBlock
  exact ⟨i, e, ds', hfind, hdel, hexact, hbat⟩

end Delete

end DiskStorage

end RackKey
