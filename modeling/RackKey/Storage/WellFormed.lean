import RackKey.Lib.Runs
import RackKey.Storage.Reopen

set_option autoImplicit false

/-! # Runs of calls on a store

A run is a sequence of calls that all return normally, from the store the constructor leaves.
`Recoverable` is preserved by every call (`recoverable_run`), so every state reached is well
formed (`wellFormed_of_run`).
-/

namespace RackKey

open Words ByteFile MathUtils

namespace DiskStorage

/-- The calls that change a store. -/
inductive Mutation where
  | write (key : Bytes) (dataBlocks : List Block)
  | delete (key : Bytes)

/-- The calls of a run; `reopen` is a restart on the file of the store. -/
inductive Op where
  | read (key : Bytes) (requestedBlockNums : Finset UInt32) (dataBlockSize : UInt32)
  | mutate (c : Mutation)
  | reopen (junk : Junk)

/-- The state after a call that returns normally. -/
def returned {α : Type} : Except StorageError α × DiskStorage → Option DiskStorage
  | (.ok _, ds) => some ds
  | (.error _, _) => none

variable (sha256_32 : Bytes → UInt32)

def Mutation.run (ds : DiskStorage) : Mutation → Option DiskStorage
  | .write key dataBlocks => returned (ds.writeBlocks sha256_32 key dataBlocks)
  | .delete key => returned (ds.deleteBlocks sha256_32 key)

def Op.run (diskBlockSize maxDataSize : UInt32) (ds : DiskStorage) : Op → Option DiskStorage
  | .read key S dataBlockSize => returned (ds.readBlocks sha256_32 key S dataBlockSize)
  | .mutate c => c.run sha256_32 ds
  | .reopen junk => returned (ds.reopen junk diskBlockSize maxDataSize)

theorem returned_eq_some {α : Type} {r : Except StorageError α × DiskStorage} {ds : DiskStorage}
    (h : returned r = some ds) : ∃ a, r = (.ok a, ds) := by
  obtain ⟨x, ds₁⟩ := r
  cases x with
  | error err => cases h
  | ok a => exact ⟨a, by rw [Option.some.inj h]⟩

/-! ## Stores that fit in 32-bit offsets -/

/-- Header, table and block region of a new store end below `2^32`. -/
def FitsLayout (diskBlockSize maxDataSize : UInt32) : Prop :=
  let cap := (ceilDiv maxDataSize diskBlockSize).toNat
  28 + 62 * cap + cap * diskBlockSize.toNat ≤ 2 ^ 32

/-- The parameters of a store whose bitmap has one bit per block and whose file offsets do not
wrap. -/
structure Layout (diskBlockSize maxDataSize : UInt32) : Prop where
  pos : 1 ≤ diskBlockSize.toNat
  multiple : (ceilDiv maxDataSize diskBlockSize).toNat % 8 = 0
  fits : FitsLayout diskBlockSize maxDataSize

/-- Without wrap-around the disk blocks follow the table one after another. -/
theorem getDiskBlockOffset_toNat {d m : UInt32} (hfits : FitsLayout d m) {b : UInt32}
    (hb : b.toNat < (ceilDiv m d).toNat) (hd : 1 ≤ d.toNat) :
    ((initialiseHeader d m).getDiskBlockOffset b).toNat
      = 28 + 62 * (ceilDiv m d).toNat + d.toNat * b.toNat := by
  unfold FitsLayout at hfits
  dsimp only at hfits
  have hmul : d.toNat * b.toNat + d.toNat ≤ (ceilDiv m d).toNat * d.toNat := by
    calc d.toNat * b.toNat + d.toNat = (b.toNat + 1) * d.toNat := by
          rw [Nat.succ_mul, Nat.mul_comm]
      _ ≤ (ceilDiv m d).toNat * d.toNat := Nat.mul_le_mul_right _ hb
  simp only [Header.getDiskBlockOffset, initialiseHeader, UInt32.toNat_add, UInt32.toNat_mul,
    UInt32.reduceToNat]
  omega

/-! ## Every call preserves the invariant -/

variable {sha256_32}

section Steps

variable {d m : UInt32} {ds ds' : DiskStorage}

theorem recoverable_mutation (hr : ds.Recoverable d m)
    (hclear : HeaderClear ds.header ds.freeSpaceMap.numBits) {c : Mutation}
    (h : c.run sha256_32 ds = some ds') :
    ds'.Recoverable d m ∧ ds'.keyLengthMax = ds.keyLengthMax := by
  cases c with
  | write key dataBlocks =>
      obtain ⟨u, hw⟩ := returned_eq_some h
      obtain ⟨start, hok⟩ := writeBlocks_ok hw
      exact ⟨(hok.recoverable hr.toIntact hclear).1, hok.keyLengthMax⟩
  | delete key =>
      obtain ⟨u, hw⟩ := returned_eq_some h
      obtain ⟨i, e, hf, rfl⟩ := deleteBlocks_ok hw
      exact ⟨recoverable_deleteBlocks hr hf, rfl⟩

theorem Intact.withStoreFile (hr : ds.Intact d m) {f : StoreFile} (hf : f.Ready)
    (hbytes : f.bytes = ds.storeFile.bytes) : Intact d m { ds with storeFile := f } where
  sound := ⟨hr.sound.numEntries, hr.sound.table, hr.sound.marks⟩
  header := hr.header
  capacity := hr.capacity
  ready := hf
  fileHeader := by
    show readAt f.bytes 0 Header.size = _
    rw [hbytes]
    exact hr.fileHeader

theorem Recoverable.withStoreFile (hr : ds.Recoverable d m) {f : StoreFile} (hf : f.Ready)
    (hbytes : f.bytes = ds.storeFile.bytes) : Recoverable d m { ds with storeFile := f } where
  toIntact := hr.toIntact.withStoreFile hf hbytes
  fileTable := by
    show ∃ t, StoreFile.HoldsTable f.bytes t ∧ _
    rw [hbytes]
    exact hr.fileTable

theorem recoverable_op (hr : ds.Recoverable d m)
    (hclear : HeaderClear ds.header ds.freeSpaceMap.numBits) {op : Op}
    (h : op.run sha256_32 d m ds = some ds') : ds'.Recoverable d m := by
  cases op with
  | read key S dataBlockSize =>
      obtain ⟨blocks, hread⟩ := returned_eq_some h
      obtain ⟨f, hf, hbytes, rfl⟩ := readBlocks_ok hr.ready hread
      exact hr.withStoreFile hf hbytes
  | mutate c => exact (recoverable_mutation hr hclear h).1
  | reopen junk =>
      obtain ⟨t, ht, hok⟩ := hr.fileTable
      obtain ⟨ds₁, hopen, hr₁, -⟩ := reopen_spec hr.toIntact junk ht hok
      obtain ⟨u, hopen'⟩ := returned_eq_some h
      rw [hopen] at hopen'
      obtain rfl := (Prod.mk.inj hopen').2
      exact hr₁

end Steps

/-- The number of bits in the map of a store with the given parameters. -/
def bitCapacity (diskBlockSize maxDataSize : UInt32) : Nat :=
  8 * (ceilDiv (ceilDiv maxDataSize diskBlockSize) 8).toNat

theorem Intact.numBits {d m : UInt32} {ds : DiskStorage} (hr : ds.Intact d m) :
    ds.freeSpaceMap.numBits = bitCapacity d m := by
  rw [FreeSpaceMap.numBits, ds.freeSpaceMap.size_eq, hr.capacity, bitCapacity]

/-- No block of a store with the given parameters lies in the header of the file. -/
def ClearLayout (diskBlockSize maxDataSize : UInt32) : Prop :=
  HeaderClear (initialiseHeader diskBlockSize maxDataSize) (bitCapacity diskBlockSize maxDataSize)

theorem Intact.headerClear {d m : UInt32} {ds : DiskStorage} (hr : ds.Intact d m)
    (hclear : ClearLayout d m) : HeaderClear ds.header ds.freeSpaceMap.numBits := by
  rw [hr.header, hr.numBits]
  exact hclear

theorem Layout.clear {d m : UInt32} (hl : Layout d m) : ClearLayout d m := by
  intro b hb
  rw [bitCapacity, ceilDiv_eight hl.multiple] at hb
  rw [getDiskBlockOffset_toNat hl.fits hb hl.pos]
  simp only [Header.size]
  omega

/-- **Every run preserves the invariant.** -/
theorem recoverable_run {d m : UInt32} (hclear : ClearLayout d m) (ops : List Op)
    {ds ds' : DiskStorage} (hr : ds.Recoverable d m)
    (hrun : ops.foldlM (Op.run sha256_32 d m) ds = some ds') : ds'.Recoverable d m :=
  Runs.foldlM_invariant (I := fun s => s.Recoverable d m)
    (fun _ _ _ hs h => recoverable_op hs (hs.headerClear hclear) h) ops ds ds' hr hrun

/-! ## Well-formed stores -/

/-- The bitmap, the table and its counter agree. -/
structure WellFormed (ds : DiskStorage) : Prop where
  numEntries : ds.bat.numEntries.toNat = ds.bat.table.length
  hashes : ds.bat.table.Pairwise fun e e' => e.keyHash ≠ e'.keyHash
  numBytes : ∀ e ∈ ds.bat.table, 1 ≤ e.numBytes.toNat
  disjoint : ds.bat.table.Pairwise fun e e' => Disjoint (e.extent ds.header) (e'.extent ds.header)
  inside : ∀ e ∈ ds.bat.table, e.startingDiskBlockNum.toNat + (ds.getNumDiskBlocks e.numBytes).toNat
    ≤ ds.freeSpaceMap.blockCapacity.toNat
  marks : ∀ b : UInt32, ds.freeSpaceMap.isMapped b = some true ↔
    ∃ e ∈ ds.bat.table, b.toNat ∈ e.extent ds.header

/-- In a store with a multiple of 8 blocks, soundness is well-formedness. -/
theorem Sound.wellFormed {ds : DiskStorage} (hs : ds.Sound)
    (hcap : ds.freeSpaceMap.blockCapacity.toNat % 8 = 0) : ds.WellFormed where
  numEntries := hs.numEntries
  hashes := List.pairwise_map.mp hs.table.hashes
  numBytes := by
    intro e he
    -- an entry without bytes would own no block
    have hpos := hs.table.nonempty e he
    obtain ⟨-, hlt⟩ := le_ceilDiv_mul hpos
    have hmul : ds.header.diskBlockSize.toNat
        ≤ (ceilDiv e.numBytes ds.header.diskBlockSize).toNat * ds.header.diskBlockSize.toNat :=
      Nat.le_mul_of_pos_left _ hpos
    omega
  disjoint := hs.table.pairwise
  inside := by
    intro e he
    have hin := hs.table.inside e he
    rwa [FreeSpaceMap.numBits_eq _ hcap] at hin
  marks := fun b => (ds.freeSpaceMap.isMapped_eq_some_true_iff b).trans (hs.marks b.toNat)

/-- **Every state a store can reach is well formed**: whatever is read, written and deleted,
and however often the store is re-opened from its file in between. -/
theorem wellFormed_of_run {d m keyLengthMax : UInt32} {junk : Junk} (hl : Layout d m)
    {ops : List Op} {ds : DiskStorage}
    (hrun : ops.foldlM (Op.run sha256_32 d m) (newStore junk d m keyLengthMax) = some ds) :
    ds.WellFormed := by
  obtain ⟨hnew, -⟩ := recoverable_newStore junk d m keyLengthMax
  have hr : ds.Recoverable d m := recoverable_run hl.clear ops hnew hrun
  exact hr.sound.wellFormed (by rw [hr.capacity]; exact hl.multiple)

/-- Two keys, an overwrite by a longer value, a delete that the restart undoes, and a read. -/
private def sampleOps : List Op :=
  [.mutate (.write [97] [⟨[97], 0, 4, [1, 2, 3, 4]⟩]),
    .mutate (.write [98, 98] [⟨[98, 98], 0, 2, [5, 6]⟩]),
    .mutate (.write [97] [⟨[97], 0, 4, [7, 8, 9, 10]⟩, ⟨[97], 1, 3, [11, 12, 13]⟩]),
    .mutate (.delete [98, 98]), .reopen default, .read [98, 98] {0} 4]

theorem layout_sample : Layout 8 64 where
  pos := by decide
  multiple := by decide
  fits := by unfold FitsLayout; decide

theorem wellFormed_of_run_sample :
    ∃ ds, sampleOps.foldlM (Op.run lengthHash 8 64) (newStore default 8 64 50) = some ds ∧
      ds.WellFormed := by
  have hsome : (sampleOps.foldlM (Op.run lengthHash 8 64) (newStore default 8 64 50)).isSome
      = true := by decide +kernel
  obtain ⟨ds, hds⟩ := Option.isSome_iff_exists.mp hsome
  exact ⟨ds, hds, wellFormed_of_run layout_sample hds⟩

end DiskStorage

end RackKey
