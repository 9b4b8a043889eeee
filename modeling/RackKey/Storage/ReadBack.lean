import RackKey.Storage.Contents

set_option autoImplicit false

/-! # Reading back what was written

After a write of a list of blocks, on the same object and on one re-opened from the file, the
key reads back exactly the blocks written and every other key reads what it read before
(`readBack_of_write`).
-/

namespace RackKey

open Words ByteFile MathUtils

namespace DiskStorage

variable {sha256_32 : Bytes → UInt32}

/-- A store that holds the given blocks for a key, as seen through its reads. -/
structure ReadsBack (sha256_32 : Bytes → UInt32) (ds : DiskStorage) (key : Bytes)
    (dataBlocks : List Block) (dataBlockSize : UInt32) : Prop where
  inside : ∀ S : Finset UInt32, S ⊆ (dataBlocks.map Block.blockNum).toFinset →
    (ds.readBlocks sha256_32 key S dataBlockSize).1
      = .ok ((dataBlocks.filter fun b => b.blockNum ∈ S).map fun b => { b with key := key })
  outside : ∀ S : Finset UInt32, ¬ S ⊆ (dataBlocks.map Block.blockNum).toFinset →
    (ds.readBlocks sha256_32 key S dataBlockSize).1 = .error .numBlocksRead
  blockNums : (ds.getBlockNums sha256_32 key dataBlockSize).1
    = .ok (dataBlocks.map Block.blockNum)

/-- Two stores that answer every read of a key alike. -/
def SameReads (sha256_32 : Bytes → UInt32) (ds ds' : DiskStorage) (key : Bytes) : Prop :=
  (∀ S dataBlockSize, (ds'.readBlocks sha256_32 key S dataBlockSize).1
    = (ds.readBlocks sha256_32 key S dataBlockSize).1) ∧
  ∀ dataBlockSize, (ds'.getBlockNums sha256_32 key dataBlockSize).1
    = (ds.getBlockNums sha256_32 key dataBlockSize).1

theorem readsBack_of_contents {ds : DiskStorage} (hready : ds.storeFile.Ready) (hb : ds.Backed)
    {key : Bytes} {dataBlocks : List Block} {dataBlockSize : UInt32}
    (hc : Chunked dataBlockSize dataBlocks) (hlen : (copyBlocks dataBlocks).length < 2 ^ 32)
    (hn : (dataBlocks.map Block.blockNum).Nodup)
    (h : ds.contents (sha256_32 key) = some (copyBlocks dataBlocks)) :
    ReadsBack sha256_32 ds key dataBlocks dataBlockSize := by
  have hread : ∀ S, (ds.readBlocks sha256_32 key S dataBlockSize).1
      = selectBlocks key S dataBlockSize (copyBlocks dataBlocks) := by
    intro S
    obtain ⟨f, -, -, heq⟩ := readBlocks_eq sha256_32 hready hb key S dataBlockSize
    rw [heq, h]
  refine ⟨fun S hS => ?_, fun S hS => ?_, ?_⟩
  · rw [hread, selectBlocks_copyBlocks key hc hlen hn, if_pos hS]
  · rw [hread, selectBlocks_copyBlocks key hc hlen hn, if_neg hS]
  · obtain ⟨f, -, -, heq⟩ := getBlockNums_eq sha256_32 hready hb key dataBlockSize
    rw [heq, h]
    exact parseBlockNums_copyBlocks hc hlen

theorem sameReads_of_contents {ds ds' : DiskStorage} (hready : ds.storeFile.Ready) (hb : ds.Backed)
    (hready' : ds'.storeFile.Ready) (hb' : ds'.Backed) {key : Bytes}
    (h : ds'.contents (sha256_32 key) = ds.contents (sha256_32 key)) :
    SameReads sha256_32 ds ds' key := by
  refine ⟨fun S dataBlockSize => ?_, fun dataBlockSize => ?_⟩
  · obtain ⟨f, -, -, heq⟩ := readBlocks_eq sha256_32 hready hb key S dataBlockSize
    obtain ⟨f', -, -, heq'⟩ := readBlocks_eq sha256_32 hready' hb' key S dataBlockSize
    rw [heq, heq', h]
  · obtain ⟨f, -, -, heq⟩ := getBlockNums_eq sha256_32 hready hb key dataBlockSize
    obtain ⟨f', -, -, heq'⟩ := getBlockNums_eq sha256_32 hready' hb' key dataBlockSize
    rw [heq, heq', h]

/-- Reads of a key depend on the header, the stream and the entry that is found. -/
theorem reads_congr {ds ds' : DiskStorage} {key : Bytes} (hheader : ds'.header = ds.header)
    (hfile : ds'.storeFile = ds.storeFile)
    (hlookup : Keyed.lookup BATEntry.keyHash ds'.bat.table (sha256_32 key)
      = Keyed.lookup BATEntry.keyHash ds.bat.table (sha256_32 key)) :
    SameReads sha256_32 ds ds' key := by
  have hfind : (ds'.findEntry sha256_32 key).map Prod.snd
      = (ds.findEntry sha256_32 key).map Prod.snd := by
    rw [findEntry, findEntry, BAT.findBATEntry_map_snd, BAT.findBATEntry_map_snd, hlookup]
  unfold SameReads readBlocks getBlockNums getDiskBlockOffset
  rw [hheader, hfile]
  cases h : ds.findEntry sha256_32 key with
  | none =>
      rw [h, Option.map_none, Option.map_eq_none_iff] at hfind
      rw [hfind]
      exact ⟨fun _ _ => rfl, fun _ => rfl⟩
  | some ie =>
      obtain ⟨i, e⟩ := ie
      rw [h, Option.map_some, Option.map_eq_some_iff] at hfind
      obtain ⟨⟨j, e'⟩, hj, rfl⟩ := hfind
      rw [hj]
      refine ⟨fun S n => ?_, fun n => ?_⟩
      · dsimp only
        cases (ds.storeFile.readExtent .badRead
          (ds.header.getDiskBlockOffset e'.startingDiskBlockNum) e'.numBytes).1 <;> rfl
      · dsimp only
        cases (ds.storeFile.readExtent .badReadBlockNums
          (ds.header.getDiskBlockOffset e'.startingDiskBlockNum) e'.numBytes).1 <;> rfl

/-- A table that has the entry of a key, and a file that has its bytes, give the same reads of
the key, whatever the other entries are. -/
theorem sameReads_of_lookup {ds ds' : DiskStorage} (hready : ds.storeFile.Ready) (hb : ds.Backed)
    (hready' : ds'.storeFile.Ready) (hheader : ds'.header = ds.header)
    (hlen : ds.storeFile.bytes.length ≤ ds'.storeFile.bytes.length) {key : Bytes}
    (hlookup : Keyed.lookup BATEntry.keyHash ds'.bat.table (sha256_32 key)
      = Keyed.lookup BATEntry.keyHash ds.bat.table (sha256_32 key))
    (hread : ∀ e ∈ ds.bat.table, e.keyHash = sha256_32 key →
      readAt ds'.storeFile.bytes (ds.getDiskBlockOffset e.startingDiskBlockNum).toNat
          e.numBytes.toNat
        = readAt ds.storeFile.bytes (ds.getDiskBlockOffset e.startingDiskBlockNum).toNat
            e.numBytes.toNat) :
    SameReads sha256_32 ds ds' key := by
  -- in between: the old table on the new file
  have hmid : SameReads sha256_32 ds { ds with storeFile := ds'.storeFile } key := by
    have hb' : Backed { ds with storeFile := ds'.storeFile } :=
      fun e he => Nat.le_trans (hb e he) hlen
    refine sameReads_of_contents hready hb (by exact hready') hb' ?_
    unfold contents
    cases h : Keyed.lookup BATEntry.keyHash ds.bat.table (sha256_32 key) with
    | none => rfl
    | some e =>
        obtain ⟨he, hk⟩ := Keyed.lookup_eq_some h
        exact congrArg some (hread e he hk)
  have hcongr : SameReads sha256_32 { ds with storeFile := ds'.storeFile } ds' key :=
    reads_congr hheader rfl hlookup
  exact ⟨fun S n => (hcongr.1 S n).trans (hmid.1 S n), fun n => (hcongr.2 n).trans (hmid.2 n)⟩

/-- **Read-back and isolation**: what a write that returns leaves to be read, now and after a
restart. -/
theorem readBack_of_write {d m : UInt32} (hl : Layout d m) {ds ds' : DiskStorage}
    (hi : ds.Intact d m) (hb : ds.Backed) {key : Bytes} {dataBlocks : List Block}
    {dataBlockSize : UInt32} (hn : (dataBlocks.map Block.blockNum).Nodup)
    (hc : Chunked dataBlockSize dataBlocks)
    (hw : ds.writeBlocks sha256_32 key dataBlocks = (.ok (), ds')) (junk : Junk) :
    ∃ re, ds'.reopen junk d m = (.ok (), re) ∧ ∀ s, s = ds' ∨ s = re →
      ReadsBack sha256_32 s key dataBlocks dataBlockSize ∧
      ∀ key', sha256_32 key' ≠ sha256_32 key → SameReads sha256_32 ds s key' := by
  obtain ⟨start, hok⟩ := writeBlocks_ok hw
  obtain ⟨hb', hcontents⟩ := hok.contents hl hi hb
  obtain ⟨hr', hholds⟩ := hok.recoverable hi (hi.headerClear hl.clear)
  have hlen : (copyBlocks dataBlocks).length < 2 ^ 32 := by
    rw [hok.copied]
    exact UInt32.toNat_lt _
  obtain ⟨re, hopen, hre, htable, hheader, hbytes, -⟩ :=
    reopen_spec hr'.toIntact junk hholds hr'.sound.table
  obtain ⟨hcre, hbre⟩ := contents_congr ds' re hheader htable hbytes
  refine ⟨re, hopen, fun s hs => ?_⟩
  have hview : s.storeFile.Ready ∧ s.Backed ∧ ∀ k, s.contents k = ds'.contents k := by
    rcases hs with rfl | rfl
    · exact ⟨hr'.ready, hb', fun _ => rfl⟩
    · exact ⟨hre.ready, hbre hb', hcre⟩
  obtain ⟨hready, hbs, hcs⟩ := hview
  refine ⟨readsBack_of_contents hready hbs hc hlen hn ?_, fun key' hk => ?_⟩
  · rw [hcs, hcontents, if_pos rfl]
  · exact sameReads_of_contents hi.ready hb hready hbs (by rw [hcs, hcontents, if_neg hk])

private def sampleBlocks : List Block := [⟨[97], 0, 4, [1, 2, 3, 4]⟩, ⟨[97], 3, 3, [5, 6, 7]⟩]

theorem readBack_of_write_sample :
    ∃ ds' re, (newStore default 8 64 50).writeBlocks lengthHash [97] sampleBlocks = (.ok (), ds') ∧
      ds'.reopen default 8 64 = (.ok (), re) ∧ ReadsBack lengthHash re [97] sampleBlocks 4 := by
  obtain ⟨hnew, -, -, -⟩ := recoverable_newStore default 8 64 50
  have hb := backed_newStore default 8 64 50
  have hok : (newStore default 8 64 50).writeBlocks lengthHash [97] sampleBlocks
      = (.ok (), ((newStore default 8 64 50).writeBlocks lengthHash [97] sampleBlocks).2) := by
    decide +kernel
  have hc : Chunked 4 sampleBlocks := ⟨by decide, by decide, by decide⟩
  obtain ⟨re, hopen, hread⟩ := readBack_of_write layout_sample hnew.toIntact hb (by decide) hc hok
    default
  exact ⟨_, re, hok, hopen, (hread re (Or.inr rfl)).1⟩

end DiskStorage

end RackKey
