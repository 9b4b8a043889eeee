import RackKey.Storage.Contents

set_option autoImplicit false

/-! # What a store can hold

`Steady` is what every run of writes and deletes keeps of a new store, whatever its parameters are
(`steady_run`). Its entries own disjoint runs of the bits of the map, which bounds their number and
their sizes (`Steady.sum_blocks_le`). The bound is reached: keys with different hashes can be
written one after another for as long as the bits last (`fill_run`).
-/

namespace RackKey

open Words ByteFile MathUtils

namespace DiskStorage

variable {sha256_32 : Bytes → UInt32} {d m : UInt32} {ds ds' : DiskStorage}

/-- A sound store with the given parameters and a ready stream. Each entry has the hash of a key
and the bytes of at least one block number. -/
structure Steady (sha256_32 : Bytes → UInt32) (diskBlockSize maxDataSize : UInt32)
    (ds : DiskStorage) : Prop where
  sound : ds.Sound
  header : ds.header = initialiseHeader diskBlockSize maxDataSize
  capacity : ds.freeSpaceMap.blockCapacity = ceilDiv maxDataSize diskBlockSize
  ready : ds.storeFile.Ready
  entries : ∀ e ∈ ds.bat.table, 4 ≤ e.numBytes.toNat ∧ ∃ key, sha256_32 key = e.keyHash

theorem steady_newStore (sha256_32 : Bytes → UInt32) (junk : Junk) (d m keyLengthMax : UInt32) :
    (newStore junk d m keyLengthMax).Steady sha256_32 d m := by
  obtain ⟨hnew, -⟩ := recoverable_newStore junk d m keyLengthMax
  refine ⟨hnew.sound, hnew.header, hnew.capacity, hnew.ready, fun e he => ?_⟩
  rw [table_newStore] at he
  cases he

theorem WriteOk.steady {key : Bytes} {dataBlocks : List Block} {start : UInt32}
    (hw : WriteOk sha256_32 ds key dataBlocks start ds') (hs : ds.Steady sha256_32 d m) :
    ds'.Steady sha256_32 d m := by
  obtain ⟨hsound, hcap, -⟩ := hw.sound hs.sound
  refine ⟨hsound, hw.header.trans hs.header, hcap.trans hs.capacity, (hw.bytes hs.ready).1, ?_⟩
  intro y hy
  obtain ⟨-, hmem⟩ := mem_updateBAT sha256_32 hs.sound.table.hashes key start
    (totalNumBytes dataBlocks)
  rw [hw.bat] at hy
  rcases (hmem y).mp hy with rfl | ⟨hy, -⟩
  · have hlen := four_mul_length_le_copyBlocks dataBlocks
    have hpos := List.length_pos_of_ne_nil hw.nonempty
    rw [hw.copied] at hlen
    rw [newEntry_numBytes, newEntry_keyHash]
    exact ⟨by omega, key, rfl⟩
  · exact hs.entries y hy

theorem steady_mutation (hs : ds.Steady sha256_32 d m) {c : Mutation}
    (h : c.run sha256_32 ds = some ds') : ds'.Steady sha256_32 d m := by
  cases c with
  | write key dataBlocks =>
      obtain ⟨u, hw⟩ := returned_eq_some h
      obtain ⟨start, hok⟩ := writeBlocks_ok hw
      exact hok.steady hs
  | delete key =>
      obtain ⟨u, hw⟩ := returned_eq_some h
      obtain ⟨i, e, hf, rfl⟩ := deleteBlocks_ok hw
      exact ⟨(sound_deleteBlocks hs.sound hf).1, hs.header, hs.capacity, hs.ready,
        fun y hy => hs.entries y (List.mem_of_mem_eraseIdx hy)⟩

/-- **Every run keeps a store steady.** -/
theorem steady_run {junk : Junk} {keyLengthMax : UInt32} {ops : List Mutation}
    (hrun : ops.foldlM (Mutation.run sha256_32) (newStore junk d m keyLengthMax) = some ds) :
    ds.Steady sha256_32 d m :=
  Runs.foldlM_invariant (I := fun s => s.Steady sha256_32 d m)
    (fun _ _ _ hs h => steady_mutation hs h) ops _ ds
    (steady_newStore sha256_32 junk d m keyLengthMax) hrun

theorem Steady.numBits (hs : ds.Steady sha256_32 d m) :
    ds.freeSpaceMap.numBits = bitCapacity d m := by
  rw [FreeSpaceMap.numBits, ds.freeSpaceMap.size_eq, hs.capacity, bitCapacity]

theorem Steady.getNumDiskBlocks (hs : ds.Steady sha256_32 d m) (n : UInt32) :
    ds.getNumDiskBlocks n = ceilDiv n d := by
  rw [DiskStorage.getNumDiskBlocks, hs.header]
  rfl

/-- **The extents of the entries fit in the bits together.** -/
theorem Steady.sum_blocks_le (hs : ds.Steady sha256_32 d m) :
    (ds.bat.table.map fun e => (ceilDiv e.numBytes d).toNat).sum ≤ bitCapacity d m := by
  have hd : ds.header.diskBlockSize = d := by rw [hs.header]; rfl
  have hsum := Extents.sum_card_le (l := ds.bat.table.map (BATEntry.extent ds.header))
    (c := ds.freeSpaceMap.numBits) (List.pairwise_map.mpr hs.sound.table.pairwise) ?_
  · rw [List.map_map, hs.numBits] at hsum
    refine Nat.le_trans (Nat.le_of_eq (congrArg List.sum (List.map_congr_left fun e _ => ?_))) hsum
    rw [Function.comp_apply, BATEntry.extent, Nat.card_Ico, Header.getNumDiskBlocks, hd]
    omega
  · intro s hs' b hb
    obtain ⟨e, he, rfl⟩ := List.mem_map.mp hs'
    have hin := hs.sound.table.inside e he
    have := (Finset.mem_Ico.mp hb).2
    omega

/-! ## Filling a store -/

/-- A list of one block that takes `total` bytes in the store. -/
def filler (key : Bytes) (total : Nat) : List Block :=
  [⟨key, 0, UInt32.ofNat (total - 4), List.replicate (total - 4) 0⟩]

theorem copyBlocks_filler (key : Bytes) {total : Nat} (htotal : 4 ≤ total) :
    (copyBlocks (filler key total)).length = total := by
  rw [filler, copyBlocks_cons, copyBlocks, List.flatMap_nil, List.append_nil, List.length_append,
    le32_length, List.length_replicate]
  omega

theorem totalNumBytes_filler (key : Bytes) {total : Nat} (htotal : 4 ≤ total) :
    totalNumBytes (filler key total) = UInt32.ofNat total := by
  show 0 + 4 + UInt32.ofNat (total - 4) = UInt32.ofNat total
  rw [UInt32.zero_add, show (4 : UInt32) = UInt32.ofNat 4 from rfl, ← UInt32.ofNat_add]
  congr 1
  omega

/-- A store filled from the front: `keys` are stored, each with `total` bytes, and the blocks
behind theirs are free. -/
structure Filled (sha256_32 : Bytes → UInt32) (d : UInt32) (total : Nat) (keys : List Bytes)
    (ds : DiskStorage) : Prop where
  hashes : ds.bat.table.map BATEntry.keyHash = keys.map sha256_32
  sizes : ds.bat.table.map (fun e => e.numBytes.toNat) = List.replicate keys.length total
  front : ∀ b, ds.freeSpaceMap.Mapped b ↔
    b < keys.length * (ceilDiv (UInt32.ofNat total) d).toNat

section Fill

variable {total : Nat} {keys : List Bytes} {key : Bytes}

theorem Filled.findEntry (hf : Filled sha256_32 d total keys ds)
    (hkey : sha256_32 key ∉ keys.map sha256_32) : ds.findEntry sha256_32 key = none := by
  refine BAT.findBATEntry_eq_none.mpr (Keyed.find_eq_none.mpr fun e he hk => hkey ?_)
  rw [← hf.hashes, ← hk]
  exact List.mem_map_of_mem he

/-- The blocks behind the stored keys are a free run. -/
theorem Filled.freeRun (hf : Filled sha256_32 d total keys ds) (hs : ds.Steady sha256_32 d m)
    (hroom : (keys.length + 1) * (ceilDiv (UInt32.ofNat total) d).toNat ≤ bitCapacity d m) :
    ds.freeSpaceMap.FreeRun (ceilDiv (UInt32.ofNat total) d).toNat
      (keys.length * (ceilDiv (UInt32.ofNat total) d).toNat) := by
  rw [Nat.succ_mul] at hroom
  refine ⟨by rw [hs.numBits]; exact hroom, fun b hb => ?_⟩
  rw [hf.front b]
  have := (Finset.mem_Ico.mp hb).1
  omega

/-- The run found begins with the first free block. -/
theorem Filled.found_eq (hf : Filled sha256_32 d total keys ds) (hs : ds.Steady sha256_32 d m)
    (hpos : 0 < (ceilDiv (UInt32.ofNat total) d).toNat)
    (hroom : (keys.length + 1) * (ceilDiv (UInt32.ofNat total) d).toNat ≤ bitCapacity d m)
    {start : UInt32}
    (hfound : ds.freeSpaceMap.findNFreeBlocks (ceilDiv (UInt32.ofNat total) d) = some start) :
    start.toNat = keys.length * (ceilDiv (UInt32.ofNat total) d).toNat := by
  obtain ⟨⟨-, hfree⟩, hleast⟩ := (FreeSpaceMap.findNFreeBlocks_eq_some_iff hpos).mp hfound
  refine Nat.le_antisymm
    (Nat.le_of_not_lt fun hlt => hleast _ hlt (hf.freeRun hs hroom)) ?_
  by_contra hlt
  exact hfree start.toNat (Finset.mem_Ico.mpr ⟨Nat.le_refl _, Nat.lt_add_of_pos_right hpos⟩)
    ((hf.front _).mpr (Nat.lt_of_not_le hlt))

/-- As long as there are bits for it, one key more can be written. -/
theorem Filled.exists_write (hf : Filled sha256_32 d total keys ds)
    (hs : ds.Steady sha256_32 d m) (htotal : 4 ≤ total) (hlt : total < 2 ^ 32)
    (hpos : 0 < (ceilDiv (UInt32.ofNat total) d).toNat)
    (hkey : sha256_32 key ∉ keys.map sha256_32)
    (hroom : (keys.length + 1) * (ceilDiv (UInt32.ofNat total) d).toNat ≤ bitCapacity d m) :
    ∃ ds', ds.writeBlocks sha256_32 key (filler key total) = (.ok (), ds') := by
  have hfound : (ds.freeExisting (ds.findEntry sha256_32 key)).findNFreeBlocks
      (ds.getNumDiskBlocks (totalNumBytes (filler key total))) ≠ none := by
    rw [hf.findEntry hkey, hs.getNumDiskBlocks, totalNumBytes_filler key htotal]
    intro h
    exact (FreeSpaceMap.findNFreeBlocks_eq_none_iff hpos).mp h _ (hf.freeRun hs hroom)
  have hcopied : (copyBlocks (filler key total)).length
      = (totalNumBytes (filler key total)).toNat := by
    rw [copyBlocks_filler key htotal, totalNumBytes_filler key htotal,
      UInt32.toNat_ofNat_of_lt' hlt]
  have hne : filler key total ≠ [] := List.cons_ne_nil _ _
  exact ⟨_, Prod.ext (writeBlocks_of_room sha256_32 hs.ready hne hfound hcopied) rfl⟩

/-- One key more, as long as there are bits for it. -/
theorem Filled.write (htotal : 4 ≤ total) (hlt : total < 2 ^ 32)
    (hpos : 0 < (ceilDiv (UInt32.ofNat total) d).toNat)
    (hkey : sha256_32 key ∉ keys.map sha256_32)
    (hroom : (keys.length + 1) * (ceilDiv (UInt32.ofNat total) d).toNat ≤ bitCapacity d m)
    (hs : ds.Steady sha256_32 d m) (hf : Filled sha256_32 d total keys ds) :
    ∃ ds', (Mutation.write key (filler key total)).run sha256_32 ds = some ds' ∧
      Filled sha256_32 d total (keys ++ [key]) ds' := by
  obtain ⟨ds', hds'⟩ := hf.exists_write hs htotal hlt hpos hkey hroom
  obtain ⟨start, hw⟩ := writeBlocks_ok hds'
  have hfind := hw.found
  have htable := congrArg BAT.table hw.bat
  have hfsm := hw.freeSpaceMap
  rw [hf.findEntry hkey, totalNumBytes_filler key htotal] at htable
  rw [hf.findEntry hkey, hs.getNumDiskBlocks, totalNumBytes_filler key htotal] at hfind hfsm
  obtain ⟨⟨hin, -⟩, -⟩ := (FreeSpaceMap.findNFreeBlocks_eq_some_iff hpos).mp hfind
  have hstart := hf.found_eq hs hpos hroom hfind
  refine ⟨ds', by simp only [Mutation.run, hds', returned], ?_, ?_, fun b => ?_⟩
  · rw [htable, updateBAT, List.map_append, List.map_append, hf.hashes]
    rfl
  · rw [htable, updateBAT, List.map_append, hf.sizes, List.length_append, List.length_singleton,
      List.replicate_succ', List.map_singleton, UInt32.toNat_ofNat_of_lt' hlt]
  · have hmapped := mapped_allocateNew hin none b
    rw [← hfsm, Finset.mem_Ico, hstart] at hmapped
    rw [hmapped, List.length_append, List.length_singleton, Nat.succ_mul]
    have hfront : (ds.freeExisting none).Mapped b ↔ _ := hf.front b
    rw [hfront]
    omega

end Fill

/-- **A store can be filled**: keys with different hashes are written one after another for as
long as the bits last. -/
theorem fill_run (junk : Junk) (keyLengthMax : UInt32) {total : Nat} (htotal : 4 ≤ total)
    (hlt : total < 2 ^ 32) (hpos : 0 < (ceilDiv (UInt32.ofNat total) d).toNat)
    (keys : List Bytes) (hkeys : (keys.map sha256_32).Nodup)
    (hroom : keys.length * (ceilDiv (UInt32.ofNat total) d).toNat ≤ bitCapacity d m) :
    ∃ ds, (keys.map fun key => Mutation.write key (filler key total)).foldlM
        (Mutation.run sha256_32) (newStore junk d m keyLengthMax) = some ds ∧
      Filled sha256_32 d total keys ds := by
  induction keys using List.reverseRecOn with
  | nil =>
      obtain ⟨hnew, -⟩ := recoverable_newStore junk d m keyLengthMax
      have htable := table_newStore junk d m keyLengthMax
      refine ⟨_, rfl, ⟨by rw [htable]; rfl, by rw [htable]; rfl, fun b => ?_⟩⟩
      rw [hnew.sound.marks b, htable]
      simp
  | append_singleton keys key ih =>
      rw [List.map_append, List.nodup_append] at hkeys
      rw [List.length_append, List.length_singleton] at hroom
      obtain ⟨ds, hrun, hf⟩ := ih hkeys.1
        (Nat.le_trans (Nat.mul_le_mul_right _ (Nat.le_succ _)) hroom)
      have hkey : sha256_32 key ∉ keys.map sha256_32 := fun hmem =>
        hkeys.2.2 _ hmem _ (List.mem_singleton_self _) rfl
      obtain ⟨ds', hstep, hf'⟩ := hf.write htotal hlt hpos hkey hroom (steady_run hrun)
      refine ⟨ds', ?_, hf'⟩
      rw [List.map_append, List.foldlM_append, hrun]
      simp [hstep]

end DiskStorage

end RackKey
