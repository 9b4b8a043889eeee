import RackKey.Storage.WellFormed

set_option autoImplicit false

/-! # What a store holds

`contents` is the abstract view of a store: the bytes behind each key hash. Reads are
functions of it (`readBlocks_eq`, `getBlockNums_eq`), a write replaces one hash
(`WriteOk.contents`), a delete removes one (`contents_deleteBlocks`), and a list of blocks
whose blocks but the last are full is decoded from its bytes (`parseBlocks_copyBlocks`).
-/

namespace RackKey

open Words ByteFile MathUtils

/-! ## The encoding of block lists on disk -/

/-- All blocks but the last have `dataBlockSize` bytes, and the last has no more. -/
structure Chunked (dataBlockSize : UInt32) (blocks : List Block) : Prop where
  framed : ∀ b ∈ blocks, b.data.length = b.dataSize.toNat
  full : ∀ b ∈ blocks.dropLast, b.dataSize = dataBlockSize
  le : ∀ b ∈ blocks, b.dataSize.toNat ≤ dataBlockSize.toNat

theorem Chunked.tail {dataBlockSize : UInt32} {b : Block} {blocks : List Block}
    (h : Chunked dataBlockSize (b :: blocks)) :
    Chunked dataBlockSize blocks ∧ (blocks ≠ [] → b.dataSize = dataBlockSize) := by
  cases blocks with
  | nil => exact ⟨⟨by simp, by simp, by simp⟩, fun h0 => absurd rfl h0⟩
  | cons c blocks =>
      have hdrop : (b :: c :: blocks).dropLast = b :: (c :: blocks).dropLast := rfl
      refine ⟨⟨fun x hx => h.framed x (by simp [hx]), fun x hx => h.full x ?_,
        fun x hx => h.le x (by simp [hx])⟩, fun _ => h.full b ?_⟩
      · rw [hdrop]
        exact List.mem_cons_of_mem b hx
      · rw [hdrop]
        exact List.mem_cons_self

theorem copyBlocks_cons (b : Block) (blocks : List Block) :
    copyBlocks (b :: blocks) = le32 b.blockNum ++ (b.data ++ copyBlocks blocks) := by
  simp only [copyBlocks, List.flatMap_cons, List.append_assoc]

/-- The bytes that a list of blocks takes in the store. -/
theorem copyBlocks_length (blocks : List Block) :
    (copyBlocks blocks).length = (blocks.map fun b => 4 + b.data.length).sum := by
  rw [copyBlocks, List.length_flatMap]
  simp only [List.length_append, le32_length]

/-- A block takes at least the four bytes of its number. -/
theorem four_mul_length_le_copyBlocks (blocks : List Block) :
    4 * blocks.length ≤ (copyBlocks blocks).length := by
  induction blocks with
  | nil => exact Nat.le_refl _
  | cons b blocks ih =>
      rw [copyBlocks_cons, List.length_append, List.length_append, le32_length, List.length_cons]
      omega

/-- **The encoding can be read back** when all blocks but the last are full. -/
theorem parseBlocks_copyBlocks (key : Bytes) {dataBlockSize : UInt32} {blocks : List Block}
    (h : Chunked dataBlockSize blocks) (hlen : (copyBlocks blocks).length < 2 ^ 32) :
    ∀ fuel, (copyBlocks blocks).length ≤ fuel →
      parseBlocks key dataBlockSize fuel (copyBlocks blocks)
        = some (blocks.map fun b => { b with key := key }) := by
  induction blocks with
  | nil => intro fuel _; cases fuel <;> rfl
  | cons b blocks ih =>
      intro fuel hfuel
      obtain ⟨htail, hfull⟩ := h.tail
      have hb := h.framed b (by simp)
      have hle := h.le b (by simp)
      rw [copyBlocks_cons] at hlen hfuel ⊢
      simp only [List.length_append, le32_length] at hlen hfuel
      -- the size read is the size of the block
      have hsize : min dataBlockSize (UInt32.ofNat (b.data ++ copyBlocks blocks).length)
          = b.dataSize := by
        apply UInt32.toNat_inj.mp
        rw [toNat_min_ofNat _ (by rw [List.length_append]; omega), List.length_append, hb]
        by_cases hnil : blocks = []
        · rw [hnil, copyBlocks, List.flatMap_nil, List.length_nil]
          omega
        · rw [hfull hnil]
          omega
      cases fuel with
      | zero => omega
      | succ fuel =>
          obtain ⟨x, xs, hx⟩ : ∃ x xs, le32 b.blockNum ++ (b.data ++ copyBlocks blocks) = x :: xs :=
            ⟨_, _, rfl⟩
          have hread := readLe32_append b.blockNum (b.data ++ copyBlocks blocks)
          rw [hx] at hread ⊢
          simp only [parseBlocks, hread, Option.bind_eq_bind, Option.bind_some, hsize,
            List.drop_left' hb, List.take_left' hb,
            ih htail (by omega) fuel (by omega), List.map_cons]

/-- Reading a list with distinct block numbers back gives the requested blocks if all of them
are there, and throws otherwise. -/
theorem selectBlocks_copyBlocks (key : Bytes) {dataBlockSize : UInt32} {blocks : List Block}
    (h : Chunked dataBlockSize blocks) (hlen : (copyBlocks blocks).length < 2 ^ 32)
    (hn : (blocks.map Block.blockNum).Nodup) (S : Finset UInt32) :
    selectBlocks key S dataBlockSize (copyBlocks blocks)
      = if S ⊆ (blocks.map Block.blockNum).toFinset then
          .ok ((blocks.filter fun b => b.blockNum ∈ S).map fun b => { b with key := key })
        else .error .numBlocksRead := by
  have hfilter : (blocks.map fun b => { b with key := key }).filter (fun b => b.blockNum ∈ S)
      = (blocks.filter fun b => b.blockNum ∈ S).map fun b => { b with key := key } := by
    rw [List.filter_map]
    rfl
  have hcard : (blocks.filter fun b => b.blockNum ∈ S).length
      = ((blocks.map Block.blockNum).toFinset ∩ S).card := by
    have hmap : ((blocks.filter fun b => b.blockNum ∈ S).map Block.blockNum).toFinset
        = (blocks.map Block.blockNum).toFinset ∩ S := by
      ext n
      simp only [List.mem_toFinset, List.mem_map, List.mem_filter, decide_eq_true_eq,
        Finset.mem_inter]
      constructor
      · rintro ⟨b, ⟨hb, hs⟩, rfl⟩
        exact ⟨⟨b, hb, rfl⟩, hs⟩
      · rintro ⟨⟨b, hb, rfl⟩, hs⟩
        exact ⟨b, ⟨hb, hs⟩, rfl⟩
    have hnodup : ((blocks.filter fun b => b.blockNum ∈ S).map Block.blockNum).Nodup :=
      hn.sublist ((List.filter_sublist).map _)
    rw [← hmap, List.toFinset_card_of_nodup hnodup, List.length_map]
  unfold selectBlocks
  rw [parseBlocks_copyBlocks key h hlen _ (Nat.le_refl _)]
  dsimp only
  rw [hfilter, List.length_map, hcard]
  by_cases hsub : S ⊆ (blocks.map Block.blockNum).toFinset
  · rw [if_pos hsub, if_neg]
    rw [Finset.inter_eq_right.mpr hsub]
    exact fun hne => hne rfl
  · rw [if_neg hsub, if_pos]
    intro heq
    have := Finset.eq_of_subset_of_card_le Finset.inter_subset_right (Nat.le_of_eq heq.symm)
    exact hsub (Finset.inter_eq_right.mp this)

theorem parseBlockNums_copyBlocks {dataBlockSize : UInt32} {blocks : List Block}
    (h : Chunked dataBlockSize blocks) (hlen : (copyBlocks blocks).length < 2 ^ 32) :
    parseBlockNums dataBlockSize (copyBlocks blocks) = .ok (blocks.map Block.blockNum) := by
  unfold parseBlockNums
  rw [parseBlocks_copyBlocks [] h hlen _ (Nat.le_refl _)]
  simp only [List.map_map]
  rfl

namespace DiskStorage

variable {sha256_32 : Bytes → UInt32}

/-! ## The bytes behind a hash -/

/-- The bytes of the entry with the given hash. -/
def contents (ds : DiskStorage) (keyHash : UInt32) : Option Bytes :=
  (Keyed.lookup BATEntry.keyHash ds.bat.table keyHash).map fun e =>
    readAt ds.storeFile.bytes (ds.getDiskBlockOffset e.startingDiskBlockNum).toNat e.numBytes.toNat

/-- The bytes of every entry lie inside the file, so that no read meets its end. -/
def Backed (ds : DiskStorage) : Prop :=
  ∀ e ∈ ds.bat.table, (ds.getDiskBlockOffset e.startingDiskBlockNum).toNat + e.numBytes.toNat
    ≤ ds.storeFile.bytes.length

theorem table_newStore (junk : Junk) (d m keyLengthMax : UInt32) :
    (newStore junk d m keyLengthMax).bat.table = [] := by
  rw [(recoverable_newStore junk d m keyLengthMax).2.1]

theorem backed_newStore (junk : Junk) (d m keyLengthMax : UInt32) :
    (newStore junk d m keyLengthMax).Backed := by
  intro e he
  rw [table_newStore] at he
  cases he

/-- The contents depend on the header, the table and the bytes of the file only. -/
theorem contents_congr (ds ds' : DiskStorage) (hheader : ds'.header = ds.header)
    (htable : ds'.bat.table = ds.bat.table) (hbytes : ds'.storeFile.bytes = ds.storeFile.bytes) :
    (∀ k, ds'.contents k = ds.contents k) ∧ (ds.Backed → ds'.Backed) := by
  unfold contents Backed getDiskBlockOffset
  rw [hheader, htable, hbytes]
  exact ⟨fun _ => rfl, fun h => h⟩

theorem contents_eq_none {ds : DiskStorage} {key : Bytes}
    (h : ds.findEntry sha256_32 key = none) : ds.contents (sha256_32 key) = none := by
  have hlookup := ds.bat.findBATEntry_map_snd (sha256_32 key)
  rw [show ds.bat.findBATEntry (sha256_32 key) = none from h] at hlookup
  rw [contents, ← hlookup]
  rfl

theorem contents_eq_some {ds : DiskStorage} {key : Bytes} {i : Nat} {e : BATEntry}
    (h : ds.findEntry sha256_32 key = some (i, e)) :
    ds.contents (sha256_32 key) = some (readAt ds.storeFile.bytes
      (ds.getDiskBlockOffset e.startingDiskBlockNum).toNat e.numBytes.toNat) := by
  have hlookup := ds.bat.findBATEntry_map_snd (sha256_32 key)
  rw [show ds.bat.findBATEntry (sha256_32 key) = some (i, e) from h] at hlookup
  rw [contents, ← hlookup]
  rfl

/-- What an entry holds is no longer than a 32-bit size. -/
theorem contents_length_lt {ds : DiskStorage} {k : UInt32} {raw : Bytes}
    (h : ds.contents k = some raw) : raw.length < 2 ^ 32 := by
  obtain ⟨e, -, rfl⟩ := Option.map_eq_some_iff.mp h
  exact Nat.lt_of_le_of_lt (readAt_length_le _ _ _) (UInt32.toNat_lt e.numBytes)

/-- Reading an entry of a ready store gives its bytes. -/
theorem readExtent_entry {ds : DiskStorage} (hready : ds.storeFile.Ready) (hb : ds.Backed)
    (onBadRead : StorageError) {e : BATEntry} (he : e ∈ ds.bat.table) :
    ∃ f : StoreFile, f.Ready ∧ f.bytes = ds.storeFile.bytes ∧
      ds.storeFile.readExtent onBadRead (ds.getDiskBlockOffset e.startingDiskBlockNum) e.numBytes
        = (.ok (readAt ds.storeFile.bytes (ds.getDiskBlockOffset e.startingDiskBlockNum).toNat
            e.numBytes.toNat), f) :=
  ⟨_, StoreFile.ready_close_live _ _, rfl, StoreFile.readExtent_ready hready onBadRead (hb e he)⟩

/-- **`readBlocks` is a function of the contents**, and leaves the store as it is. -/
theorem readBlocks_eq (sha256_32 : Bytes → UInt32) {ds : DiskStorage}
    (hready : ds.storeFile.Ready) (hb : ds.Backed) (key : Bytes) (S : Finset UInt32)
    (dataBlockSize : UInt32) :
    ∃ f : StoreFile, f.Ready ∧ f.bytes = ds.storeFile.bytes ∧
      ds.readBlocks sha256_32 key S dataBlockSize
        = (match ds.contents (sha256_32 key) with
            | none => .error (.noEntryForRead key)
            | some raw => selectBlocks key S dataBlockSize raw, { ds with storeFile := f }) := by
  unfold readBlocks
  cases h : ds.findEntry sha256_32 key with
  | none => exact ⟨ds.storeFile, hready, rfl, by rw [contents_eq_none h]⟩
  | some ie =>
      obtain ⟨i, e⟩ := ie
      obtain ⟨f, hf, hbytes, hread⟩ :=
        readExtent_entry hready hb .badRead (findEntry_eq_some h).2.2.1
      refine ⟨f, hf, hbytes, ?_⟩
      rw [contents_eq_some h]
      simp only [hread]

/-- `getBlockNums` is a function of the contents as well. -/
theorem getBlockNums_eq (sha256_32 : Bytes → UInt32) {ds : DiskStorage}
    (hready : ds.storeFile.Ready) (hb : ds.Backed) (key : Bytes) (dataBlockSize : UInt32) :
    ∃ f : StoreFile, f.Ready ∧ f.bytes = ds.storeFile.bytes ∧
      ds.getBlockNums sha256_32 key dataBlockSize
        = (match ds.contents (sha256_32 key) with
            | none => .error (.noEntryForRead key)
            | some raw => parseBlockNums dataBlockSize raw, { ds with storeFile := f }) := by
  unfold getBlockNums
  cases h : ds.findEntry sha256_32 key with
  | none => exact ⟨ds.storeFile, hready, rfl, by rw [contents_eq_none h]⟩
  | some ie =>
      obtain ⟨i, e⟩ := ie
      obtain ⟨f, hf, hbytes, hread⟩ :=
        readExtent_entry hready hb .badReadBlockNums (findEntry_eq_some h).2.2.1
      refine ⟨f, hf, hbytes, ?_⟩
      rw [contents_eq_some h]
      simp only [hread]

/-! ## Where the bytes lie -/

section Geometry

variable {d m : UInt32} {ds ds' : DiskStorage}

theorem Intact.numBits_eq (hi : ds.Intact d m) (hl : Layout d m) :
    ds.freeSpaceMap.numBits = (ceilDiv m d).toNat := by
  rw [hi.numBits, bitCapacity, ceilDiv_eight hl.multiple]

theorem Intact.offset (hi : ds.Intact d m) (hl : Layout d m) {b : UInt32}
    (hb : b.toNat < ds.freeSpaceMap.numBits) :
    (ds.getDiskBlockOffset b).toNat
      = 28 + 62 * ds.freeSpaceMap.numBits + d.toNat * b.toNat := by
  rw [hi.numBits_eq hl] at hb ⊢
  rw [getDiskBlockOffset, hi.header]
  exact getDiskBlockOffset_toNat hl.fits hb hl.pos

/-- The disk blocks follow one another in the file, and no offset wraps. -/
def Linear (ds : DiskStorage) : Prop :=
  ∀ b : UInt32, b.toNat < ds.freeSpaceMap.numBits →
    (ds.getDiskBlockOffset b).toNat
      = ds.header.blockStoreOffset.toNat + ds.header.diskBlockSize.toNat * b.toNat

theorem Intact.blockStoreOffset (hi : ds.Intact d m) (hl : Layout d m) :
    ds.header.blockStoreOffset.toNat = 28 + 62 * ds.freeSpaceMap.numBits := by
  have hfits := hl.fits
  unfold FitsLayout at hfits
  dsimp only at hfits
  have hcap : (ceilDiv m d).toNat ≤ (ceilDiv m d).toNat * d.toNat :=
    Nat.le_mul_of_pos_right _ hl.pos
  rw [hi.numBits_eq hl, hi.header]
  simp only [initialiseHeader, UInt32.toNat_add, UInt32.toNat_mul, UInt32.reduceToNat]
  omega

theorem Intact.linear (hi : ds.Intact d m) (hl : Layout d m) : ds.Linear := by
  intro b hb
  rw [hi.offset hl hb, hi.blockStoreOffset hl, hi.header]
  rfl

/-- The bytes of two disjoint extents do not overlap in the file. -/
theorem Linear.separate (hlin : ds.Linear) {s s' n n' : UInt32}
    (hN : 0 < (ds.getNumDiskBlocks n).toNat) (hN' : 0 < (ds.getNumDiskBlocks n').toNat)
    (hin : s.toNat + (ds.getNumDiskBlocks n).toNat ≤ ds.freeSpaceMap.numBits)
    (hin' : s'.toNat + (ds.getNumDiskBlocks n').toNat ≤ ds.freeSpaceMap.numBits)
    (hd : Disjoint (Finset.Ico s.toNat (s.toNat + (ds.getNumDiskBlocks n).toNat))
      (Finset.Ico s'.toNat (s'.toNat + (ds.getNumDiskBlocks n').toNat))) :
    (ds.getDiskBlockOffset s).toNat + n.toNat ≤ (ds.getDiskBlockOffset s').toNat ∨
      (ds.getDiskBlockOffset s').toNat + n'.toNat ≤ (ds.getDiskBlockOffset s).toNat := by
  have hcover : ∀ x : UInt32, 0 < (ds.getNumDiskBlocks x).toNat →
      x.toNat ≤ ds.header.diskBlockSize.toNat * (ds.getNumDiskBlocks x).toNat := by
    intro x hx
    calc x.toNat ≤ (ds.getNumDiskBlocks x).toNat * ds.header.diskBlockSize.toNat :=
          (le_ceilDiv_mul hx).1
      _ = ds.header.diskBlockSize.toNat * (ds.getNumDiskBlocks x).toNat := Nat.mul_comm _ _
  have hn := hcover n hN
  have hn' := hcover n' hN'
  rw [hlin s (by omega), hlin s' (by omega)]
  rcases Extents.before_or_after hN hN' hd with h | h
  · have hmul := Nat.mul_le_mul_left ds.header.diskBlockSize.toNat h
    rw [Nat.mul_add] at hmul
    omega
  · have hmul := Nat.mul_le_mul_left ds.header.diskBlockSize.toNat h
    rw [Nat.mul_add] at hmul
    omega

/-- The extent of an entry reads what it read before data was written outside of it, and the
table in front of the first disk block. -/
theorem Linear.readAt_other (hlin : ds.Linear) {start total : UInt32} {y : BATEntry}
    (hN : 0 < (ds.getNumDiskBlocks total).toNat)
    (hin : start.toNat + (ds.getNumDiskBlocks total).toNat ≤ ds.freeSpaceMap.numBits)
    (hypos : 0 < (ds.getNumDiskBlocks y.numBytes).toNat)
    (hyin : y.startingDiskBlockNum.toNat + (ds.getNumDiskBlocks y.numBytes).toNat
      ≤ ds.freeSpaceMap.numBits)
    (hfree : Disjoint (Finset.Ico start.toNat
      (start.toNat + (ds.getNumDiskBlocks total).toNat)) (y.extent ds.header))
    {f data table : Bytes}
    (hyb : (ds.getDiskBlockOffset y.startingDiskBlockNum).toNat + y.numBytes.toNat ≤ f.length)
    (hdata : data.length ≤ total.toNat)
    (htable : Header.size + table.length ≤ ds.header.blockStoreOffset.toNat) :
    readAt (writeAt 0 (writeAt 0 f (ds.getDiskBlockOffset start).toNat data) Header.size table)
        (ds.getDiskBlockOffset y.startingDiskBlockNum).toNat y.numBytes.toNat
      = readAt f (ds.getDiskBlockOffset y.startingDiskBlockNum).toNat y.numBytes.toNat := by
  have hyoff := hlin y.startingDiskBlockNum (by omega)
  rw [readAt_writeAt_after 0 _ _ (by omega)]
  -- the new extent lies before or after that of the entry
  rcases hlin.separate hN hypos hin hyin hfree with h | h
  · exact readAt_writeAt_after 0 _ _ (by omega)
  · exact readAt_writeAt_before 0 _ h hyb

section Write

variable {key : Bytes} {dataBlocks : List Block} {start : UInt32}

/-- The table that a write leaves ends before the first block. -/
theorem WriteOk.table_before (hl : Layout d m) (hi : ds.Intact d m)
    (hw : WriteOk sha256_32 ds key dataBlocks start ds') :
    Header.size + ds'.bat.bytes.length ≤ ds.header.blockStoreOffset.toNat := by
  obtain ⟨hsound, -, hbits⟩ := hw.sound hi.sound
  have hlen := hsound.table.length_le
  rw [hbits] at hlen
  rw [hi.blockStoreOffset hl, BAT.bytes_length]
  simp only [Header.size, BATEntry.size]
  omega

/-- A write of a new key that returned has put its entry at the end of the table. -/
theorem WriteOk.findEntry_new (hw : WriteOk sha256_32 ds key dataBlocks start ds')
    (hnone : ds.findEntry sha256_32 key = none) :
    ds'.findEntry sha256_32 key = some (ds.bat.table.length,
      ⟨KeyField.ofKey key, sha256_32 key, start, totalNumBytes dataBlocks⟩) := by
  have hfind : Keyed.find BATEntry.keyHash (ds.bat.table ++
      [⟨KeyField.ofKey key, sha256_32 key, start, totalNumBytes dataBlocks⟩]) (sha256_32 key)
      = some ds.bat.table.length := Keyed.find_append (BAT.findBATEntry_eq_none.mp hnone)
  rw [DiskStorage.findEntry, BAT.findBATEntry, hw.bat, hnone]
  simp only [updateBAT] at hfind ⊢
  rw [hfind]
  simp

/-- The key of a write that returned is found, with the entry of that write. -/
theorem WriteOk.findEntry (hw : WriteOk sha256_32 ds key dataBlocks start ds') :
    ∃ i, ds'.findEntry sha256_32 key = some (i,
      newEntry sha256_32 key start (totalNumBytes dataBlocks) (ds.findEntry sha256_32 key)) := by
  cases h : ds.findEntry sha256_32 key with
  | none => exact ⟨_, hw.findEntry_new h⟩
  | some ie =>
      obtain ⟨i, e⟩ := ie
      obtain ⟨hf, hi, -, hk⟩ := findEntry_eq_some h
      obtain ⟨hlt, -⟩ := List.getElem?_eq_some_iff.mp hi
      rw [← hk] at hf
      have hfind := Keyed.find_set (x := { e with
        startingDiskBlockNum := start, numBytes := totalNumBytes dataBlocks }) hf
      refine ⟨i, ?_⟩
      rw [DiskStorage.findEntry, BAT.findBATEntry, hw.bat, h, ← hk]
      simp only [updateBAT, newEntry] at hfind ⊢
      rw [hfind]
      simp [hlt]

/-- A write leaves the entries that the other hashes look up. -/
theorem WriteOk.lookup_other (hw : WriteOk sha256_32 ds key dataBlocks start ds') {k : UInt32}
    (hk : k ≠ sha256_32 key) :
    Keyed.lookup BATEntry.keyHash ds'.bat.table k
      = Keyed.lookup BATEntry.keyHash ds.bat.table k := by
  rw [hw.bat]
  cases h : ds.findEntry sha256_32 key with
  | none => exact Keyed.lookup_append_ne hk
  | some ie =>
      obtain ⟨i, e⟩ := ie
      obtain ⟨hf, -, -, hek⟩ := findEntry_eq_some h
      rw [← hek] at hf hk
      exact Keyed.lookup_set_ne (x := { e with
        startingDiskBlockNum := start, numBytes := totalNumBytes dataBlocks }) hf hk

/-- The entries after a write are the one of the write and entries that were there before. -/
theorem WriteOk.of_mem_table (hw : WriteOk sha256_32 ds key dataBlocks start ds') {y : BATEntry}
    (hy : y ∈ ds'.bat.table) :
    y = newEntry sha256_32 key start (totalNumBytes dataBlocks) (ds.findEntry sha256_32 key) ∨
      y ∈ ds.bat.table := by
  rw [hw.bat] at hy
  cases h : ds.findEntry sha256_32 key with
  | none =>
      rw [h] at hy
      rcases List.mem_append.mp hy with hy | hy
      · exact Or.inr hy
      · exact Or.inl (List.mem_singleton.mp hy)
  | some ie =>
      rw [h] at hy
      exact (List.mem_or_eq_of_mem_set hy).symm

/-- The new extent reads the data. -/
theorem WriteOk.readAt_self (hlin : ds.Linear) (hready : ds.storeFile.Ready)
    (hw : WriteOk sha256_32 ds key dataBlocks start ds')
    (htable : Header.size + ds'.bat.bytes.length ≤ ds.header.blockStoreOffset.toNat) :
    readAt ds'.storeFile.bytes (ds.getDiskBlockOffset start).toNat
      (totalNumBytes dataBlocks).toNat = copyBlocks dataBlocks := by
  obtain ⟨hN, hin, -⟩ := hw.run
  rw [(ds.freeExisting_capacity _).2] at hin
  have hoff := hlin start (by omega)
  -- the table is written after the data, in front of it
  rw [(hw.bytes hready).2, readAt_writeAt_after 0 _ _ (by omega), ← hw.copied]
  exact readAt_writeAt_self 0 _ _ _

theorem WriteOk.getDiskBlockOffset (hw : WriteOk sha256_32 ds key dataBlocks start ds')
    (b : UInt32) : ds'.getDiskBlockOffset b = ds.getDiskBlockOffset b := by
  simp only [DiskStorage.getDiskBlockOffset, hw.header]

/-- The table that a write leaves: the entry of its key, and the other entries. -/
theorem WriteOk.mem_table (hi : ds.Intact d m)
    (hw : WriteOk sha256_32 ds key dataBlocks start ds') :
    let x := newEntry sha256_32 key start (totalNumBytes dataBlocks) (ds.findEntry sha256_32 key)
    (ds'.bat.table.map BATEntry.keyHash).Nodup ∧
      ∀ y, y ∈ ds'.bat.table ↔ y = x ∨ (y ∈ ds.bat.table ∧ y.keyHash ≠ sha256_32 key) := by
  have hmem := mem_updateBAT sha256_32 hi.sound.table.hashes key start (totalNumBytes dataBlocks)
  rwa [← hw.bat] at hmem

theorem WriteOk.backed (hlin : ds.Linear) (hready : ds.storeFile.Ready) (hb : ds.Backed)
    (hw : WriteOk sha256_32 ds key dataBlocks start ds')
    (htable : Header.size + ds'.bat.bytes.length ≤ ds.header.blockStoreOffset.toNat) :
    ds'.Backed := by
  have hgrow : ds.storeFile.bytes.length ≤ ds'.storeFile.bytes.length := by
    rw [(hw.bytes hready).2]
    exact Nat.le_trans (length_le_writeAt_length 0 _ _ _) (length_le_writeAt_length 0 _ _ _)
  have hself := hw.readAt_self hlin hready htable
  have hcopied : (copyBlocks dataBlocks).length = (totalNumBytes dataBlocks).toNat := hw.copied
  intro y hy
  rw [hw.getDiskBlockOffset]
  rcases hw.of_mem_table hy with rfl | hy
  · rw [newEntry_start, newEntry_numBytes]
    rw [← hcopied] at hself ⊢
    refine le_length_of_readAt _ _ hself fun hnil => ?_
    -- an extent is not empty, so its data is not
    have hlt := (le_ceilDiv_mul hw.run.1).2
    have hmul : ds.header.diskBlockSize.toNat
        ≤ (ceilDiv (totalNumBytes dataBlocks) ds.header.diskBlockSize).toNat
          * ds.header.diskBlockSize.toNat := Nat.le_mul_of_pos_left _ hw.run.1
    rw [hnil, List.length_nil] at hcopied
    omega
  · exact Nat.le_trans (hb y hy) hgrow

/-- A write changes the contents of its own hash only, when its run of blocks does not meet the
extents of the other hashes, nor the table the blocks in the file. -/
theorem WriteOk.contents_of_separate (hlin : ds.Linear) (hready : ds.storeFile.Ready)
    (hb : ds.Backed) (hw : WriteOk sha256_32 ds key dataBlocks start ds')
    (hother : ∀ y ∈ ds.bat.table, y.keyHash ≠ sha256_32 key →
      0 < (ds.getNumDiskBlocks y.numBytes).toNat ∧
      y.startingDiskBlockNum.toNat + (ds.getNumDiskBlocks y.numBytes).toNat
        ≤ ds.freeSpaceMap.numBits ∧
      Disjoint (Finset.Ico start.toNat
        (start.toNat + (ds.getNumDiskBlocks (totalNumBytes dataBlocks)).toNat))
        (y.extent ds.header))
    (htable : Header.size + ds'.bat.bytes.length ≤ ds.header.blockStoreOffset.toNat) :
    ds'.Backed ∧ ∀ k, ds'.contents k
      = if k = sha256_32 key then some (copyBlocks dataBlocks) else ds.contents k := by
  refine ⟨hw.backed hlin hready hb htable, fun k => ?_⟩
  by_cases hk : k = sha256_32 key
  · obtain ⟨i, hfind⟩ := hw.findEntry
    rw [if_pos hk, hk, contents_eq_some hfind, hw.getDiskBlockOffset, newEntry_start,
      newEntry_numBytes, hw.readAt_self hlin hready htable]
  · rw [if_neg hk, DiskStorage.contents, DiskStorage.contents, hw.lookup_other hk]
    cases hy : Keyed.lookup BATEntry.keyHash ds.bat.table k with
    | none => rfl
    | some y =>
        obtain ⟨hmemy, hyk⟩ := Keyed.lookup_eq_some hy
        obtain ⟨hypos, hyin, hfree⟩ := hother y hmemy (by rw [hyk]; exact hk)
        obtain ⟨hN, hin, -⟩ := hw.run
        rw [(ds.freeExisting_capacity _).2] at hin
        have hcopied : (copyBlocks dataBlocks).length = (totalNumBytes dataBlocks).toNat :=
          hw.copied
        rw [Option.map_some, Option.map_some, hw.getDiskBlockOffset, (hw.bytes hready).2,
          hlin.readAt_other hN hin hypos hyin hfree (hb y hmemy) (Nat.le_of_eq hcopied) htable]

/-- A write changes the contents of its own hash only, when the table and the blocks do not meet
in the file. -/
theorem WriteOk.contents_of_linear (hlin : ds.Linear) (hi : ds.Intact d m) (hb : ds.Backed)
    (hw : WriteOk sha256_32 ds key dataBlocks start ds')
    (htable : Header.size + ds'.bat.bytes.length ≤ ds.header.blockStoreOffset.toNat) :
    ds'.Backed ∧ ∀ k, ds'.contents k
      = if k = sha256_32 key then some (copyBlocks dataBlocks) else ds.contents k :=
  hw.contents_of_separate hlin hi.ready hb
    (fun y hy hk => ⟨hi.sound.table.nonempty y hy, hi.sound.table.inside y hy,
      (hw.extent hi.sound).2.2 y hy hk⟩) htable

/-- **A write changes the contents of its own hash only.** -/
theorem WriteOk.contents (hl : Layout d m) (hi : ds.Intact d m) (hb : ds.Backed)
    (hw : WriteOk sha256_32 ds key dataBlocks start ds') :
    ds'.Backed ∧ ∀ k, ds'.contents k
      = if k = sha256_32 key then some (copyBlocks dataBlocks) else ds.contents k :=
  hw.contents_of_linear (hi.linear hl) hi hb (hw.table_before hl hi)

end Write

/-- **A delete takes its own hash out of the contents.** -/
theorem contents_deleteBlocks (hn : (ds.bat.table.map BATEntry.keyHash).Nodup) {key : Bytes}
    {i : Nat} {e : BATEntry} (h : ds.findEntry sha256_32 key = some (i, e)) (fsm : FreeSpaceMap)
    (n : UInt32) :
    let ds' := { ds with bat := ⟨n, ds.bat.table.eraseIdx i⟩, freeSpaceMap := fsm }
    (ds.Backed → Backed ds') ∧
      ∀ k, contents ds' k = if k = sha256_32 key then none else ds.contents k := by
  have hf := (findEntry_eq_some h).1
  have hmem : ∀ y, y ∈ ds.bat.table.eraseIdx i ↔ y ∈ ds.bat.table ∧ y.keyHash ≠ sha256_32 key :=
    fun y => Keyed.mem_eraseIdx hn hf
  refine ⟨fun hb y hy => hb y ((hmem y).mp hy).1, fun k => ?_⟩
  show (Keyed.lookup BATEntry.keyHash (ds.bat.table.eraseIdx i) k).map _ = _
  by_cases hk : k = sha256_32 key
  · have hnone : Keyed.lookup BATEntry.keyHash (ds.bat.table.eraseIdx i) k = none := by
      refine Keyed.lookup_eq_none.mpr fun y hy => ?_
      rw [hk]
      exact ((hmem y).mp hy).2
    rw [if_pos hk, hnone]
    rfl
  · have hlookup : Keyed.lookup BATEntry.keyHash (ds.bat.table.eraseIdx i) k
        = Keyed.lookup BATEntry.keyHash ds.bat.table k :=
      Keyed.lookup_congr hn (Keyed.nodup_eraseIdx hn) hk fun y hy =>
        (hmem y).trans (and_iff_left hy)
    rw [if_neg hk, hlookup]
    rfl

end Geometry

end DiskStorage

end RackKey
