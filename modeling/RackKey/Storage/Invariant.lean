import RackKey.Lib.Extents
import RackKey.Storage.DiskStorage

set_option autoImplicit false

/-! # The invariant of a store

`Sound` is what the in-memory state of a store keeps: distinct hashes, disjoint non-empty
extents inside the bitmap, and a map that marks exactly these extents. A write or a delete that
returns is characterised once (`writeBlocks_ok`, `deleteBlocks_ok`), and keeps a store sound
(`WriteOk.sound`, `sound_deleteBlocks`).

The bound on the extents is the number of bits of the map. It is the capacity of the store
exactly when that is a multiple of 8.
-/

namespace RackKey

open Words ByteFile MathUtils

/-! ## Tables -/

/-- A table in order: the entries have distinct hashes and own disjoint non-empty ranges of
blocks below `bound`. -/
structure TableOk (h : Header) (bound : Nat) (t : List BATEntry) : Prop where
  hashes : (t.map BATEntry.keyHash).Nodup
  nonempty : ∀ e ∈ t, 0 < (h.getNumDiskBlocks e.numBytes).toNat
  inside : ∀ e ∈ t, e.startingDiskBlockNum.toNat + (h.getNumDiskBlocks e.numBytes).toNat ≤ bound
  disjoint : ∀ e ∈ t, ∀ e' ∈ t, e.keyHash ≠ e'.keyHash → Disjoint (e.extent h) (e'.extent h)

theorem TableOk.nil (h : Header) (bound : Nat) : TableOk h bound [] where
  hashes := List.nodup_nil
  nonempty := by intro e he; cases he
  inside := by intro e he; cases he
  disjoint := by intro e he; cases he

instance (h : Header) :
    Std.Symm fun e e' : BATEntry => Disjoint (e.extent h) (e'.extent h) :=
  ⟨fun _ _ hd => hd.symm⟩

theorem TableOk.pairwise {h : Header} {bound : Nat} {t : List BATEntry} (ht : TableOk h bound t) :
    t.Pairwise fun e e' => Disjoint (e.extent h) (e'.extent h) :=
  (Keyed.pairwise_iff ht.hashes).mpr ht.disjoint

/-- Entries that own disjoint non-empty ranges of blocks below `bound` are at most `bound` many. -/
theorem length_le_of_extents {h : Header} {bound : Nat} {t : List BATEntry}
    (hd : t.Pairwise fun e e' => Disjoint (e.extent h) (e'.extent h))
    (hentry : ∀ e ∈ t, 0 < (h.getNumDiskBlocks e.numBytes).toNat ∧
      e.startingDiskBlockNum.toNat + (h.getNumDiskBlocks e.numBytes).toNat ≤ bound) :
    t.length ≤ bound := by
  have hlen := Extents.length_le_of_nonempty (l := t.map (BATEntry.extent h)) (c := bound)
    (List.pairwise_map.mpr hd) ?_ ?_
  · rwa [List.length_map] at hlen
  · intro s hs x hx
    obtain ⟨e, he, rfl⟩ := List.mem_map.mp hs
    have hin := (hentry e he).2
    have := (Finset.mem_Ico.mp hx).2
    omega
  · intro s hs
    obtain ⟨e, he, rfl⟩ := List.mem_map.mp hs
    have hpos := (hentry e he).1
    exact ⟨e.startingDiskBlockNum.toNat, Finset.mem_Ico.mpr ⟨Nat.le_refl _, by omega⟩⟩

theorem TableOk.length_le {h : Header} {bound : Nat} {t : List BATEntry} (ht : TableOk h bound t) :
    t.length ≤ bound :=
  length_le_of_extents ht.pairwise fun e he => ⟨ht.nonempty e he, ht.inside e he⟩

/-- A table stays in order when members leave and one entry with a new hash and free blocks
comes in. -/
theorem TableOk.replace {h : Header} {bound : Nat} {t t' : List BATEntry} (ht : TableOk h bound t)
    {x : BATEntry} (hn : (t'.map BATEntry.keyHash).Nodup)
    (hmem : ∀ y, y ∈ t' ↔ y = x ∨ (y ∈ t ∧ y.keyHash ≠ x.keyHash))
    (hpos : 0 < (h.getNumDiskBlocks x.numBytes).toNat)
    (hin : x.startingDiskBlockNum.toNat + (h.getNumDiskBlocks x.numBytes).toNat ≤ bound)
    (hfree : ∀ y ∈ t, y.keyHash ≠ x.keyHash → Disjoint (x.extent h) (y.extent h)) :
    TableOk h bound t' where
  hashes := hn
  nonempty := by
    intro y hy
    rcases (hmem y).mp hy with rfl | ⟨hy, -⟩
    · exact hpos
    · exact ht.nonempty y hy
  inside := by
    intro y hy
    rcases (hmem y).mp hy with rfl | ⟨hy, -⟩
    · exact hin
    · exact ht.inside y hy
  disjoint := by
    intro y hy z hz hne
    rcases (hmem y).mp hy with rfl | ⟨hy, hyx⟩
    · rcases (hmem z).mp hz with rfl | ⟨hz, -⟩
      · exact absurd rfl hne
      · exact hfree z hz hne.symm
    · rcases (hmem z).mp hz with rfl | ⟨hz, -⟩
      · exact (hfree y hy hyx).symm
      · exact ht.disjoint y hy z hz hne

theorem TableOk.erase {h : Header} {bound : Nat} {t : List BATEntry} (ht : TableOk h bound t)
    (i : Nat) : TableOk h bound (t.eraseIdx i) where
  hashes := Keyed.nodup_eraseIdx ht.hashes
  nonempty := fun e he => ht.nonempty e (List.mem_of_mem_eraseIdx he)
  inside := fun e he => ht.inside e (List.mem_of_mem_eraseIdx he)
  disjoint := fun e he e' he' =>
    ht.disjoint e (List.mem_of_mem_eraseIdx he) e' (List.mem_of_mem_eraseIdx he')

namespace DiskStorage

/-- The map marks exactly the blocks of the entries' extents. -/
def MarksExactly (ds : DiskStorage) : Prop :=
  ∀ b, ds.freeSpaceMap.Mapped b ↔ ∃ e ∈ ds.bat.table, b ∈ e.extent ds.header

structure Sound (ds : DiskStorage) : Prop where
  numEntries : ds.bat.numEntries.toNat = ds.bat.table.length
  table : TableOk ds.header ds.freeSpaceMap.numBits ds.bat.table
  marks : ds.MarksExactly

variable {sha256_32 : Bytes → UInt32}

/-! ## What one call can do -/

/-- The entry a successful `writeBlocks` leaves for its key. -/
def newEntry (sha256_32 : Bytes → UInt32) (key : Bytes) (start numTotalBytes : UInt32) :
    Option (Nat × BATEntry) → BATEntry
  | some (_, e) => { e with startingDiskBlockNum := start, numBytes := numTotalBytes }
  | none => ⟨KeyField.ofKey key, sha256_32 key, start, numTotalBytes⟩

/-- Everything a `writeBlocks` that returns normally has done. -/
structure WriteOk (sha256_32 : Bytes → UInt32) (ds : DiskStorage) (key : Bytes)
    (dataBlocks : List Block) (start : UInt32) (ds' : DiskStorage) : Prop where
  nonempty : dataBlocks ≠ []
  found : (ds.freeExisting (ds.findEntry sha256_32 key)).findNFreeBlocks
    (ds.getNumDiskBlocks (totalNumBytes dataBlocks)) = some start
  copied : (copyBlocks dataBlocks).length = (totalNumBytes dataBlocks).toNat
  written : (ds.storeFile.writeExtent (ds.getDiskBlockOffset start) (copyBlocks dataBlocks)).1
    = .ok ()
  header : ds'.header = ds.header
  keyLengthMax : ds'.keyLengthMax = ds.keyLengthMax
  bat : ds'.bat = updateBAT sha256_32 ds.bat key start (totalNumBytes dataBlocks)
    (ds.findEntry sha256_32 key)
  freeSpaceMap : ds'.freeSpaceMap
    = allocateNew (ds.freeExisting (ds.findEntry sha256_32 key)) start
        (ds.getNumDiskBlocks (totalNumBytes dataBlocks)) (ds.findEntry sha256_32 key)
  storeFile : ds'.storeFile
    = (ds.storeFile.writeExtent (ds.getDiskBlockOffset start) (copyBlocks dataBlocks)).2.writeBAT
        ds'.bat

theorem writeBlocks_ok {ds ds' : DiskStorage} {key : Bytes} {dataBlocks : List Block}
    (h : ds.writeBlocks sha256_32 key dataBlocks = (.ok (), ds')) :
    ∃ start, WriteOk sha256_32 ds key dataBlocks start ds' := by
  unfold writeBlocks at h
  by_cases h0 : dataBlocks.length = 0
  · rw [if_pos h0] at h
    simp at h
  -- what fails before the file is written fails with an error, not with `ok`
  rw [if_neg h0] at h
  dsimp only at h
  cases hf : (ds.freeExisting (ds.findEntry sha256_32 key)).findNFreeBlocks
      (ds.getNumDiskBlocks (totalNumBytes dataBlocks)) with
  | none =>
      rw [hf] at h
      simp at h
  | some start =>
      rw [hf] at h
      dsimp only at h
      by_cases hc : (copyBlocks dataBlocks).length ≠ (totalNumBytes dataBlocks).toNat
      · rw [if_pos hc] at h
        simp at h
      rw [if_neg hc] at h
      cases hw : (ds.storeFile.writeExtent (ds.getDiskBlockOffset start)
          (copyBlocks dataBlocks)).1 with
      | error err =>
          rw [hw] at h
          simp at h
      | ok u =>
          rw [hw] at h
          obtain rfl := (Prod.mk.inj h).2
          exact ⟨start,
            { nonempty := fun hnil => h0 (by rw [hnil]; rfl)
              found := hf
              copied := by omega
              written := hw
              header := rfl
              keyLengthMax := rfl
              bat := rfl
              freeSpaceMap := rfl
              storeFile := rfl }⟩

/-- A `writeBlocks` that finds room, copies what is announced and has a ready stream returns. -/
theorem writeBlocks_of_room (sha256_32 : Bytes → UInt32) {ds : DiskStorage}
    (hready : ds.storeFile.Ready) {key : Bytes} {dataBlocks : List Block} (hne : dataBlocks ≠ [])
    (hfound : (ds.freeExisting (ds.findEntry sha256_32 key)).findNFreeBlocks
      (ds.getNumDiskBlocks (totalNumBytes dataBlocks)) ≠ none)
    (hcopied : (copyBlocks dataBlocks).length = (totalNumBytes dataBlocks).toNat) :
    (ds.writeBlocks sha256_32 key dataBlocks).1 = .ok () := by
  obtain ⟨start, hstart⟩ := Option.ne_none_iff_exists'.mp hfound
  unfold writeBlocks
  rw [if_neg (fun h0 => hne (List.eq_nil_of_length_eq_zero h0))]
  simp only [hstart]
  rw [if_neg (fun h => h hcopied), StoreFile.writeExtent_ready hready]

/-- A `deleteBlocks` that returns normally has erased the entry found and freed its blocks;
the file is not touched. -/
theorem deleteBlocks_ok {ds ds' : DiskStorage} {key : Bytes}
    (h : ds.deleteBlocks sha256_32 key = (.ok (), ds')) :
    ∃ i e, ds.findEntry sha256_32 key = some (i, e) ∧
      ds' = { ds with
        bat := { numEntries := ds.bat.numEntries - 1, table := ds.bat.table.eraseIdx i }
        freeSpaceMap :=
          ds.freeSpaceMap.freeNBlocks e.startingDiskBlockNum
            (ds.getNumDiskBlocks e.numBytes) } := by
  unfold deleteBlocks at h
  cases hf : ds.findEntry sha256_32 key with
  | none =>
      rw [hf] at h
      simp at h
  | some ie =>
      obtain ⟨i, e⟩ := ie
      rw [hf] at h
      exact ⟨i, e, rfl, (Prod.mk.inj h).2.symm⟩

/-- A `deleteBlocks` that throws has changed nothing. -/
theorem deleteBlocks_error {ds ds' : DiskStorage} {key : Bytes} {err : StorageError}
    (h : ds.deleteBlocks sha256_32 key = (.error err, ds')) : ds' = ds := by
  unfold deleteBlocks at h
  cases hf : ds.findEntry sha256_32 key with
  | none =>
      rw [hf] at h
      exact (Prod.mk.inj h).2.symm
  | some ie =>
      rw [hf] at h
      simp at h

/-! ## The in-memory state -/

theorem findEntry_eq_some {ds : DiskStorage} {key : Bytes} {i : Nat} {e : BATEntry}
    (h : ds.findEntry sha256_32 key = some (i, e)) :
    Keyed.find BATEntry.keyHash ds.bat.table (sha256_32 key) = some i
      ∧ ds.bat.table[i]? = some e ∧ e ∈ ds.bat.table ∧ e.keyHash = sha256_32 key :=
  BAT.findBATEntry_eq_some h

@[simp] theorem newEntry_keyHash (sha256_32 : Bytes → UInt32) (ds : DiskStorage) (key : Bytes)
    (start n : UInt32) :
    (newEntry sha256_32 key start n (ds.findEntry sha256_32 key)).keyHash = sha256_32 key := by
  cases h : ds.findEntry sha256_32 key with
  | none => rfl
  | some ie =>
      obtain ⟨i, e⟩ := ie
      exact (findEntry_eq_some h).2.2.2

@[simp] theorem newEntry_start (key : Bytes) (start n : UInt32) (o : Option (Nat × BATEntry)) :
    (newEntry sha256_32 key start n o).startingDiskBlockNum = start := by
  cases o <;> rfl

@[simp] theorem newEntry_numBytes (key : Bytes) (start n : UInt32) (o : Option (Nat × BATEntry)) :
    (newEntry sha256_32 key start n o).numBytes = n := by
  cases o <;> rfl

/-- The extent of the new entry is the run that was found. -/
theorem newEntry_extent (h : Header) (key : Bytes) (start n : UInt32)
    (o : Option (Nat × BATEntry)) :
    (newEntry sha256_32 key start n o).extent h
      = Finset.Ico start.toNat (start.toNat + (h.getNumDiskBlocks n).toNat) := by
  rw [BATEntry.extent, newEntry_start, newEntry_numBytes]

/-- The table after a write: the new entry, and the entries of the other hashes. -/
theorem mem_updateBAT (sha256_32 : Bytes → UInt32) {ds : DiskStorage}
    (hn : (ds.bat.table.map BATEntry.keyHash).Nodup)
    (key : Bytes) (start n : UInt32) :
    let t := (updateBAT sha256_32 ds.bat key start n (ds.findEntry sha256_32 key)).table
    (t.map BATEntry.keyHash).Nodup ∧
      ∀ y, y ∈ t ↔ y = newEntry sha256_32 key start n (ds.findEntry sha256_32 key) ∨
        (y ∈ ds.bat.table ∧ y.keyHash ≠ sha256_32 key) := by
  have hk := newEntry_keyHash sha256_32 ds key start n
  cases h : ds.findEntry sha256_32 key with
  | none =>
      rw [h] at hk
      -- a new key: its entry is appended
      have hf := BAT.findBATEntry_eq_none.mp h
      rw [← hk] at hf
      exact ⟨Keyed.nodup_append hn hf, fun y => Keyed.mem_append hf⟩
  | some ie =>
      obtain ⟨i, e⟩ := ie
      -- a stored key: its entry is replaced in place
      have hf := (findEntry_eq_some h).1
      rw [h] at hk
      rw [← hk] at hf
      refine ⟨?_, ?_⟩
      · have hmap := Keyed.map_set hf
        rw [← hmap] at hn
        exact hn
      · intro y
        have hmem := Keyed.mem_set (y := y) hn hf
        rw [hk] at hmem
        exact hmem

/-- Freeing the blocks of an existing entry clears exactly the bits of its extent. -/
theorem mapped_freeExisting_iff (sha256_32 : Bytes → UInt32) {ds : DiskStorage}
    (hin : ∀ e ∈ ds.bat.table, e.startingDiskBlockNum.toNat
      + (ds.header.getNumDiskBlocks e.numBytes).toNat ≤ ds.freeSpaceMap.numBits)
    (key : Bytes) (b : Nat) :
    (ds.freeExisting (ds.findEntry sha256_32 key)).Mapped b ↔ ds.freeSpaceMap.Mapped b ∧
      ∀ i e, ds.findEntry sha256_32 key = some (i, e) → b ∉ e.extent ds.header := by
  cases h : ds.findEntry sha256_32 key with
  | none => exact ⟨fun hb => ⟨hb, fun i e he => (by cases he)⟩, fun hb => hb.1⟩
  | some ie =>
      obtain ⟨i, x⟩ := ie
      refine (FreeSpaceMap.mapped_freeNBlocks (hin x (findEntry_eq_some h).2.2.1) b).trans ?_
      constructor
      · rintro ⟨hnot, hb⟩
        refine ⟨hb, fun j e he => ?_⟩
        obtain ⟨-, rfl⟩ := Prod.mk.inj (Option.some.inj he)
        exact hnot
      · rintro ⟨hb, hnot⟩
        exact ⟨hnot i x rfl, hb⟩

/-! The entries that a call on a key does not touch. -/

/-- The table without the entry found. -/
def others (t : List BATEntry) : Option (Nat × BATEntry) → List BATEntry
  | none => t
  | some (i, _) => t.eraseIdx i

theorem others_sublist (t : List BATEntry) (o : Option (Nat × BATEntry)) :
    (others t o).Sublist t := by
  cases o with
  | none => exact List.Sublist.refl t
  | some ie => exact List.eraseIdx_sublist t ie.1

theorem table_perm {ds : DiskStorage} {key : Bytes} {i : Nat} {e : BATEntry}
    (h : ds.findEntry sha256_32 key = some (i, e)) :
    ds.bat.table.Perm (e :: others ds.bat.table (some (i, e))) := by
  obtain ⟨-, hi, -, -⟩ := findEntry_eq_some h
  obtain ⟨hlt, rfl⟩ := List.getElem?_eq_some_iff.mp hi
  exact (List.getElem_cons_eraseIdx_perm hlt).symm

/-- With distinct hashes, the others are the entries of the other hashes. -/
theorem mem_others_iff {ds : DiskStorage} (hn : (ds.bat.table.map BATEntry.keyHash).Nodup)
    (key : Bytes) (y : BATEntry) :
    y ∈ others ds.bat.table (ds.findEntry sha256_32 key) ↔
      y ∈ ds.bat.table ∧ y.keyHash ≠ sha256_32 key := by
  cases h : ds.findEntry sha256_32 key with
  | none =>
      have hnone := Keyed.find_eq_none.mp (BAT.findBATEntry_eq_none.mp h)
      exact (and_iff_left_of_imp (hnone y)).symm
  | some ie =>
      obtain ⟨i, e⟩ := ie
      exact Keyed.mem_eraseIdx hn (findEntry_eq_some h).1

/-- After the blocks of the entry found are freed, the blocks of the others are left. -/
theorem mapped_freeExisting_others (sha256_32 : Bytes → UInt32) {ds : DiskStorage}
    (hin : ∀ e ∈ ds.bat.table, e.startingDiskBlockNum.toNat
      + (ds.header.getNumDiskBlocks e.numBytes).toNat ≤ ds.freeSpaceMap.numBits)
    (hd : ds.bat.table.Pairwise fun e e' => Disjoint (e.extent ds.header) (e'.extent ds.header))
    (hm : ds.MarksExactly) (key : Bytes) (b : Nat) :
    (ds.freeExisting (ds.findEntry sha256_32 key)).Mapped b ↔
      ∃ y ∈ others ds.bat.table (ds.findEntry sha256_32 key), b ∈ y.extent ds.header := by
  rw [mapped_freeExisting_iff sha256_32 hin, hm b]
  cases h : ds.findEntry sha256_32 key with
  | none =>
      constructor
      · exact fun hb => hb.1
      · exact fun hb => ⟨hb, fun i e he => (by cases he)⟩
  | some ie =>
      obtain ⟨i, e⟩ := ie
      have hperm := table_perm h
      have hpair := (hperm.pairwise_iff fun hd => hd.symm).mp hd
      rw [List.pairwise_cons] at hpair
      constructor
      · rintro ⟨⟨y, hy, hb⟩, hnot⟩
        rcases List.mem_cons.mp (hperm.mem_iff.mp hy) with rfl | hmem
        · exact absurd hb (hnot i y rfl)
        · exact ⟨y, hmem, hb⟩
      · rintro ⟨y, hy, hb⟩
        refine ⟨⟨y, hperm.mem_iff.mpr (List.mem_cons_of_mem e hy), hb⟩, fun j x hx hbx => ?_⟩
        obtain ⟨-, rfl⟩ := Prod.mk.inj (Option.some.inj hx)
        exact Finset.disjoint_left.mp (hpair.1 y hy) hbx hb

/-- With distinct hashes, the blocks of the other hashes are left. -/
theorem mapped_freeExisting (sha256_32 : Bytes → UInt32) {ds : DiskStorage} (hs : ds.Sound)
    (key : Bytes) (b : Nat) :
    (ds.freeExisting (ds.findEntry sha256_32 key)).Mapped b ↔
      ∃ e ∈ ds.bat.table, e.keyHash ≠ sha256_32 key ∧ b ∈ e.extent ds.header := by
  rw [mapped_freeExisting_others sha256_32 hs.table.inside hs.table.pairwise hs.marks]
  simp only [mem_others_iff hs.table.hashes, and_assoc]

theorem freeExisting_capacity (ds : DiskStorage) (o : Option (Nat × BATEntry)) :
    (ds.freeExisting o).blockCapacity = ds.freeSpaceMap.blockCapacity ∧
      (ds.freeExisting o).numBits = ds.freeSpaceMap.numBits := by
  cases o with
  | none => exact ⟨rfl, rfl⟩
  | some ie => exact ⟨rfl, by simp [freeExisting, FreeSpaceMap.freeNBlocks, FreeSpaceMap.numBits]⟩

theorem numBits_allocateNBlocks (fsm : FreeSpaceMap) (s N : UInt32) :
    (fsm.allocateNBlocks s N).2.numBits = fsm.numBits := by
  simp [FreeSpaceMap.allocateNBlocks, FreeSpaceMap.numBits]

theorem allocateNew_capacity (fsm : FreeSpaceMap) (s N : UInt32) (o : Option (Nat × BATEntry)) :
    (allocateNew fsm s N o).blockCapacity = fsm.blockCapacity ∧
      (allocateNew fsm s N o).numBits = fsm.numBits := by
  cases o with
  | none => exact ⟨rfl, by simp only [allocateNew, numBits_allocateNBlocks]⟩
  | some ie => exact ⟨rfl, numBits_allocateNBlocks fsm s N⟩

/-- Allocating twice is allocating once. -/
theorem mapped_allocateNew {fsm : FreeSpaceMap} {s N : UInt32} (h : s.toNat + N.toNat ≤ fsm.numBits)
    (o : Option (Nat × BATEntry)) (b : Nat) :
    (allocateNew fsm s N o).Mapped b ↔
      b ∈ Finset.Ico s.toNat (s.toNat + N.toNat) ∨ fsm.Mapped b := by
  cases o with
  | none =>
      show ((fsm.allocateNBlocks s N).2.allocateNBlocks s N).2.Mapped b ↔ _
      rw [FreeSpaceMap.mapped_allocateNBlocks (by rw [numBits_allocateNBlocks]; exact h),
        FreeSpaceMap.mapped_allocateNBlocks h]
      tauto
  | some ie => exact FreeSpaceMap.mapped_allocateNBlocks h b

/-- `findNFreeBlocks` finds no run of length 0, so what a successful write has found is a run of
at least one block, free after the old blocks were. -/
theorem WriteOk.run {ds ds' : DiskStorage} {key : Bytes} {dataBlocks : List Block}
    {start : UInt32} (hw : WriteOk sha256_32 ds key dataBlocks start ds') :
    0 < (ds.getNumDiskBlocks (totalNumBytes dataBlocks)).toNat ∧
      (ds.freeExisting (ds.findEntry sha256_32 key)).FreeRun
        (ds.getNumDiskBlocks (totalNumBytes dataBlocks)).toNat start.toNat := by
  have hN : 0 < (ds.getNumDiskBlocks (totalNumBytes dataBlocks)).toNat := by
    rcases Nat.eq_zero_or_pos (ds.getNumDiskBlocks (totalNumBytes dataBlocks)).toNat with h0 | hpos
    · have hf := hw.found
      rw [FreeSpaceMap.findNFreeBlocks_zero _ h0] at hf
      cases hf
    · exact hpos
  exact ⟨hN, ((FreeSpaceMap.findNFreeBlocks_eq_some_iff hN).mp hw.found).1⟩

/-- The extent a successful write has found: not empty, inside the bitmap, and disjoint from
the extents of the other hashes. -/
theorem WriteOk.extent {ds ds' : DiskStorage} {key : Bytes} {dataBlocks : List Block}
    {start : UInt32} (hw : WriteOk sha256_32 ds key dataBlocks start ds') (hs : ds.Sound) :
    0 < (ds.getNumDiskBlocks (totalNumBytes dataBlocks)).toNat ∧
      start.toNat + (ds.getNumDiskBlocks (totalNumBytes dataBlocks)).toNat
        ≤ ds.freeSpaceMap.numBits ∧
      ∀ y ∈ ds.bat.table, y.keyHash ≠ sha256_32 key →
        Disjoint (Finset.Ico start.toNat
          (start.toNat + (ds.getNumDiskBlocks (totalNumBytes dataBlocks)).toNat))
          (y.extent ds.header) := by
  obtain ⟨hN, hle, hfree⟩ := hw.run
  rw [(ds.freeExisting_capacity _).2] at hle
  refine ⟨hN, hle, ?_⟩
  intro y hy hk
  rw [Finset.disjoint_left]
  intro b hb hby
  exact hfree b hb ((mapped_freeExisting sha256_32 hs key b).mpr ⟨y, hy, hk, hby⟩)

/-- **A write keeps the in-memory state sound.** -/
theorem WriteOk.sound {ds ds' : DiskStorage} {key : Bytes} {dataBlocks : List Block}
    {start : UInt32} (hw : WriteOk sha256_32 ds key dataBlocks start ds') (hs : ds.Sound) :
    ds'.Sound ∧ ds'.freeSpaceMap.blockCapacity = ds.freeSpaceMap.blockCapacity ∧
      ds'.freeSpaceMap.numBits = ds.freeSpaceMap.numBits := by
  obtain ⟨hpos, hin, hfree⟩ := hw.extent hs
  have hcap : ds'.freeSpaceMap.blockCapacity = ds.freeSpaceMap.blockCapacity := by
    rw [hw.freeSpaceMap, (allocateNew_capacity _ _ _ _).1, (ds.freeExisting_capacity _).1]
  have hbits : ds'.freeSpaceMap.numBits = ds.freeSpaceMap.numBits := by
    rw [hw.freeSpaceMap, (allocateNew_capacity _ _ _ _).2, (ds.freeExisting_capacity _).2]
  obtain ⟨hnodup, hmem⟩ := mem_updateBAT sha256_32 hs.table.hashes key start
    (totalNumBytes dataBlocks)
  rw [← hw.bat] at hnodup hmem
  set x := newEntry sha256_32 key start (totalNumBytes dataBlocks) (ds.findEntry sha256_32 key)
    with hx
  have hxk : x.keyHash = sha256_32 key := newEntry_keyHash sha256_32 ds key start _
  have hxext : x.extent ds.header = Finset.Ico start.toNat
      (start.toNat + (ds.getNumDiskBlocks (totalNumBytes dataBlocks)).toNat) :=
    newEntry_extent _ _ _ _ _
  have htable : TableOk ds.header ds.freeSpaceMap.numBits ds'.bat.table := by
    refine hs.table.replace (x := x) hnodup (by rw [hxk]; exact hmem) ?_ ?_ ?_
    · rw [hx, newEntry_numBytes]; exact hpos
    · rw [hx, newEntry_numBytes, newEntry_start]; exact hin
    · rw [hxk, hxext]; exact hfree
  refine ⟨⟨?_, ?_, ?_⟩, hcap, hbits⟩
  · -- the number of entries does not wrap: each of them owns a block
    have hlen := htable.length_le
    have hlt := ds.freeSpaceMap.numBits_lt
    have hnum := hs.numEntries
    rw [hw.bat] at hlen ⊢
    cases h : ds.findEntry sha256_32 key with
    | none =>
        rw [h] at hlen
        simp only [updateBAT, List.length_append, List.length_singleton] at hlen ⊢
        rw [UInt32.toNat_add, UInt32.toNat_one]
        omega
    | some ie => simp only [updateBAT, List.length_set]; exact hnum
  · rw [hw.header, hbits]; exact htable
  · intro b
    rw [hw.freeSpaceMap, mapped_allocateNew (by rw [(ds.freeExisting_capacity _).2]; exact hin),
      mapped_freeExisting sha256_32 hs, hw.header]
    constructor
    · rintro (hb | ⟨e, he, hk, hb⟩)
      · exact ⟨x, (hmem x).mpr (Or.inl rfl), by rw [hxext]; exact hb⟩
      · exact ⟨e, (hmem e).mpr (Or.inr ⟨he, hk⟩), hb⟩
    · rintro ⟨e, he, hb⟩
      rcases (hmem e).mp he with rfl | ⟨he, hk⟩
      · exact Or.inl (by rw [← hxext]; exact hb)
      · exact Or.inr ⟨e, he, hk, hb⟩

/-- **A delete keeps the in-memory state sound.** -/
theorem sound_deleteBlocks {ds : DiskStorage} (hs : ds.Sound) {key : Bytes} {i : Nat}
    {e : BATEntry} (h : ds.findEntry sha256_32 key = some (i, e)) :
    let fsm := ds.freeSpaceMap.freeNBlocks e.startingDiskBlockNum (ds.getNumDiskBlocks e.numBytes)
    Sound { ds with
      bat := { numEntries := ds.bat.numEntries - 1, table := ds.bat.table.eraseIdx i }
      freeSpaceMap := fsm } ∧ fsm.numBits = ds.freeSpaceMap.numBits := by
  obtain ⟨hf, hi, he, hk⟩ := findEntry_eq_some h
  have hbits := (ds.freeExisting_capacity (some (i, e))).2
  refine ⟨⟨?_, ?_, ?_⟩, hbits⟩
  · -- there is an entry to erase, so the count does not wrap
    have hnum := hs.numEntries
    obtain ⟨hlt, -⟩ := List.getElem?_eq_some_iff.mp hi
    have h32 := ds.bat.numEntries.toNat_lt
    rw [UInt32.toNat_sub, UInt32.toNat_one, List.length_eraseIdx_of_lt hlt]
    omega
  · show TableOk ds.header (ds.freeExisting (some (i, e))).numBits _
    rw [hbits]
    exact hs.table.erase i
  · intro b
    -- what is left marked belongs to the other hashes
    have hfree := mapped_freeExisting sha256_32 hs key b
    rw [h] at hfree
    refine hfree.trans ?_
    constructor
    · rintro ⟨y, hy, hyk, hb⟩
      exact ⟨y, (Keyed.mem_eraseIdx hs.table.hashes hf).mpr ⟨hy, hyk⟩, hb⟩
    · rintro ⟨y, hy, hb⟩
      obtain ⟨hy, hyk⟩ := (Keyed.mem_eraseIdx hs.table.hashes hf).mp hy
      exact ⟨y, hy, hyk, hb⟩

end DiskStorage

end RackKey
