import RackKey.Storage.Invariant

set_option autoImplicit false

/-! # What the store file keeps

`Intact` extends `Sound` to the store file: the header is in place. `Recoverable` adds that the
table region of the file holds a table in order, though not always the table in memory.
`reopen_spec` shows that a new object opened on the file of a recoverable store is sound and has
exactly the table of the file; a new store is recoverable
(`recoverable_newStore`), and so is a store after every call (`WriteOk.recoverable`,
`recoverable_deleteBlocks`).
-/

namespace RackKey

open Words ByteFile MathUtils

/-- No disk block below `bound` starts inside the header of the file. -/
def HeaderClear (h : Header) (bound : Nat) : Prop :=
  ∀ b : UInt32, b.toNat < bound → Header.size ≤ (h.getDiskBlockOffset b).toNat

namespace DiskStorage

variable {sha256_32 : Bytes → UInt32}

/-- A sound store with the given parameters, a ready stream, and its header in the file. -/
structure Intact (diskBlockSize maxDataSize : UInt32) (ds : DiskStorage) : Prop where
  sound : ds.Sound
  header : ds.header = initialiseHeader diskBlockSize maxDataSize
  capacity : ds.freeSpaceMap.blockCapacity = ceilDiv maxDataSize diskBlockSize
  ready : ds.storeFile.Ready
  fileHeader : readAt ds.storeFile.bytes 0 Header.size = ds.header.bytes

structure Recoverable (diskBlockSize maxDataSize : UInt32) (ds : DiskStorage) : Prop
    extends Intact diskBlockSize maxDataSize ds where
  fileTable : ∃ t, StoreFile.HoldsTable ds.storeFile.bytes t ∧
    TableOk ds.header ds.freeSpaceMap.numBits t

/-- A new object on the file of a store, with the parameters of the store. -/
def reopen (junk : Junk) (diskBlockSize maxDataSize : UInt32) (ds : DiskStorage) :
    Except StorageError Unit × DiskStorage :=
  construct junk (some ds.storeFile.bytes) ds.storeFile.outcomes diskBlockSize maxDataSize false
    ds.keyLengthMax

/-- A store where there was no store file. -/
def newStore (junk : Junk) (diskBlockSize maxDataSize keyLengthMax : UInt32) : DiskStorage :=
  (construct junk none [] diskBlockSize maxDataSize false keyLengthMax).2

/-! ## Re-opening -/

/-- Allocating the extents of a table one after another marks exactly these extents. -/
theorem mapped_foldl_allocate {h : Header} (t : List BATEntry) (fsm : FreeSpaceMap)
    (hin : ∀ e ∈ t,
      e.startingDiskBlockNum.toNat + (h.getNumDiskBlocks e.numBytes).toNat ≤ fsm.numBits) :
    let fsm' := t.foldl (fun fsm e =>
      (fsm.allocateNBlocks e.startingDiskBlockNum (h.getNumDiskBlocks e.numBytes)).2) fsm
    fsm'.blockCapacity = fsm.blockCapacity ∧ fsm'.numBits = fsm.numBits ∧
      ∀ b, fsm'.Mapped b ↔ (∃ e ∈ t, b ∈ e.extent h) ∨ fsm.Mapped b := by
  induction t generalizing fsm with
  | nil => exact ⟨rfl, rfl, fun b => by simp⟩
  | cons e t ih =>
      set fsm₁ := (fsm.allocateNBlocks e.startingDiskBlockNum (h.getNumDiskBlocks e.numBytes)).2
        with hfsm₁
      have hbits : fsm₁.numBits = fsm.numBits := numBits_allocateNBlocks _ _ _
      obtain ⟨hc, hb, hm⟩ := ih fsm₁ (fun x hx => by rw [hbits]; exact hin x (by simp [hx]))
      refine ⟨hc, hb.trans hbits, ?_⟩
      intro b
      refine (hm b).trans ?_
      rw [hfsm₁, FreeSpaceMap.mapped_allocateNBlocks (hin e (by simp))]
      constructor
      · rintro (⟨x, hx, hbx⟩ | hbe | hbf)
        · exact Or.inl ⟨x, by simp [hx], hbx⟩
        · exact Or.inl ⟨e, by simp, hbe⟩
        · exact Or.inr hbf
      · rintro (⟨x, hx, hbx⟩ | hbf)
        · rcases List.mem_cons.mp hx with rfl | hx
          · exact Or.inr (Or.inl hbx)
          · exact Or.inl ⟨x, hx, hbx⟩
        · exact Or.inr (Or.inr hbf)

/-- **Re-opening a store gives the table of its file**, in order or not. -/
theorem reopen_table {d m : UInt32} {ds : DiskStorage} (hr : ds.Intact d m) (junk : Junk)
    {t : List BATEntry} (ht : StoreFile.HoldsTable ds.storeFile.bytes t) :
    ∃ ds', reopen junk d m ds = (.ok (), ds') ∧ ds'.bat.table = t ∧
      ds'.bat.numEntries.toNat = t.length ∧ ds'.header = ds.header ∧ ds'.storeFile.Ready ∧
      ds'.storeFile.bytes = ds.storeFile.bytes ∧ ds'.keyLengthMax = ds.keyLengthMax ∧
      ds'.freeSpaceMap = t.foldl (fun fsm e => (fsm.allocateNBlocks e.startingDiskBlockNum
        (ds.header.getNumDiskBlocks e.numBytes)).2) (FreeSpaceMap.initialise (ceilDiv m d)) := by
  set f₀ : StoreFile := ⟨false, false, 0, ds.storeFile.bytes, ds.storeFile.outcomes⟩ with hf₀
  have hready₀ : f₀.Ready := ⟨rfl, hr.ready.outcomes⟩
  obtain ⟨hh, hready₁, hbytes₁⟩ :=
    StoreFile.readHeader_ready hready₀ junk.header ds.header hr.fileHeader
  obtain ⟨n, hn, hbat, hready₂, hbytes₂⟩ :=
    StoreFile.readBAT_ready (f := (f₀.readHeader junk.header).2) hready₁ junk.entryKey (t := t)
      (by rw [hbytes₁]; exact ht)
  have hcapacity : ds.header.getNumDiskBlocks m = ceilDiv m d := by rw [hr.header]; rfl
  have hmax : ds.header.maxDataSize = m := by rw [hr.header]; rfl
  set fsm := t.foldl (fun fsm e => (fsm.allocateNBlocks e.startingDiskBlockNum
    (ds.header.getNumDiskBlocks e.numBytes)).2) (FreeSpaceMap.initialise (ceilDiv m d)) with hfsm
  refine ⟨⟨ds.header, ⟨n, t⟩, fsm, ((f₀.readHeader junk.header).2.readBAT junk.entryKey ⟨0, []⟩).2,
    ds.keyLengthMax⟩, ?_, rfl, hn, rfl, hready₂, hbytes₂.trans hbytes₁, rfl, rfl⟩
  have hassert : ¬ (FreeSpaceMap.initialise (ceilDiv m d)).blockCapacity
      ≠ ds.header.getNumDiskBlocks ds.header.maxDataSize := by
    rw [hmax, hcapacity]
    exact fun h => h rfl
  show initialiseFromFile junk m (fresh junk ds.storeFile.bytes ds.storeFile.outcomes
    ds.keyLengthMax) = _
  unfold initialiseFromFile fresh
  simp only [← hf₀, hh, hbat, hcapacity, populateFreeSpaceMapFromFile, getNumDiskBlocks,
    if_neg hassert, hn, List.take_length, ← hfsm]

/-- **Re-opening a store with a table in order** gives a recoverable store, whose map marks
exactly the extents of that table. -/
theorem reopen_spec {d m : UInt32} {ds : DiskStorage} (hr : ds.Intact d m) (junk : Junk)
    {t : List BATEntry} (ht : StoreFile.HoldsTable ds.storeFile.bytes t)
    (hok : TableOk ds.header ds.freeSpaceMap.numBits t) :
    ∃ ds', reopen junk d m ds = (.ok (), ds') ∧ ds'.Recoverable d m ∧ ds'.bat.table = t ∧
      ds'.header = ds.header ∧ ds'.storeFile.bytes = ds.storeFile.bytes ∧
      ds'.freeSpaceMap.blockCapacity = ds.freeSpaceMap.blockCapacity ∧
      ds'.freeSpaceMap.numBits = ds.freeSpaceMap.numBits ∧
      ds'.keyLengthMax = ds.keyLengthMax := by
  obtain ⟨ds', hopen, htable, hnum, hheader, hready, hbytes, hkey, hfsm⟩ := reopen_table hr junk ht
  have hbits : (FreeSpaceMap.initialise (ceilDiv m d)).numBits = ds.freeSpaceMap.numBits := by
    simp only [FreeSpaceMap.numBits, (FreeSpaceMap.initialise (ceilDiv m d)).size_eq,
      ds.freeSpaceMap.size_eq, hr.capacity]
    rfl
  obtain ⟨hc, hb, hm⟩ := mapped_foldl_allocate (h := ds.header) t
    (FreeSpaceMap.initialise (ceilDiv m d)) (by rw [hbits]; exact hok.inside)
  rw [← hfsm] at hc hb hm
  have hok' : TableOk ds'.header ds'.freeSpaceMap.numBits ds'.bat.table := by
    rw [htable, hheader, hb, hbits]
    exact hok
  have hmarks : ds'.MarksExactly := by
    intro b
    rw [hm b, htable, hheader]
    simp
  have hfile : readAt ds'.storeFile.bytes 0 Header.size = ds'.header.bytes := by
    rw [hbytes, hheader, hr.fileHeader]
  exact ⟨ds', hopen, ⟨⟨⟨by rw [hnum, htable], hok', hmarks⟩, hheader.trans hr.header, hc, hready,
    hfile⟩, t, by rw [hbytes]; exact ht, by rw [htable] at hok'; exact hok'⟩, htable, hheader,
    hbytes, hc.trans hr.capacity.symm, hb.trans hbits, hkey⟩

/-! ## A new store -/

/-- The file of a new store before its header is written: zeros up to the last position that the
uninitialised header announces. -/
theorem createStoreFile_fresh (junk : Junk) (keyLengthMax : UInt32) :
    let pos := ((fresh junk [] [] keyLengthMax).totalFileSize - 1).toNat
    (fresh junk [] [] keyLengthMax).createStoreFile
      = (.ok (), { fresh junk [] [] keyLengthMax with
          storeFile := (StoreFile.live (pos + 1) (writeAt 0 [] pos [0])).close }) := by
  intro pos
  have hready :
      ({ (fresh junk [] [] keyLengthMax).storeFile with bytes := [] } : StoreFile).Ready :=
    ⟨rfl, rfl⟩
  simp only [createStoreFile, StoreFile.openFile_ready hready, if_true, StoreFile.seek_live,
    StoreFile.write_live, pos, List.length_singleton]

theorem initialiseNew_fresh (junk : Junk) (d m keyLengthMax : UInt32) :
    ∃ f : StoreFile, f.Ready ∧
      f.bytes = writeAt 0 (writeAt 0 [] ((fresh junk [] [] keyLengthMax).totalFileSize - 1).toNat
        [0]) 0 (initialiseHeader d m).bytes ∧
      initialiseNew d m (fresh junk [] [] keyLengthMax)
        = (.ok (), ⟨initialiseHeader d m, ⟨0, []⟩,
            FreeSpaceMap.initialise ((initialiseHeader d m).getNumDiskBlocks m), f,
            keyLengthMax⟩) := by
  obtain ⟨hready, hbytes⟩ := StoreFile.writeHeader_ready
    (StoreFile.ready_close_live (((fresh junk [] [] keyLengthMax).totalFileSize - 1).toNat + 1)
      (writeAt 0 [] ((fresh junk [] [] keyLengthMax).totalFileSize - 1).toNat [0]))
    (initialiseHeader d m)
  refine ⟨_, hready, hbytes, ?_⟩
  unfold initialiseNew
  rw [createStoreFile_fresh]
  rfl

/-- A new store has an empty table and a file that holds it. -/
theorem recoverable_newStore (junk : Junk) (d m keyLengthMax : UInt32) :
    (newStore junk d m keyLengthMax).Recoverable d m ∧
      (newStore junk d m keyLengthMax).bat = ⟨0, []⟩ ∧
      (newStore junk d m keyLengthMax).keyLengthMax = keyLengthMax ∧
      StoreFile.HoldsTable (newStore junk d m keyLengthMax).storeFile.bytes [] := by
  obtain ⟨f, hready, hbytes, heq⟩ := initialiseNew_fresh junk d m keyLengthMax
  set header := initialiseHeader d m with hheader
  set pos := ((fresh junk [] [] keyLengthMax).totalFileSize - 1).toNat with hpos
  have heq : newStore junk d m keyLengthMax
      = ⟨header, ⟨0, []⟩, FreeSpaceMap.initialise (header.getNumDiskBlocks m), f, keyLengthMax⟩ :=
    congrArg Prod.snd heq
  have hholds : StoreFile.HoldsTable (newStore junk d m keyLengthMax).storeFile.bytes [] := by
    refine Or.inl ⟨rfl, ?_⟩
    rw [heq]
    show ∀ x ∈ readAt f.bytes Header.size 4, x = 0
    rw [hbytes, readAt_writeAt_after 0 _ 4 (by rw [Header.bytes_length]; exact Nat.le_refl _)]
    intro x hx
    -- the file created is all zeros
    have hx := List.mem_of_mem_drop (List.mem_of_mem_take hx)
    have hzero : writeAt (0 : UInt8) [] pos [0] = List.replicate pos 0 ++ [0] := by
      rw [writeAt_of_ne_nil 0 [] pos (by simp)]
      simp
    rw [hzero, List.mem_append, List.mem_replicate, List.mem_singleton] at hx
    rcases hx with ⟨-, hx⟩ | hx
    · exact hx
    · exact hx
  refine ⟨⟨⟨⟨?_, ?_, ?_⟩, ?_, ?_, ?_, ?_⟩, [], hholds, TableOk.nil _ _⟩, ?_, ?_, hholds⟩
  · rw [heq]; rfl
  · rw [heq]; exact TableOk.nil _ _
  · rw [heq]
    intro b
    simp
  · rw [heq]
  · rw [heq, hheader]; rfl
  · rw [heq]; exact hready
  · rw [heq]
    show readAt f.bytes 0 Header.size = header.bytes
    rw [hbytes]
    exact readAt_writeAt_self 0 _ 0 header.bytes
  · rw [heq]
  · rw [heq]

/-! ## Calls -/

/-- What a write leaves in the file: first the data, then the table. -/
theorem WriteOk.bytes {ds ds' : DiskStorage} {key : Bytes} {dataBlocks : List Block}
    {start : UInt32} (hw : WriteOk sha256_32 ds key dataBlocks start ds')
    (hready : ds.storeFile.Ready) :
    ds'.storeFile.Ready ∧ ds'.storeFile.bytes
      = writeAt 0 (writeAt 0 ds.storeFile.bytes (ds.getDiskBlockOffset start).toNat
          (copyBlocks dataBlocks)) Header.size ds'.bat.bytes := by
  have hext := StoreFile.writeExtent_ready hready (ds.getDiskBlockOffset start)
    (copyBlocks dataBlocks)
  rw [hw.storeFile, hext]
  exact StoreFile.writeBAT_ready (StoreFile.ready_close_live _ _) ds'.bat

/-- **After a write the file holds the table in memory.** -/
theorem WriteOk.recoverable {d m : UInt32} {ds ds' : DiskStorage} {key : Bytes}
    {dataBlocks : List Block} {start : UInt32}
    (hw : WriteOk sha256_32 ds key dataBlocks start ds') (hr : ds.Intact d m)
    (hclear : HeaderClear ds.header ds.freeSpaceMap.numBits) :
    ds'.Recoverable d m ∧ StoreFile.HoldsTable ds'.storeFile.bytes ds'.bat.table := by
  obtain ⟨hsound, hcap, hbits⟩ := hw.sound hr.sound
  obtain ⟨hready, hbytes⟩ := hw.bytes hr.ready
  obtain ⟨hN, hin, -⟩ := hw.extent hr.sound
  have hholds : StoreFile.HoldsTable ds'.storeFile.bytes ds'.bat.table := by
    rw [hbytes]
    exact StoreFile.holdsTable_writeAt _ hsound.numEntries
  have hlen : Header.size ≤ ds.storeFile.bytes.length := by
    have := le_length_of_readAt _ ds.header.bytes hr.fileHeader (by simp [Header.bytes, le32])
    rw [Header.bytes_length] at this
    omega
  have hheader : readAt ds'.storeFile.bytes 0 Header.size = ds'.header.bytes := by
    have hoff : Header.size ≤ (ds.getDiskBlockOffset start).toNat := hclear start (by omega)
    have hle := length_le_writeAt_length 0 ds.storeFile.bytes (ds.getDiskBlockOffset start).toNat
      (copyBlocks dataBlocks)
    rw [hbytes, readAt_writeAt_before 0 _ (by omega) (by omega),
      readAt_writeAt_before 0 _ (by omega) (by omega), hr.fileHeader, hw.header]
  exact ⟨⟨⟨hsound, by rw [hw.header]; exact hr.header, hcap.trans hr.capacity, hready, hheader⟩,
    ds'.bat.table, hholds, hsound.table⟩, hholds⟩

/-- A delete leaves the file as it is. -/
theorem intact_deleteBlocks {d m : UInt32} {ds : DiskStorage} (hr : ds.Intact d m)
    {key : Bytes} {i : Nat} {e : BATEntry} (h : ds.findEntry sha256_32 key = some (i, e)) :
    Intact d m { ds with
      bat := { numEntries := ds.bat.numEntries - 1, table := ds.bat.table.eraseIdx i }
      freeSpaceMap :=
        ds.freeSpaceMap.freeNBlocks e.startingDiskBlockNum (ds.getNumDiskBlocks e.numBytes) } := by
  obtain ⟨hsound, -⟩ := sound_deleteBlocks hr.sound h
  exact ⟨hsound, hr.header, hr.capacity, hr.ready, hr.fileHeader⟩

theorem recoverable_deleteBlocks {d m : UInt32} {ds : DiskStorage} (hr : ds.Recoverable d m)
    {key : Bytes} {i : Nat} {e : BATEntry} (h : ds.findEntry sha256_32 key = some (i, e)) :
    Recoverable d m { ds with
      bat := { numEntries := ds.bat.numEntries - 1, table := ds.bat.table.eraseIdx i }
      freeSpaceMap :=
        ds.freeSpaceMap.freeNBlocks e.startingDiskBlockNum (ds.getNumDiskBlocks e.numBytes) } := by
  obtain ⟨-, hbits⟩ := sound_deleteBlocks hr.sound h
  obtain ⟨t, ht, hok⟩ := hr.fileTable
  exact ⟨intact_deleteBlocks hr.toIntact h, t, ht, by rw [hbits]; exact hok⟩

/-- A read that returns normally leaves the stream ready and everything else as it is. -/
theorem readBlocks_ok {ds ds' : DiskStorage} {key : Bytes} {S : Finset UInt32}
    {dataBlockSize : UInt32} {blocks : List Block} (hready : ds.storeFile.Ready)
    (h : ds.readBlocks sha256_32 key S dataBlockSize = (.ok blocks, ds')) :
    ∃ f : StoreFile, f.Ready ∧ f.bytes = ds.storeFile.bytes ∧ ds' = { ds with storeFile := f } := by
  unfold readBlocks at h
  cases he : ds.findEntry sha256_32 key with
  | none =>
      rw [he] at h
      simp at h
  | some ie =>
      obtain ⟨i, e⟩ := ie
      rw [he] at h
      dsimp only at h
      set f := (ds.storeFile.readExtent .badRead (ds.getDiskBlockOffset e.startingDiskBlockNum)
        e.numBytes).2 with hf
      have hbytes : f.bytes = ds.storeFile.bytes := StoreFile.readExtent_bytes _ _ _ _
      cases hext : (ds.storeFile.readExtent .badRead
          (ds.getDiskBlockOffset e.startingDiskBlockNum) e.numBytes).1 with
      | error err =>
          rw [hext] at h
          simp at h
      | ok readBuffer =>
          rw [hext] at h
          refine ⟨f, ?_, hbytes, (Prod.mk.inj h).2.symm⟩
          exact StoreFile.ready_readExtent hready hext

end DiskStorage

end RackKey
