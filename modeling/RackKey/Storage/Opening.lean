import RackKey.Storage.Ranges
import RackKey.Storage.Reopen

set_option autoImplicit false

/-! # Opening a store file

`initialiseStorage` takes the header and the table of an existing file as they are. The header is
checked, but the outcome is only printed; the one check that throws is that the file is made for as
many disk blocks as the object. `checkedInitialiseFromFile` is the opening of a file with the
divisions and the accesses to the bitmap compared with their bounds. It goes through to a store that
is in order, or throws, exactly for the files that are well formed to begin with
(`opensSafely_iff`).
-/

namespace RackKey

open Words ByteFile MathUtils

namespace DiskStorage

/-! ## Opening with every access checked -/

/-- `getNumDiskBlocks`; `none` is the division by zero. -/
def checkedNumDiskBlocks (h : Header) (numDataBytes : UInt32) : Option UInt32 :=
  if h.diskBlockSize = 0 then none else some (h.getNumDiskBlocks numDataBytes)

/-- The loop of `populateFreeSpaceMapFromFile`. -/
def checkedAllocateEntries (h : Header) (fsm : FreeSpaceMap) (table : List BATEntry) :
    Option FreeSpaceMap :=
  table.foldlM (fun fsm e => do
    let numBlocks ← checkedNumDiskBlocks h e.numBytes
    fsm.checkedAllocateNBlocks e.startingDiskBlockNum numBlocks) fsm

/-- `populateFreeSpaceMapFromFile`; `none` at a division by zero or an access outside of the
bitmap. -/
def checkedPopulate (ds : DiskStorage) : Option (Except StorageError Unit × DiskStorage) := do
  let numBlocks ← checkedNumDiskBlocks ds.header ds.header.maxDataSize
  if ds.freeSpaceMap.blockCapacity ≠ numBlocks then some (.error .assertBlockCapacity, ds)
  else do
    let fsm ← checkedAllocateEntries ds.header ds.freeSpaceMap
      (ds.bat.table.take ds.bat.numEntries.toNat)
    some (.ok (), { ds with freeSpaceMap := fsm })

/-- `initialiseFromFile`, the same way. -/
def checkedInitialiseFromFile (junk : Junk) (maxDataSize : UInt32) (ds : DiskStorage) :
    Option (Except StorageError Unit × DiskStorage) := do
  let h := ds.storeFile.readHeader ds.header
  let b := h.2.readBAT junk.entryKey ds.bat
  let numBlocks ← checkedNumDiskBlocks h.1 maxDataSize
  checkedPopulate
    { ds with
      header := h.1
      bat := b.1
      storeFile := b.2
      freeSpaceMap := FreeSpaceMap.initialise numBlocks }

section Checked

variable {h : Header}

theorem checkedNumDiskBlocks_of_ne (hd : h.diskBlockSize ≠ 0) (n : UInt32) :
    checkedNumDiskBlocks h n = some (h.getNumDiskBlocks n) := if_neg hd

/-- A round of the checked loop is a round of the loop. -/
theorem checkedAllocateEntries_cons {e : BATEntry} {t : List BATEntry} {fsm fsm' : FreeSpaceMap}
    (hsome : checkedAllocateEntries h fsm (e :: t) = some fsm') :
    checkedAllocateEntries h
      (fsm.allocateNBlocks e.startingDiskBlockNum (h.getNumDiskBlocks e.numBytes)).2 t
        = some fsm' := by
  simp only [checkedAllocateEntries, List.foldlM_cons, Option.bind_eq_bind,
    Option.bind_eq_some_iff] at hsome
  obtain ⟨fsm₁, ⟨N, hN, halloc⟩, hrest⟩ := hsome
  unfold checkedNumDiskBlocks at hN
  split at hN
  · cases hN
  · obtain rfl := Option.some.inj hN
    obtain ⟨m, -, rfl⟩ := Option.map_eq_some_iff.mp halloc
    exact hrest

/-- What the checked loop does, the loop does. -/
theorem foldl_of_checkedAllocateEntries (t : List BATEntry) :
    ∀ {fsm fsm' : FreeSpaceMap}, checkedAllocateEntries h fsm t = some fsm' →
      t.foldl (fun fsm e =>
        (fsm.allocateNBlocks e.startingDiskBlockNum (h.getNumDiskBlocks e.numBytes)).2) fsm
        = fsm' := by
  induction t with
  | nil => exact fun hsome => Option.some.inj hsome
  | cons e t ih => exact fun hsome => ih (checkedAllocateEntries_cons hsome)

theorem blockCapacity_of_checkedAllocateEntries (t : List BATEntry) :
    ∀ {fsm fsm' : FreeSpaceMap}, checkedAllocateEntries h fsm t = some fsm' →
      fsm'.blockCapacity = fsm.blockCapacity := by
  induction t with
  | nil =>
      intro fsm fsm' hsome
      obtain rfl := Option.some.inj hsome
      rfl
  | cons e t ih =>
      intro fsm fsm' hsome
      have hsame := ih (checkedAllocateEntries_cons hsome)
      exact hsame

/-- The checked loop goes through exactly when every extent lies inside the bitmap. -/
theorem checkedAllocateEntries_isSome (hd : h.diskBlockSize ≠ 0) (t : List BATEntry) :
    ∀ fsm : FreeSpaceMap, (checkedAllocateEntries h fsm t).isSome ↔
      ∀ e ∈ t, (h.getNumDiskBlocks e.numBytes).toNat = 0 ∨
        e.startingDiskBlockNum.toNat + (h.getNumDiskBlocks e.numBytes).toNat ≤ fsm.numBits := by
  induction t with
  | nil =>
      intro fsm
      exact iff_of_true rfl (by simp)
  | cons e t ih =>
      intro fsm
      unfold checkedAllocateEntries
      simp only [List.foldlM_cons, checkedNumDiskBlocks_of_ne hd, Option.bind_eq_bind,
        Option.bind_some, FreeSpaceMap.checkedAllocateNBlocks_eq, List.forall_mem_cons]
      split
      · rename_i hin
        have hrest := ih (fsm.allocateNBlocks e.startingDiskBlockNum
          (h.getNumDiskBlocks e.numBytes)).2
        simp only [checkedAllocateEntries, checkedNumDiskBlocks_of_ne hd, Option.bind_eq_bind,
          Option.bind_some, FreeSpaceMap.checkedAllocateNBlocks_eq] at hrest
        refine hrest.trans ?_
        rw [numBits_allocateNBlocks]
        exact (and_iff_right hin).symm
      · rename_i hout
        exact iff_of_false (by simp) fun hall => hout hall.1

theorem populate_of_checked {ds : DiskStorage} {r : Except StorageError Unit × DiskStorage}
    (hr : checkedPopulate ds = some r) : populateFreeSpaceMapFromFile ds = r := by
  simp only [checkedPopulate, Option.bind_eq_bind, Option.bind_eq_some_iff] at hr
  obtain ⟨C, hC, hr⟩ := hr
  unfold checkedNumDiskBlocks at hC
  split at hC
  · cases hC
  · obtain rfl := Option.some.inj hC
    by_cases hassert : ds.freeSpaceMap.blockCapacity
        ≠ ds.header.getNumDiskBlocks ds.header.maxDataSize
    · rw [if_pos hassert] at hr
      exact (if_pos hassert).trans (Option.some.inj hr)
    · rw [if_neg hassert] at hr
      obtain ⟨fsm, hfsm, hr⟩ := Option.bind_eq_some_iff.mp hr
      rw [← Option.some.inj hr, ← foldl_of_checkedAllocateEntries _ hfsm]
      exact if_neg hassert

/-- What the checked opening does, the opening does. -/
theorem initialiseFromFile_of_checked {junk : Junk} {m : UInt32} {ds : DiskStorage}
    {r : Except StorageError Unit × DiskStorage}
    (hr : checkedInitialiseFromFile junk m ds = some r) : initialiseFromFile junk m ds = r := by
  simp only [checkedInitialiseFromFile, Option.bind_eq_bind, Option.bind_eq_some_iff] at hr
  obtain ⟨C, hC, hr⟩ := hr
  unfold checkedNumDiskBlocks at hC
  split at hC
  · cases hC
  · obtain rfl := Option.some.inj hC
    exact populate_of_checked hr

end Checked

/-! ## Files that are in order -/

/-- The header that a new object reads in a file; what is missing of it is the uninitialised one. -/
def storedHeader (junk : Header) (bytes : Bytes) : Header :=
  (Header.read (StoreFile.overlay junk.bytes (readAt bytes 0 Header.size))).getD junk

/-- Where record `i` of the table starts. -/
def recordOffset (i : Nat) : Nat := Header.size + 4 + BATEntry.size * i

/-- Record `i` of the table holds `e`, inside the file and the table region, and the disk blocks
of `e` are inside the capacity. -/
structure EntryOk (h : Header) (capacity : UInt32) (bytes : Bytes) (i : Nat) (e : BATEntry) :
    Prop where
  record : readAt bytes (recordOffset i) BATEntry.size = e.bytes
  region : h.batOffset.toNat ≤ recordOffset i ∧
    recordOffset (i + 1) ≤ h.batOffset.toNat + h.batSize.toNat
  inside : e.startingDiskBlockNum.toNat
    + (e.numBytes.toNat + h.diskBlockSize.toNat - 1) / h.diskBlockSize.toNat ≤ capacity.toNat

/-- A file with the header `h` that was written by a store: the magic number, and the table the
count announces. With a capacity that has no bitmap, the entries are empty. -/
structure FileOk (h : Header) (capacity : UInt32) (bytes : Bytes) : Prop where
  magic : h.magicNumber = magicNumber
  entries : ∀ i < (StoreFile.storedCount bytes).toNat, ∃ e, EntryOk h capacity bytes i e ∧
    (e.numBytes.toNat = 0 ∨ capacity.toNat + 7 < 2 ^ 32)

/-- A store opened on a file is in order. -/
structure Validated (bytes : Bytes) (ds : DiskStorage) : Prop where
  magic : ds.header.magicNumber = magicNumber
  diskBlockSize : 1 ≤ ds.header.diskBlockSize.toNat
  numEntries : ds.bat.numEntries.toNat = ds.bat.table.length
  entries : ∀ i e, ds.bat.table[i]? = some e →
    EntryOk ds.header ds.freeSpaceMap.blockCapacity bytes i e

/-- Opening a file divides by no zero, accesses nothing outside of the bitmap, and throws or ends
with a store in order. -/
def OpensSafely (junk : Junk) (bytes : Bytes) (d m keyLengthMax : UInt32) : Prop :=
  ∃ r, checkedInitialiseFromFile junk m (fresh junk bytes [] keyLengthMax) = some r ∧
    construct junk (some bytes) [] d m false keyLengthMax = r ∧
    ((∃ err, r.1 = .error err) ∨ Validated bytes r.2)

/-- Disk blocks inside the capacity are inside the bitmap, unless the capacity is so large that the
bitmap has no byte. -/
theorem inBitmap_iff {m d start numBytes : UInt32} (hd : d ≠ 0)
    (hinside : start.toNat + (numBytes.toNat + d.toNat - 1) / d.toNat ≤ (ceilDiv m d).toNat) :
    ((ceilDiv numBytes d).toNat = 0 ∨
        start.toNat + (ceilDiv numBytes d).toNat ≤ 8 * (ceilDiv (ceilDiv m d) 8).toNat) ↔
      (numBytes.toNat = 0 ∨ (ceilDiv m d).toNat + 7 < 2 ^ 32) := by
  have h8 : (8 : UInt32).toNat = 8 := rfl
  have hpos : 0 < d.toNat := Nat.pos_of_ne_zero fun h => hd (UInt32.toNat_inj.mp h)
  have hd32 := d.toNat_lt
  by_cases hwrap : 2 ^ 32 ≤ (ceilDiv m d).toNat + 7
  · -- disk blocks of one byte, and a bitmap without bytes
    have hone : d.toNat = 1 := by
      have hmul := ceilDiv_mul_le m d
      by_contra hne
      have h2 : (ceilDiv m d).toNat * 2 ≤ (ceilDiv m d).toNat * d.toNat :=
        Nat.mul_le_mul_left _ (by omega)
      omega
    have hbits : (ceilDiv (ceilDiv m d) 8).toNat = 0 := ceilDiv_of_wrap (by rw [h8]; omega)
    have hnum : (ceilDiv numBytes d).toNat = numBytes.toNat := by
      have hlt := numBytes.toNat_lt
      rw [ceilDiv_toNat hpos (by omega), hone, Nat.div_one]
      omega
    rw [hbits, hnum]
    omega
  · have hbits : (ceilDiv m d).toNat ≤ 8 * (ceilDiv (ceilDiv m d) 8).toNat := by
      have hbytes := ceilDiv_toNat (n := ceilDiv m d) (d := 8) (by rw [h8]; omega)
        (by rw [h8]; omega)
      rw [h8] at hbytes
      omega
    have hle : (ceilDiv numBytes d).toNat ≤ (numBytes.toNat + d.toNat - 1) / d.toNat := by
      by_cases hfits : numBytes.toNat + d.toNat - 1 < 2 ^ 32
      · rw [ceilDiv_toNat hpos hfits]
      · rw [ceilDiv_of_wrap (by omega)]
        exact Nat.zero_le _
    omega

/-- When the file holds all the records that the count announces, these are the table. -/
theorem readBAT_records {f : StoreFile} (hready : f.Ready) (junk : KeyField)
    (hrecords : ∀ i < (StoreFile.storedCount f.bytes).toNat,
      ∃ e : BATEntry, readAt f.bytes (recordOffset i) BATEntry.size = e.bytes)
    {i : Nat} {e : BATEntry} (hi : (f.readBAT junk ⟨0, []⟩).1.table[i]? = some e) :
    readAt f.bytes (recordOffset i) BATEntry.size = e.bytes := by
  obtain ⟨-, hlength⟩ := StoreFile.readBAT_any hready junk
  obtain ⟨hlt, -⟩ := List.getElem?_eq_some_iff.mp hi
  rw [hlength] at hlt
  set n := StoreFile.storedCount f.bytes with hn
  -- the table of the file
  choose entry hentry using hrecords
  set t : List BATEntry := List.ofFn fun j : Fin n.toNat => entry j.1 j.2 with ht
  have htlength : t.length = n.toNat := List.length_ofFn
  have hget : ∀ j e', t[j]? = some e' → readAt f.bytes (recordOffset j) BATEntry.size = e'.bytes :=
    fun j e' hj => by
      obtain ⟨hjlt, rfl⟩ := List.getElem?_eq_some_iff.mp hj
      rw [htlength] at hjlt
      rw [hentry j hjlt, List.getElem_ofFn]
  have hflat := (StoreFile.readAt_table_iff f.bytes t (Header.size + 4)).mpr hget
  have hcount : readAt f.bytes Header.size 4 = le32 n := by
    -- a record behind the count leaves nothing of it missing
    have hle := le_length_of_readAt f.bytes (entry i hlt).bytes
      (by rw [BATEntry.bytes_length]; exact hentry i hlt)
      (List.ne_nil_of_length_pos (by rw [BATEntry.bytes_length]; decide))
    have hfull : (readAt f.bytes Header.size 4).length = 4 := by
      refine readAt_length ?_
      unfold recordOffset at hle
      omega
    obtain ⟨w, hw⟩ := exists_le32 (readAt f.bytes Header.size 4) (by omega)
    rw [List.drop_eq_nil_of_le (by omega), List.append_nil] at hw
    have hover : StoreFile.overlay (le32 0) (le32 w) = le32 w := StoreFile.overlay_full rfl
    have hread := readLe32_append w []
    rw [List.append_nil] at hread
    rw [hw, hn, StoreFile.storedCount, hw, hover, hread]
    rfl
  have hholds : StoreFile.HoldsTable f.bytes t := by
    refine Or.inr ⟨n, htlength.symm, ?_⟩
    exact readAt_append_iff.mpr ⟨hcount, hflat⟩
  obtain ⟨n', -, hbat, -, -⟩ := StoreFile.readBAT_ready hready junk hholds
  rw [hbat] at hi
  exact hget i e hi

/-- The object once the header and the table of a file are read and the map is empty. -/
structure ReadIn (junk : Header) (bytes : Bytes) (m : UInt32) (ds : DiskStorage) : Prop where
  header : ds.header = storedHeader junk bytes
  numEntries : ds.bat.numEntries = StoreFile.storedCount bytes
  length : ds.bat.table.length = (StoreFile.storedCount bytes).toNat
  freeSpaceMap : ds.freeSpaceMap = FreeSpaceMap.initialise (ds.header.getNumDiskBlocks m)
  records : (∀ i < (StoreFile.storedCount bytes).toNat,
      ∃ e : BATEntry, readAt bytes (recordOffset i) BATEntry.size = e.bytes) →
    ∀ i e, ds.bat.table[i]? = some e → readAt bytes (recordOffset i) BATEntry.size = e.bytes

/-- The opening of a file, up to the map. -/
theorem exists_readIn (junk : Junk) (bytes : Bytes) (m keyLengthMax : UInt32) :
    ∃ ds : DiskStorage, ReadIn junk.header bytes m ds ∧
      initialiseFromFile junk m (fresh junk bytes [] keyLengthMax)
        = populateFreeSpaceMapFromFile ds ∧
      checkedInitialiseFromFile junk m (fresh junk bytes [] keyLengthMax)
        = if ds.header.diskBlockSize = 0 then none else checkedPopulate ds := by
  have hready₀ : (fresh junk bytes [] keyLengthMax).storeFile.Ready := ⟨rfl, rfl⟩
  obtain ⟨hheader, hready₁, hbytes₁⟩ := StoreFile.readHeader_any hready₀ junk.header
  set h := (fresh junk bytes [] keyLengthMax).storeFile.readHeader junk.header with hh
  have hbytes₁ : h.2.bytes = bytes := hbytes₁
  obtain ⟨hnum, hlength⟩ := StoreFile.readBAT_any hready₁ junk.entryKey
  rw [hbytes₁] at hnum hlength
  refine ⟨⟨h.1, (h.2.readBAT junk.entryKey ⟨0, []⟩).1,
    FreeSpaceMap.initialise (h.1.getNumDiskBlocks m), (h.2.readBAT junk.entryKey ⟨0, []⟩).2,
    keyLengthMax⟩, ⟨hheader, hnum, hlength, rfl, fun hrecords i e hi => ?_⟩, rfl, ?_⟩
  · have hrecord := readBAT_records hready₁ junk.entryKey (by rw [hbytes₁]; exact hrecords) hi
    rwa [hbytes₁] at hrecord
  · unfold checkedInitialiseFromFile checkedNumDiskBlocks
    dsimp only [fresh] at hh ⊢
    rw [← hh]
    split <;> rfl

section ReadIn

variable {junk : Header} {bytes : Bytes} {m : UInt32} {ds : DiskStorage}

theorem ReadIn.blockCapacity (h : ReadIn junk bytes m ds) :
    ds.freeSpaceMap.blockCapacity = ceilDiv m ds.header.diskBlockSize := by
  rw [h.freeSpaceMap]
  rfl

theorem ReadIn.numBits (h : ReadIn junk bytes m ds) : ds.freeSpaceMap.numBits
    = 8 * (ceilDiv (ceilDiv m ds.header.diskBlockSize) 8).toNat := by
  rw [FreeSpaceMap.numBits, ds.freeSpaceMap.size_eq, h.blockCapacity]

/-- A file made for another number of disk blocks is rejected. -/
theorem ReadIn.populate_throws (h : ReadIn junk bytes m ds) (hd : ds.header.diskBlockSize ≠ 0)
    (hassert : ceilDiv m ds.header.diskBlockSize
      ≠ ceilDiv ds.header.maxDataSize ds.header.diskBlockSize) :
    checkedPopulate ds = some (.error .assertBlockCapacity, ds) := by
  simp only [checkedPopulate, checkedNumDiskBlocks_of_ne hd, Option.bind_eq_bind,
    Option.bind_some, h.blockCapacity]
  exact if_pos hassert

/-- For any other file the whole table is allocated. -/
theorem ReadIn.populate_eq (h : ReadIn junk bytes m ds) (hd : ds.header.diskBlockSize ≠ 0)
    (hassert : ¬ ceilDiv m ds.header.diskBlockSize
      ≠ ceilDiv ds.header.maxDataSize ds.header.diskBlockSize) :
    checkedPopulate ds = (checkedAllocateEntries ds.header ds.freeSpaceMap ds.bat.table).bind
      fun fsm => some (.ok (), { ds with freeSpaceMap := fsm }) := by
  have htake : ds.bat.table.take ds.bat.numEntries.toNat = ds.bat.table := by
    rw [h.numEntries, ← h.length, List.take_length]
  simp only [checkedPopulate, checkedNumDiskBlocks_of_ne hd, Option.bind_eq_bind,
    Option.bind_some, h.blockCapacity, htake]
  exact if_neg hassert

/-- A store that is in order was opened on a file that is. -/
theorem ReadIn.fileOk (h : ReadIn junk bytes m ds) (hd : ds.header.diskBlockSize ≠ 0)
    {fsm : FreeSpaceMap}
    (hfsm : checkedAllocateEntries ds.header ds.freeSpaceMap ds.bat.table = some fsm)
    (hval : Validated bytes { ds with freeSpaceMap := fsm }) :
    FileOk ds.header (ceilDiv m ds.header.diskBlockSize) bytes := by
  have hinside := (checkedAllocateEntries_isSome hd ds.bat.table ds.freeSpaceMap).mp
    (Option.isSome_iff_exists.mpr ⟨fsm, hfsm⟩)
  rw [h.numBits] at hinside
  refine ⟨hval.magic, fun i hi => ?_⟩
  have hlt : i < ds.bat.table.length := by rwa [h.length]
  have hentry := hval.entries i _ (List.getElem?_eq_getElem hlt)
  rw [blockCapacity_of_checkedAllocateEntries _ hfsm, h.blockCapacity] at hentry
  exact ⟨_, hentry, (inBitmap_iff hd hentry.inside).mp (hinside _ (List.getElem_mem hlt))⟩

/-- The entries read from a file in order are those it is in order with. -/
theorem ReadIn.entries (h : ReadIn junk bytes m ds)
    (hfile : FileOk ds.header (ceilDiv m ds.header.diskBlockSize) bytes) {i : Nat} {e : BATEntry}
    (hi : ds.bat.table[i]? = some e) :
    EntryOk ds.header (ceilDiv m ds.header.diskBlockSize) bytes i e ∧
      (e.numBytes.toNat = 0 ∨ (ceilDiv m ds.header.diskBlockSize).toNat + 7 < 2 ^ 32) := by
  have hrecord := h.records (fun i hi => by
    obtain ⟨e, he, -⟩ := hfile.entries i hi
    exact ⟨e, he.record⟩) i e hi
  obtain ⟨hlt, -⟩ := List.getElem?_eq_some_iff.mp hi
  obtain ⟨e', he', hempty⟩ := hfile.entries i (by rwa [← h.length])
  obtain rfl : e = e' := BATEntry.bytes_inj (hrecord.symm.trans he'.record)
  exact ⟨he', hempty⟩

/-- A file that is in order goes through, and the store is in order. -/
theorem ReadIn.validated (h : ReadIn junk bytes m ds) (hd : ds.header.diskBlockSize ≠ 0)
    (hfile : FileOk ds.header (ceilDiv m ds.header.diskBlockSize) bytes) :
    ∃ fsm, checkedAllocateEntries ds.header ds.freeSpaceMap ds.bat.table = some fsm ∧
      Validated bytes { ds with freeSpaceMap := fsm } := by
  have hinside := checkedAllocateEntries_isSome hd ds.bat.table ds.freeSpaceMap
  rw [h.numBits] at hinside
  have hsome := hinside.mpr fun e he => by
    obtain ⟨i, hi⟩ := List.mem_iff_getElem?.mp he
    obtain ⟨hentry, hempty⟩ := h.entries hfile hi
    exact (inBitmap_iff hd hentry.inside).mpr hempty
  obtain ⟨fsm, hfsm⟩ := Option.isSome_iff_exists.mp hsome
  refine ⟨fsm, hfsm, hfile.magic, ?_, ?_, fun i e hi => ?_⟩
  · exact Nat.pos_of_ne_zero fun h => hd (UInt32.toNat_inj.mp h)
  · show ds.bat.numEntries.toNat = ds.bat.table.length
    rw [h.numEntries, h.length]
  · have hentry := (h.entries hfile hi).1
    rwa [← h.blockCapacity, ← blockCapacity_of_checkedAllocateEntries _ hfsm] at hentry

end ReadIn

/-- **When opening a file is safe**: exactly when the header in the file has a size of disk blocks,
and the file is made for another number of them than the object, which is an exception, or was
written by a store. -/
theorem opensSafely_iff (junk : Junk) (bytes : Bytes) (d m keyLengthMax : UInt32) :
    OpensSafely junk bytes d m keyLengthMax ↔
      (storedHeader junk.header bytes).diskBlockSize ≠ 0 ∧
        (ceilDiv m (storedHeader junk.header bytes).diskBlockSize
            ≠ ceilDiv (storedHeader junk.header bytes).maxDataSize
                (storedHeader junk.header bytes).diskBlockSize ∨
          FileOk (storedHeader junk.header bytes)
            (ceilDiv m (storedHeader junk.header bytes).diskBlockSize) bytes) := by
  obtain ⟨ds, hin, -, hopen⟩ := exists_readIn junk bytes m keyLengthMax
  rw [← hin.header]
  by_cases hd : ds.header.diskBlockSize = 0
  · -- a division by zero
    rw [if_pos hd] at hopen
    refine iff_of_false ?_ fun hcond => hcond.1 hd
    rintro ⟨r, hr, -⟩
    rw [hopen] at hr
    cases hr
  rw [if_neg hd] at hopen
  have hconstruct : ∀ r, checkedPopulate ds = some r →
      construct junk (some bytes) [] d m false keyLengthMax = r :=
    fun r hr => initialiseFromFile_of_checked (hopen.trans hr)
  by_cases hassert : ceilDiv m ds.header.diskBlockSize
      ≠ ceilDiv ds.header.maxDataSize ds.header.diskBlockSize
  · have hthrows := hin.populate_throws hd hassert
    exact iff_of_true ⟨_, hopen.trans hthrows, hconstruct _ hthrows, Or.inl ⟨_, rfl⟩⟩
      ⟨hd, Or.inl hassert⟩
  have hgoes := hin.populate_eq hd hassert
  constructor
  · rintro ⟨r, hr, -, hor⟩
    rw [hopen, hgoes, Option.bind_eq_some_iff] at hr
    obtain ⟨fsm, hfsm, hr⟩ := hr
    obtain rfl := Option.some.inj hr
    rcases hor with ⟨err, herr⟩ | hval
    · cases herr
    · exact ⟨hd, Or.inr (hin.fileOk hd hfsm hval)⟩
  · rintro ⟨-, hor⟩
    obtain ⟨fsm, hfsm, hval⟩ := hin.validated hd (hor.resolve_left hassert)
    have hends : checkedPopulate ds = some (.ok (), { ds with freeSpaceMap := fsm }) := by
      rw [hgoes, hfsm]
      rfl
    exact ⟨_, hopen.trans hends, hconstruct _ hends, Or.inr hval⟩

/-- A file of 24 zero bytes divides by zero, and one whose header has no magic number is opened. -/
theorem opening_unchecked :
    ¬ OpensSafely default (List.replicate 24 0) 8 64 50 ∧
      ¬ OpensSafely default (Header.bytes ⟨0, 24, 500, 8, 64, 524⟩) 8 64 50 := by
  constructor
  · rintro ⟨r, hr, -⟩
    have hnone : (checkedInitialiseFromFile default 64
        (fresh default (List.replicate 24 0) [] 50)).isSome = false := by decide +kernel
    rw [hr] at hnone
    cases hnone
  · rintro ⟨r, -, hr, ⟨err, herr⟩ | hval⟩
    · have hok : (construct default (some (Header.bytes ⟨0, 24, 500, 8, 64, 524⟩)) [] 8 64 false
          50).1.toBool = true := by decide +kernel
      rw [hr, herr] at hok
      cases hok
    · have hmagic := hval.magic
      rw [← hr] at hmagic
      revert hmagic
      decide +kernel

/-! ## Opening a store's own file again -/

/-- `reopen`, with every access checked. -/
def checkedReopen (junk : Junk) (maxDataSize : UInt32) (ds : DiskStorage) :
    Option (Except StorageError Unit × DiskStorage) :=
  checkedInitialiseFromFile junk maxDataSize
    (fresh junk ds.storeFile.bytes ds.storeFile.outcomes ds.keyLengthMax)

/-- No extent of the table `t` runs past the map. -/
def NoOverrun (ds : DiskStorage) (t : List BATEntry) : Prop :=
  ∀ e ∈ t, (ds.getNumDiskBlocks e.numBytes).toNat = 0 ∨
    e.startingDiskBlockNum.toNat + (ds.getNumDiskBlocks e.numBytes).toNat
      ≤ ds.freeSpaceMap.numBits

theorem populate_bat_header (ds : DiskStorage) :
    (populateFreeSpaceMapFromFile ds).2.bat = ds.bat ∧
      (populateFreeSpaceMapFromFile ds).2.header = ds.header := by
  unfold populateFreeSpaceMapFromFile
  split <;> exact ⟨rfl, rfl⟩

/-- The opening goes through exactly when no extent of the table in the file runs past the map. -/
theorem checkedReopen_isSome {d m : UInt32} {ds : DiskStorage} (hr : ds.Intact d m) (hd : d ≠ 0)
    (junk : Junk) {t : List BATEntry} (ht : StoreFile.HoldsTable ds.storeFile.bytes t) :
    (ds.checkedReopen junk m).isSome ↔ ds.NoOverrun t := by
  obtain ⟨rd, hin, hplain, hopen⟩ := exists_readIn junk ds.storeFile.bytes m ds.keyLengthMax
  obtain ⟨re, hre, htable, -, hheader, -⟩ := reopen_table hr junk ht
  -- what is read is what the opening that is not checked ends with
  obtain ⟨hbat, hhead⟩ := populate_bat_header rd
  have hre' : populateFreeSpaceMapFromFile rd = (.ok (), re) := by
    rw [← hplain, ← hre, reopen, hr.ready.outcomes]
    rfl
  rw [hre'] at hbat hhead
  have hheader' : rd.header = ds.header := hhead.symm.trans hheader
  have hblock : rd.header.diskBlockSize = d := by
    rw [hheader', hr.header]
    rfl
  have hmax : rd.header.maxDataSize = m := by
    rw [hheader', hr.header]
    rfl
  have hd' : rd.header.diskBlockSize ≠ 0 := by rwa [hblock]
  have hbits : rd.freeSpaceMap.numBits = ds.freeSpaceMap.numBits := by
    rw [hin.numBits, FreeSpaceMap.numBits, ds.freeSpaceMap.size_eq, hr.capacity, hblock]
  have hsome := checkedAllocateEntries_isSome hd' rd.bat.table rd.freeSpaceMap
  rw [← hbat, htable, hbits, hheader'] at hsome
  rw [checkedReopen, hr.ready.outcomes, hopen, if_neg hd',
    hin.populate_eq hd' (by rw [hmax]; exact fun h => h rfl), ← hbat, htable, hheader',
    Option.isSome_bind]
  refine Iff.trans ?_ hsome
  simp

/-- **Opening a store's own file again** does what `reopen` does, unless an extent of the table in
the file runs past the map; then the opening writes outside of the bitmap. -/
theorem checkedReopen_spec {d m : UInt32} {ds : DiskStorage} (hr : ds.Intact d m) (hd : d ≠ 0)
    (junk : Junk) {t : List BATEntry} (ht : StoreFile.HoldsTable ds.storeFile.bytes t) :
    (ds.NoOverrun t → ds.checkedReopen junk m = some (ds.reopen junk d m)) ∧
      (¬ ds.NoOverrun t → ds.checkedReopen junk m = none) := by
  have hiff := checkedReopen_isSome hr hd junk ht
  constructor
  · intro h
    obtain ⟨r, hsome⟩ := Option.isSome_iff_exists.mp (hiff.mpr h)
    rw [hsome, ← initialiseFromFile_of_checked hsome]
    rfl
  · intro h
    exact Option.not_isSome_iff_eq_none.mp (mt hiff.mp h)

end DiskStorage

end RackKey
