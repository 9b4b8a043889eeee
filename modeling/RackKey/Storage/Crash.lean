import RackKey.Lib.TornWrites
import RackKey.Storage.ReadBack
import RackKey.Storage.Rollback

set_option autoImplicit false

/-! # Writes that are cut off

`writeBlocks` updates its file twice: it writes the data, and then the whole table in place.
`crashed` is the file when these updates stop after some bytes. A stop that leaves the old table
keeps what other keys read, and what the key itself reads as long as no data was written over its
old blocks; a stop that leaves the new table is as good as no stop (`TableAfter.view`). In between
lie the bytes of the table that the call changes: the record of the key itself may be half written
there (`WriteOk.torn_set`, `WriteOk.torn_append`), and the count may have lost a carry
(`WriteOk.lost_carry`), but the other records and what they point to stay (`WriteOk.reads_torn`).
-/

namespace RackKey

open Words ByteFile MathUtils

namespace DiskStorage

section Updates

variable (sha256_32 : Bytes → UInt32) (ds : DiskStorage) (key : Bytes) (dataBlocks : List Block)

/-- What `writeBlocks` writes to its file, in order: the data, then the table. A call that throws
before it comes to the file writes nothing. -/
def fileUpdates : List (Nat × Bytes) :=
  if dataBlocks.length = 0 then []
  else
    let entry := ds.findEntry sha256_32 key
    let numTotalBytes := totalNumBytes dataBlocks
    match (ds.freeExisting entry).findNFreeBlocks (ds.getNumDiskBlocks numTotalBytes) with
    | none => []
    | some startingDiskBlockNum =>
        if (copyBlocks dataBlocks).length ≠ numTotalBytes.toNat then []
        else
          [((ds.getDiskBlockOffset startingDiskBlockNum).toNat, copyBlocks dataBlocks),
            (Header.size, (updateBAT sha256_32 ds.bat key startingDiskBlockNum numTotalBytes
              entry).bytes)]

/-- The file when the updates stop after `p` bytes. -/
def crashed (p : Nat) : Bytes :=
  torn 0 (fileUpdates sha256_32 ds key dataBlocks) p ds.storeFile.bytes

/-- The stop leaves the table of the file as the call found it. -/
def TableBefore (p : Nat) : Prop :=
  crashed sha256_32 ds key dataBlocks p
    = crashed sha256_32 ds key dataBlocks (min p (copyBlocks dataBlocks).length)

/-- The stop leaves the file as the whole call does. -/
def TableAfter (p : Nat) : Prop :=
  (ds.writeBlocks sha256_32 key dataBlocks).1 = .ok () ∧
    crashed sha256_32 ds key dataBlocks p
      = written 0 (fileUpdates sha256_32 ds key dataBlocks) ds.storeFile.bytes

/-- None of the first `p` bytes of data lies within the old blocks of the key. -/
def Spared (p : Nat) : Prop :=
  ∀ i e, ds.findEntry sha256_32 key = some (i, e) →
    ∀ w ∈ (fileUpdates sha256_32 ds key dataBlocks).head?,
      p = 0 ∨ w.1 + min p w.2.length ≤ (ds.getDiskBlockOffset e.startingDiskBlockNum).toNat ∨
        (ds.getDiskBlockOffset e.startingDiskBlockNum).toNat + e.numBytes.toNat ≤ w.1

/-- The stop does not leave the four bytes of the count half written with a carry lost. They change
for a new key only. -/
def CountWhole (p : Nat) : Prop :=
  ds.findEntry sha256_32 key ≠ none ∨ p ≤ (copyBlocks dataBlocks).length ∨
    (copyBlocks dataBlocks).length + 4 ≤ p ∨ (ds.bat.numEntries.toNat + 1) % 256 ≠ 0

/-- The bytes of the table that the call changes, counted from the start of the table: the place
and the size in the record of a stored key, or all bytes for a new one. -/
def changedBytes : Nat × Nat :=
  match ds.findEntry sha256_32 key with
  | some (i, _) => (4 + BATEntry.size * i + 54, 4 + BATEntry.size * i + 62)
  | none => (0, 4 + BATEntry.size * (ds.bat.table.length + 1))

/-- The number of entries of the table that the call writes. -/
def entriesAfter : Nat :=
  match ds.findEntry sha256_32 key with
  | some _ => ds.bat.table.length
  | none => ds.bat.table.length + 1

/-- In the file, the table that the call writes ends before the first disk block, and no offset of
a disk block wraps. -/
structure Regions : Prop where
  linear : ds.Linear
  room : Header.size + (4 + BATEntry.size * entriesAfter sha256_32 ds key)
    ≤ ds.header.blockStoreOffset.toNat

end Updates

/-- The same store on another file. -/
def withBytes (ds : DiskStorage) (bytes : Bytes) : DiskStorage :=
  { ds with storeFile := { ds.storeFile with bytes := bytes } }

variable {sha256_32 : Bytes → UInt32} {d m : UInt32} {ds ds' : DiskStorage} {key : Bytes}
variable {dataBlocks : List Block} {start : UInt32}

theorem Intact.withBytes {d m : UInt32} {ds : DiskStorage} (hi : ds.Intact d m) {bytes : Bytes}
    (h : readAt bytes 0 Header.size = ds.header.bytes) : (ds.withBytes bytes).Intact d m where
  sound := ⟨hi.sound.numEntries, hi.sound.table, hi.sound.marks⟩
  header := hi.header
  capacity := hi.capacity
  ready := ⟨hi.ready.closed, hi.ready.outcomes⟩
  fileHeader := h

/-! ## The updates of a call -/

theorem updateBAT_length (start n : UInt32) :
    (updateBAT sha256_32 ds.bat key start n (ds.findEntry sha256_32 key)).table.length
      = entriesAfter sha256_32 ds key := by
  unfold entriesAfter
  cases ds.findEntry sha256_32 key with
  | none => simp [updateBAT]
  | some ie => simp [updateBAT]

/-- The two updates of a call that returns. -/
theorem WriteOk.fileUpdates_eq (hw : WriteOk sha256_32 ds key dataBlocks start ds') :
    fileUpdates sha256_32 ds key dataBlocks
      = [((ds.getDiskBlockOffset start).toNat, copyBlocks dataBlocks),
          (Header.size, ds'.bat.bytes)] := by
  have hne : dataBlocks.length ≠ 0 := fun h0 => hw.nonempty (List.eq_nil_of_length_eq_zero h0)
  unfold fileUpdates
  rw [if_neg hne]
  simp only [hw.found]
  rw [if_neg (fun h => h hw.copied), hw.bat]

theorem WriteOk.table_length (hw : WriteOk sha256_32 ds key dataBlocks start ds') :
    ds'.bat.table.length = entriesAfter sha256_32 ds key := by
  rw [hw.bat, updateBAT_length]

/-- A call throws before it comes to the file, throws for what happens to the data there, or
returns. -/
theorem fileUpdates_stream (sha256_32 : Bytes → UInt32) (ds : DiskStorage) (key : Bytes)
    (dataBlocks : List Block) :
    (fileUpdates sha256_32 ds key dataBlocks = [] ∧
      (ds.writeBlocks sha256_32 key dataBlocks).1 ≠ .ok () ∧
      (ds.writeBlocks sha256_32 key dataBlocks).2.storeFile = ds.storeFile) ∨
    ∃ start, fileUpdates sha256_32 ds key dataBlocks ≠ [] ∧
      let r := ds.storeFile.writeExtent (ds.getDiskBlockOffset start) (copyBlocks dataBlocks)
      (r.1 ≠ .ok () ∧ (ds.writeBlocks sha256_32 key dataBlocks).1 ≠ .ok () ∧
        (ds.writeBlocks sha256_32 key dataBlocks).2.storeFile = r.2) ∨
      (r.1 = .ok () ∧ (ds.writeBlocks sha256_32 key dataBlocks).1 = .ok () ∧
        WriteOk sha256_32 ds key dataBlocks start (ds.writeBlocks sha256_32 key dataBlocks).2) := by
  rcases hcall : ds.writeBlocks sha256_32 key dataBlocks with ⟨outcome, ds'⟩
  cases outcome with
  | ok u =>
      obtain ⟨start, hw⟩ := writeBlocks_ok hcall
      exact Or.inr ⟨start, by rw [hw.fileUpdates_eq]; simp, Or.inr ⟨hw.written, rfl, hw⟩⟩
  | error err =>
      unfold writeBlocks at hcall
      unfold fileUpdates
      by_cases h0 : dataBlocks.length = 0
      · rw [if_pos h0] at hcall
        rw [if_pos h0]
        exact Or.inl ⟨rfl, by simp, by rw [← (Prod.mk.inj hcall).2]⟩
      rw [if_neg h0] at hcall
      rw [if_neg h0]
      dsimp only at hcall ⊢
      cases hfound : (ds.freeExisting (ds.findEntry sha256_32 key)).findNFreeBlocks
          (ds.getNumDiskBlocks (totalNumBytes dataBlocks)) with
      | none =>
          rw [hfound] at hcall
          exact Or.inl ⟨rfl, by simp, by rw [← (Prod.mk.inj hcall).2]⟩
      | some start =>
          rw [hfound] at hcall
          dsimp only at hcall ⊢
          by_cases hcopied : (copyBlocks dataBlocks).length ≠ (totalNumBytes dataBlocks).toNat
          · rw [if_pos hcopied] at hcall
            rw [if_pos hcopied]
            exact Or.inl ⟨rfl, by simp, by rw [← (Prod.mk.inj hcall).2]⟩
          rw [if_neg hcopied] at hcall
          rw [if_neg hcopied]
          refine Or.inr ⟨start, by simp, Or.inl ?_⟩
          cases hext : (ds.storeFile.writeExtent (ds.getDiskBlockOffset start)
              (copyBlocks dataBlocks)).1 with
          | ok u =>
              rw [hext] at hcall
              cases hcall
          | error err' =>
              rw [hext] at hcall
              exact ⟨by simp, by simp, by rw [← (Prod.mk.inj hcall).2]⟩

/-- With a stream in order, a call returns or updates nothing. -/
theorem fileUpdates_cases (sha256_32 : Bytes → UInt32) (key : Bytes) (dataBlocks : List Block)
    (hready : ds.storeFile.Ready) :
    (∃ start ds', ds.writeBlocks sha256_32 key dataBlocks = (.ok (), ds') ∧
      WriteOk sha256_32 ds key dataBlocks start ds') ∨
    ((ds.writeBlocks sha256_32 key dataBlocks).1 ≠ .ok () ∧
      fileUpdates sha256_32 ds key dataBlocks = []) := by
  rcases fileUpdates_stream sha256_32 ds key dataBlocks
    with ⟨hnil, hthrow, -⟩ | ⟨start, -, ⟨hbad, -, -⟩ | ⟨-, hok, hw⟩⟩
  · exact Or.inr ⟨hthrow, hnil⟩
  · rw [StoreFile.writeExtent_ready hready] at hbad
    exact absurd rfl hbad
  · exact Or.inl ⟨start, _, Prod.ext hok rfl, hw⟩

/-- **The updates are those of the call.** -/
theorem writeBlocks_bytes (hready : ds.storeFile.Ready) :
    (ds.writeBlocks sha256_32 key dataBlocks).2.storeFile.bytes
      = written 0 (fileUpdates sha256_32 ds key dataBlocks) ds.storeFile.bytes := by
  rcases fileUpdates_cases sha256_32 key dataBlocks hready
    with ⟨start, ds', hcall, hw⟩ | ⟨hthrow, hnil⟩
  · rw [hcall, hw.fileUpdates_eq, (hw.bytes hready).2]
    rfl
  · rcases hcall : ds.writeBlocks sha256_32 key dataBlocks with ⟨outcome, ds'⟩
    rw [hcall] at hthrow
    cases outcome with
    | ok u => exact absurd rfl hthrow
    | error err =>
        obtain ⟨fsm, rfl⟩ := writeBlocks_error_ready hready hcall
        rw [hnil]
        rfl

/-- The file after a stop: a part of the data, then a part of the table. -/
theorem WriteOk.crashed_eq (hw : WriteOk sha256_32 ds key dataBlocks start ds') (p : Nat) :
    crashed sha256_32 ds key dataBlocks p
      = writeAt 0 (writeAt 0 ds.storeFile.bytes (ds.getDiskBlockOffset start).toNat
          ((copyBlocks dataBlocks).take p)) Header.size
            (ds'.bat.bytes.take (p - (copyBlocks dataBlocks).length)) := by
  unfold crashed
  rw [hw.fileUpdates_eq]
  rfl

/-! ## While the table of the file is the old one -/

/-- The same reads after a restart, on a file that holds the table. -/
theorem reopen_contents (hi : ds.Intact d m) (hb : ds.Backed)
    (hfile : StoreFile.HoldsTable ds.storeFile.bytes ds.bat.table) (junk : Junk) :
    ∃ re, ds.reopen junk d m = (.ok (), re) ∧ re.Intact d m ∧ re.Backed ∧
      ∀ k, re.contents k = ds.contents k := by
  obtain ⟨re, hopen, hre, htable, hheader, hbytes, -⟩ :=
    reopen_spec hi junk hfile hi.sound.table
  obtain ⟨hcontents, hbacked⟩ := contents_congr ds re hheader htable hbytes
  exact ⟨re, hopen, hre.toIntact, hbacked hb, hcontents⟩

theorem Regions.table_le (hr : Regions sha256_32 ds key) :
    28 + 62 * ds.bat.table.length ≤ ds.header.blockStoreOffset.toNat := by
  have hroom := hr.room
  have hle : ds.bat.table.length ≤ entriesAfter sha256_32 ds key := by
    unfold entriesAfter
    split
    · exact Nat.le_refl _
    · exact Nat.le_succ _
  simp only [Header.size, BATEntry.size] at hroom
  omega

section AfterData

variable {data : Bytes}

/-- Data behind the table leaves the header and the table of the file. -/
theorem Regions.keeps (hr : Regions sha256_32 ds key) (hi : ds.Intact d m)
    (hfile : StoreFile.HoldsTable ds.storeFile.bytes ds.bat.table) {off : Nat}
    (hoff : ds.header.blockStoreOffset.toNat ≤ off) (data : Bytes) :
    (ds.withBytes (writeAt 0 ds.storeFile.bytes off data)).Intact d m ∧
      StoreFile.HoldsTable (writeAt 0 ds.storeFile.bytes off data) ds.bat.table := by
  have htable := hr.table_le
  refine ⟨hi.withBytes ?_, ?_⟩
  · have hlen : 0 + Header.size ≤ ds.storeFile.bytes.length := by
      have := le_length_of_readAt _ ds.header.bytes hi.fileHeader (by simp [Header.bytes, le32])
      rwa [Header.bytes_length] at this
    rw [readAt_writeAt_before 0 _ (by simp only [Header.size]; omega) hlen, hi.fileHeader]
  · rcases hfile with ⟨hnil, hzero⟩ | ⟨n, hn, hbytes⟩
    · refine Or.inl ⟨hnil, fun x hx => ?_⟩
      rcases mem_readAt_writeAt_before 0 (by simp only [Header.size]; omega) hx with hx | hx
      · exact hzero x hx
      · exact hx
    · have hlen : Header.size + (BAT.mk n ds.bat.table).bytes.length ≤ ds.storeFile.bytes.length :=
        le_length_of_readAt _ _ hbytes (by simp [BAT.bytes, le32])
      have hsize := BAT.bytes_length (BAT.mk n ds.bat.table)
      simp only [BATEntry.size] at hsize
      refine Or.inr ⟨n, hn, ?_⟩
      rw [readAt_writeAt_before 0 _ (by simp only [Header.size]; omega) hlen, hbytes]

theorem WriteOk.base_le (hw : WriteOk sha256_32 ds key dataBlocks start ds') (hs : ds.Sound)
    (hlin : ds.Linear) :
    ds.header.blockStoreOffset.toNat ≤ (ds.getDiskBlockOffset start).toNat := by
  obtain ⟨hN, hin, -⟩ := hw.extent hs
  rw [hlin start (by omega)]
  exact Nat.le_add_right _ _

/-- **While data is written**, the other keys keep their contents, and so does the key itself as
long as the data spares its old blocks. -/
theorem WriteOk.contents_afterData (hw : WriteOk sha256_32 ds key dataBlocks start ds')
    (hs : ds.Sound) (hb : ds.Backed) (hr : Regions sha256_32 ds key)
    (hdata : data.length ≤ (copyBlocks dataBlocks).length) :
    let s := ds.withBytes
      (writeAt 0 ds.storeFile.bytes (ds.getDiskBlockOffset start).toNat data)
    s.Backed ∧ (∀ k, k ≠ sha256_32 key → s.contents k = ds.contents k) ∧
      ((∀ i e, ds.findEntry sha256_32 key = some (i, e) → data = [] ∨
          (ds.getDiskBlockOffset start).toNat + data.length
            ≤ (ds.getDiskBlockOffset e.startingDiskBlockNum).toNat ∨
          (ds.getDiskBlockOffset e.startingDiskBlockNum).toNat + e.numBytes.toNat
            ≤ (ds.getDiskBlockOffset start).toNat) →
        s.contents (sha256_32 key) = ds.contents (sha256_32 key)) := by
  obtain ⟨hN, hin, hfree⟩ := hw.extent hs
  have htable := hr.table_le
  rw [hw.copied] at hdata
  intro s
  have hfind : s.findEntry sha256_32 key = ds.findEntry sha256_32 key := rfl
  refine ⟨fun y hy => Nat.le_trans (hb y hy) (length_le_writeAt_length 0 _ _ _),
    fun k hk => ?_, fun hspared => ?_⟩
  · show (Keyed.lookup BATEntry.keyHash ds.bat.table k).map _
      = (Keyed.lookup BATEntry.keyHash ds.bat.table k).map _
    cases hy : Keyed.lookup BATEntry.keyHash ds.bat.table k with
    | none => rfl
    | some y =>
        obtain ⟨hmemy, hyk⟩ := Keyed.lookup_eq_some hy
        have hnil : Header.size + ([] : Bytes).length ≤ ds.header.blockStoreOffset.toNat := by
          simp only [Header.size, List.length_nil]
          omega
        have hread := hr.linear.readAt_other hN hin (hs.table.nonempty y hmemy)
          (hs.table.inside y hmemy) (hfree y hmemy (by rw [hyk]; exact hk)) (hb y hmemy) hdata hnil
        rw [writeAt_nil] at hread
        exact congrArg some hread
  · cases hf : ds.findEntry sha256_32 key with
    | none => rw [contents_eq_none hf, contents_eq_none (hfind.trans hf)]
    | some ie =>
        obtain ⟨i, e⟩ := ie
        have he := (findEntry_eq_some hf).2.2.1
        rw [contents_eq_some hf, contents_eq_some (hfind.trans hf)]
        refine congrArg some ?_
        show readAt (writeAt 0 ds.storeFile.bytes (ds.getDiskBlockOffset start).toNat data)
          (ds.getDiskBlockOffset e.startingDiskBlockNum).toNat e.numBytes.toNat = _
        rcases hspared i e hf with rfl | h | h
        · rfl
        · exact readAt_writeAt_after 0 _ _ h
        · exact readAt_writeAt_before 0 _ h (hb e he)

end AfterData

variable {p : Nat}

/-- A call that throws before it comes to the file leaves the file. -/
theorem crashed_of_nil (h : fileUpdates sha256_32 ds key dataBlocks = []) (p : Nat) :
    crashed sha256_32 ds key dataBlocks p = ds.storeFile.bytes := by
  rw [crashed, h]
  rfl

/-- The file after a stop that leaves the table: a part of the data is written. -/
theorem WriteOk.crashed_before (hw : WriteOk sha256_32 ds key dataBlocks start ds')
    (h : TableBefore sha256_32 ds key dataBlocks p) :
    crashed sha256_32 ds key dataBlocks p
      = writeAt 0 ds.storeFile.bytes (ds.getDiskBlockOffset start).toNat
          ((copyBlocks dataBlocks).take (min p (copyBlocks dataBlocks).length)) := by
  rw [h, hw.crashed_eq, Nat.sub_eq_zero_of_le (Nat.min_le_right _ _), List.take_zero, writeAt_nil]

theorem TableBefore.view (h : TableBefore sha256_32 ds key dataBlocks p) (hi : ds.Intact d m)
    (hb : ds.Backed) (hfile : StoreFile.HoldsTable ds.storeFile.bytes ds.bat.table)
    (hr : Regions sha256_32 ds key) :
    let s := ds.withBytes (crashed sha256_32 ds key dataBlocks p)
    s.Intact d m ∧ s.Backed ∧ StoreFile.HoldsTable s.storeFile.bytes s.bat.table ∧
      (∀ k, k ≠ sha256_32 key → s.contents k = ds.contents k) ∧
      (Spared sha256_32 ds key dataBlocks p →
        s.contents (sha256_32 key) = ds.contents (sha256_32 key)) := by
  rcases fileUpdates_cases sha256_32 key dataBlocks hi.ready
    with ⟨start, ds', -, hw⟩ | ⟨-, hnil⟩
  · rw [hw.crashed_before h]
    have hlen : ((copyBlocks dataBlocks).take (min p (copyBlocks dataBlocks).length)).length
        = min p (copyBlocks dataBlocks).length := by
      rw [List.length_take]
      omega
    obtain ⟨hintact, hholds⟩ := hr.keeps hi hfile (hw.base_le hi.sound hr.linear)
      ((copyBlocks dataBlocks).take (min p (copyBlocks dataBlocks).length))
    obtain ⟨hbacked, hother, hself⟩ := hw.contents_afterData hi.sound hb hr (by rw [hlen]; omega)
    refine ⟨hintact, hbacked, hholds, hother, fun hspared => hself fun i e hf => ?_⟩
    rw [hlen]
    rcases hspared i e hf _ (by rw [hw.fileUpdates_eq]; rfl) with hp | hp
    · refine Or.inl ?_
      rw [hp, Nat.zero_min, List.take_zero]
    · exact Or.inr hp
  · rw [crashed_of_nil hnil]
    exact ⟨hi, hb, hfile, fun _ _ => rfl, fun _ => rfl⟩

/-! ## When the table of the file is the new one -/

theorem Regions.headerClear (hr : Regions sha256_32 ds key) :
    HeaderClear ds.header ds.freeSpaceMap.numBits := by
  intro b hb
  have hoff := hr.linear b hb
  have hbase := hr.room
  rw [DiskStorage.getDiskBlockOffset] at hoff
  omega

theorem WriteOk.table_room (hw : WriteOk sha256_32 ds key dataBlocks start ds')
    (hr : Regions sha256_32 ds key) :
    Header.size + ds'.bat.bytes.length ≤ ds.header.blockStoreOffset.toNat := by
  rw [BAT.bytes_length, hw.table_length]
  exact hr.room

/-- A restart after a stop that leaves the new table is one after the call. -/
theorem TableAfter.view (h : TableAfter sha256_32 ds key dataBlocks p) (hi : ds.Intact d m)
    (hb : ds.Backed) (hr : Regions sha256_32 ds key) (junk : Junk) :
    ∃ re, (ds.withBytes (crashed sha256_32 ds key dataBlocks p)).reopen junk d m = (.ok (), re) ∧
      re.Intact d m ∧ re.Backed ∧ (copyBlocks dataBlocks).length < 2 ^ 32 ∧
      ∀ k, re.contents k
        = if k = sha256_32 key then some (copyBlocks dataBlocks) else ds.contents k := by
  obtain ⟨hok, hcrashed⟩ := h
  have hcall : ds.writeBlocks sha256_32 key dataBlocks
      = (.ok (), (ds.writeBlocks sha256_32 key dataBlocks).2) := Prod.ext hok rfl
  rw [← writeBlocks_bytes hi.ready] at hcrashed
  set ds' := (ds.writeBlocks sha256_32 key dataBlocks).2
  obtain ⟨start, hw⟩ := writeBlocks_ok hcall
  obtain ⟨hb', hcontents⟩ := hw.contents_of_linear hr.linear hi hb (hw.table_room hr)
  obtain ⟨hr', hholds⟩ := hw.recoverable hi hr.headerClear
  obtain ⟨re, hopen, hintact, hbre, hcre⟩ := reopen_contents hr'.toIntact hb' hholds junk
  have hreopen : (ds.withBytes (crashed sha256_32 ds key dataBlocks p)).reopen junk d m
      = ds'.reopen junk d m := by
    unfold reopen withBytes
    rw [hcrashed, hw.keyLengthMax, hr'.ready.outcomes, hi.ready.outcomes]
  refine ⟨re, hreopen.trans hopen, hintact, hbre, ?_, fun k => (hcre k).trans (hcontents k)⟩
  rw [hw.copied]
  exact UInt32.toNat_lt _

/-! ## While the table is written over -/

/-- A count that is written over by its successor, up to a stop. It is the old count, the new one,
or one that has lost a carry. -/
theorem torn_count {n : UInt32} (h : n.toNat + 1 < 2 ^ 32) (q : Nat) :
    ∃ c : UInt32, splice q (le32 (n + 1)) (le32 n) = le32 c ∧ c.toNat ≤ n.toNat + 1 ∧
      (4 ≤ q ∨ 0 < q ∧ (n.toNat + 1) % 256 ≠ 0 → c = n + 1) ∧
      (q = 1 → (n.toNat + 1) % 256 = 0 → c.toNat + 255 = n.toNat) := by
  have hsucc : (n + 1).toNat = n.toNat + 1 := by
    rw [UInt32.toNat_add, UInt32.toNat_one]
    omega
  have hword : ∀ a b c d : UInt8, (ofLe32 a b c d).toNat
      = a.toNat + 256 * b.toNat + 65536 * c.toNat + 16777216 * d.toNat := by
    intro a b c d
    have ha : a.toNat < 256 := a.toNat_lt
    have hb : b.toNat < 256 := b.toNat_lt
    have hc : c.toNat < 256 := c.toNat_lt
    have hd : d.toNat < 256 := d.toNat_lt
    simp only [ofLe32, UInt32.toNat_ofNat']
    omega
  rcases Nat.lt_or_ge q 4 with hq | hq
  · rcases Nat.eq_zero_or_pos q with rfl | hpos
    · exact ⟨n, rfl, Nat.le_succ _, by omega, by omega⟩
    · -- one, two or three bytes are those of the new count
      have hbytes : ∃ a b c d : UInt8, splice q (le32 (n + 1)) (le32 n) = [a, b, c, d] ∧
          a.toNat + 256 * b.toNat + 65536 * c.toNat + 16777216 * d.toNat ≤ n.toNat + 1 ∧
          ((n.toNat + 1) % 256 ≠ 0 →
            a.toNat + 256 * b.toNat + 65536 * c.toNat + 16777216 * d.toNat = n.toNat + 1) ∧
          (q = 1 → (n.toNat + 1) % 256 = 0 →
            a.toNat + 256 * b.toNat + 65536 * c.toNat + 16777216 * d.toNat + 255 = n.toNat) := by
        obtain rfl | rfl | rfl : q = 1 ∨ q = 2 ∨ q = 3 := by omega
        all_goals
          refine ⟨_, _, _, _, rfl, ?_⟩
          simp only [UInt8.toNat_ofNat', hsucc]
          omega
      obtain ⟨a, b, c, d, hsplice, hle, heq, hlost⟩ := hbytes
      refine ⟨ofLe32 a b c d, ?_, ?_, fun h4 => ?_, fun h1 hcarry => ?_⟩
      · rw [hsplice, le32_ofLe32]
      · rw [hword]
        exact hle
      · apply UInt32.toNat_inj.mp
        rw [hword, hsucc]
        exact heq (by omega)
      · rw [hword]
        exact hlost h1 hcarry
  · exact ⟨n + 1, splice_of_length_le rfl hq, Nat.le_of_eq hsucc, fun _ => rfl, by omega⟩

section Torn

variable {d m : UInt32} {ds ds' : DiskStorage} {key : Bytes} {dataBlocks : List Block}
variable {start : UInt32} {p : Nat}

/-- Once the data is written, the file reaches up to the disk blocks and has the old table. -/
theorem WriteOk.table_afterData (hw : WriteOk sha256_32 ds key dataBlocks start ds')
    (hi : ds.Intact d m) (hfile : StoreFile.HoldsTable ds.storeFile.bytes ds.bat.table)
    (hr : Regions sha256_32 ds key) :
    let f := writeAt 0 ds.storeFile.bytes (ds.getDiskBlockOffset start).toNat
      (copyBlocks dataBlocks)
    ds.header.blockStoreOffset.toNat ≤ f.length ∧
      readAt f Header.size ds.bat.bytes.length = ds.bat.bytes := by
  intro f
  have hbase := hw.base_le hi.sound hr.linear
  have htable := hr.table_le
  have hne : copyBlocks dataBlocks ≠ [] := by
    intro hnil
    have hlen := four_mul_length_le_copyBlocks dataBlocks
    rw [hnil, List.length_nil] at hlen
    exact hw.nonempty (List.eq_nil_of_length_eq_zero (by omega))
  have hlong : ds.header.blockStoreOffset.toNat ≤ f.length := by
    have hlen : f.length = _ := writeAt_length 0 ds.storeFile.bytes
      (ds.getDiskBlockOffset start).toNat hne
    omega
  refine ⟨hlong, ?_⟩
  rcases (hr.keeps hi hfile hbase (copyBlocks dataBlocks)).2 with ⟨hnil, hzero⟩ | ⟨n, hn, hbytes⟩
  · -- nothing was written yet: the count is zero
    have hnum : ds.bat.numEntries = 0 := by
      apply UInt32.toNat_inj.mp
      rw [hi.sound.numEntries, hnil]
      rfl
    have hbat : ds.bat.bytes = List.replicate 4 0 := by
      rw [BAT.bytes, hnum, hnil]
      rfl
    rw [hbat, List.length_replicate]
    have hfour : (readAt f Header.size 4).length = 4 :=
      readAt_length (by simp only [Header.size]; omega)
    have hrep := List.eq_replicate_of_mem hzero
    rwa [hfour] at hrep
  · have hnum : n = ds.bat.numEntries :=
      UInt32.toNat_inj.mp (hn.trans hi.sound.numEntries.symm)
    rw [hnum] at hbytes
    exact hbytes

/-- For a stored key the two tables differ in the place and the size of its record. -/
theorem WriteOk.bytes_stored (hw : WriteOk sha256_32 ds key dataBlocks start ds') {i : Nat}
    {e : BATEntry} (he : ds.findEntry sha256_32 key = some (i, e)) :
    ∃ before behind : Bytes, before.length = 4 + BATEntry.size * i + 54 ∧
      ds.bat.bytes = before ++ ((le32 e.startingDiskBlockNum ++ le32 e.numBytes) ++ behind) ∧
      ds'.bat.bytes = before ++ ((le32 start ++ le32 (totalNumBytes dataBlocks)) ++ behind) ∧
      ∀ place numBytes, (BAT.mk ds.bat.numEntries (ds.bat.table.set i
          { e with startingDiskBlockNum := place, numBytes := numBytes })).bytes
        = before ++ ((le32 place ++ le32 numBytes) ++ behind) := by
  have hat := (findEntry_eq_some he).2.1
  obtain ⟨before, behind, hlen, hbytes⟩ := BAT.bytes_set ds.bat.numEntries hat
  refine ⟨before, behind, hlen, ?_, ?_, hbytes⟩
  · obtain ⟨hlt, hget⟩ := List.getElem?_eq_some_iff.mp hat
    have hself : ds.bat.table.set i e = ds.bat.table := by
      rw [← hget]
      exact List.set_getElem_self hlt
    have hsame := hbytes e.startingDiskBlockNum e.numBytes
    rwa [show { e with } = e from rfl, hself] at hsame
  · rw [hw.bat, he]
    exact hbytes start (totalNumBytes dataBlocks)

theorem WriteOk.bytes_length_stored (hw : WriteOk sha256_32 ds key dataBlocks start ds')
    {ie : Nat × BATEntry} (he : ds.findEntry sha256_32 key = some ie) :
    ds'.bat.bytes.length = ds.bat.bytes.length := by
  rw [BAT.bytes_length, BAT.bytes_length, hw.table_length, entriesAfter, he]

/-- **The table of a stop, for a stored key**: the place and the size in its record may be half
written. -/
theorem WriteOk.torn_set (hw : WriteOk sha256_32 ds key dataBlocks start ds')
    (hi : ds.Intact d m) (hfile : StoreFile.HoldsTable ds.storeFile.bytes ds.bat.table)
    (hr : Regions sha256_32 ds key) {i : Nat} {e : BATEntry}
    (he : ds.findEntry sha256_32 key = some (i, e)) (hp : (copyBlocks dataBlocks).length ≤ p) :
    ∃ place numBytes, StoreFile.HoldsTable (crashed sha256_32 ds key dataBlocks p)
      (ds.bat.table.set i { e with startingDiskBlockNum := place, numBytes := numBytes }) := by
  obtain ⟨-, hold⟩ := hw.table_afterData hi hfile hr
  obtain ⟨before, behind, -, hbytes₀, hbytes₁, hbytes⟩ := hw.bytes_stored he
  have hlen := hw.bytes_length_stored he
  have hwide : (le32 start ++ le32 (totalNumBytes dataBlocks)).length
      = (le32 e.startingDiskBlockNum ++ le32 e.numBytes).length := rfl
  -- of the eight bytes, those up to the stop are new
  obtain ⟨place, numBytes, hwords⟩ := exists_two_le32
    (splice (p - (copyBlocks dataBlocks).length - before.length)
      (le32 start ++ le32 (totalNumBytes dataBlocks))
      (le32 e.startingDiskBlockNum ++ le32 e.numBytes))
    (splice_length _ hwide)
  refine ⟨place, numBytes, Or.inr ⟨ds.bat.numEntries, ?_, ?_⟩⟩
  · rw [hi.sound.numEntries, List.length_set]
  · have hsplice : splice (p - (copyBlocks dataBlocks).length) ds'.bat.bytes ds.bat.bytes
        = (BAT.mk ds.bat.numEntries (ds.bat.table.set i
            { e with startingDiskBlockNum := place, numBytes := numBytes })).bytes := by
      rw [hbytes₁, hbytes₀, splice_append _ rfl, splice_self, splice_append _ hwide, splice_self,
        hwords, hbytes]
    rw [← hsplice, splice_length _ hlen, hw.crashed_eq, List.take_of_length_le hp]
    exact readAt_writeAt_take 0 _ hlen hold

/-- **The table of a stop, for a new key**: a record at the end may be half written, as far as the
count on the file reaches. -/
theorem WriteOk.torn_append (hw : WriteOk sha256_32 ds key dataBlocks start ds')
    (hi : ds.Intact d m) (hfile : StoreFile.HoldsTable ds.storeFile.bytes ds.bat.table)
    (hr : Regions sha256_32 ds key) (he : ds.findEntry sha256_32 key = none)
    (hp : (copyBlocks dataBlocks).length ≤ p) :
    ∃ c x, StoreFile.HoldsTable (crashed sha256_32 ds key dataBlocks p)
        ((ds.bat.table ++ [x]).take c) ∧
      ((copyBlocks dataBlocks).length + 4 ≤ p ∨ (copyBlocks dataBlocks).length < p ∧
        (ds.bat.numEntries.toNat + 1) % 256 ≠ 0 → c = ds.bat.table.length + 1) ∧
      (p = (copyBlocks dataBlocks).length + 1 → (ds.bat.numEntries.toNat + 1) % 256 = 0 →
        c + 255 = ds.bat.table.length) := by
  obtain ⟨hlong, hold⟩ := hw.table_afterData hi hfile hr
  have hroom := hw.table_room hr
  set f := writeAt 0 ds.storeFile.bytes (ds.getDiskBlockOffset start).toNat (copyBlocks dataBlocks)
    with hf
  have hnum := hi.sound.numEntries
  have hlt : ds.bat.numEntries.toNat + 1 < 2 ^ 32 := by
    have hnum' := (hw.sound hi.sound).1.numEntries
    have hword := ds'.bat.numEntries.toNat_lt
    rw [hnum', hw.bat, he, updateBAT, List.length_append, List.length_singleton] at hword
    omega
  have hbytes : ds'.bat.bytes = le32 (ds.bat.numEntries + 1) ++ (ds.bat.table.flatMap BATEntry.bytes
      ++ BATEntry.bytes ⟨KeyField.ofKey key, sha256_32 key, start, totalNumBytes dataBlocks⟩) := by
    rw [hw.bat, he]
    simp [updateBAT, BAT.bytes]
  have hlen : ds'.bat.bytes.length = ds.bat.bytes.length + BATEntry.size := by
    rw [hbytes, BAT.bytes]
    simp only [List.length_append, le32_length, BATEntry.bytes_length]
    omega
  -- behind the old table the file has 62 bytes of something
  obtain ⟨x₀, hx₀⟩ := BATEntry.exists_bytes
    (readAt f (Header.size + ds.bat.bytes.length) BATEntry.size)
    (readAt_length (by omega))
  have hregion : readAt f Header.size (ds.bat.bytes ++ x₀.bytes).length
      = ds.bat.bytes ++ x₀.bytes := by
    rw [readAt_append_iff, BATEntry.bytes_length]
    exact ⟨hold, hx₀.symm⟩
  have hsame : ds'.bat.bytes.length = (ds.bat.bytes ++ x₀.bytes).length := by
    rw [hlen, List.length_append, BATEntry.bytes_length]
  -- a stop leaves a count, the old records, and a record that may be half written
  obtain ⟨c, hc, hcle, hcount, hlost⟩ := torn_count hlt (p - (copyBlocks dataBlocks).length)
  obtain ⟨x, hx⟩ := BATEntry.exists_bytes
    (splice (p - (copyBlocks dataBlocks).length - 4
        - (ds.bat.table.flatMap BATEntry.bytes).length)
      (BATEntry.bytes ⟨KeyField.ofKey key, sha256_32 key, start, totalNumBytes dataBlocks⟩)
      x₀.bytes)
    (by rw [splice_length _ (by rw [BATEntry.bytes_length, BATEntry.bytes_length]),
      BATEntry.bytes_length])
  have hsplice : splice (p - (copyBlocks dataBlocks).length) ds'.bat.bytes
      (ds.bat.bytes ++ x₀.bytes)
      = (BAT.mk c ((ds.bat.table ++ [x]).take c.toNat)).bytes
        ++ ((ds.bat.table ++ [x]).drop c.toNat).flatMap BATEntry.bytes := by
    have hall : ds.bat.table.flatMap BATEntry.bytes ++ x.bytes
        = (ds.bat.table ++ [x]).flatMap BATEntry.bytes := by simp
    have hcount : (le32 (ds.bat.numEntries + 1)).length = (le32 ds.bat.numEntries).length := rfl
    rw [hbytes, BAT.bytes, List.append_assoc, splice_append _ hcount, le32_length,
      splice_append _ rfl, splice_self, hc, ← hx, hall, BAT.bytes, List.append_assoc,
      ← List.flatMap_append, List.take_append_drop]
  refine ⟨c.toNat, x, Or.inr ⟨c, ?_, ?_⟩, fun h => ?_, fun h hcarry => ?_⟩
  · rw [List.length_take, List.length_append, List.length_singleton]
    omega
  · have hwhole := readAt_writeAt_take 0 (p - (copyBlocks dataBlocks).length) hsame hregion
    rw [← splice_length (p - (copyBlocks dataBlocks).length) hsame, hsplice,
      readAt_append_iff] at hwhole
    rw [hw.crashed_eq, List.take_of_length_le hp]
    exact hwhole.1
  · rw [hcount (by omega), UInt32.toNat_add, UInt32.toNat_one]
    omega
  · rw [hlost (by omega) hcarry, hnum]

/-- A record that keeps its hash leaves the lookups of other hashes. -/
theorem lookup_set_other (hn : (ds.bat.table.map BATEntry.keyHash).Nodup) {i : Nat} {e : BATEntry}
    (he : ds.findEntry sha256_32 key = some (i, e)) (place numBytes : UInt32) {k : UInt32}
    (hk : k ≠ sha256_32 key) :
    Keyed.lookup BATEntry.keyHash
        (ds.bat.table.set i { e with startingDiskBlockNum := place, numBytes := numBytes }) k
      = Keyed.lookup BATEntry.keyHash ds.bat.table k := by
  set x : BATEntry := { e with startingDiskBlockNum := place, numBytes := numBytes }
  obtain ⟨hfind, -, -, hkey⟩ := findEntry_eq_some he
  rw [← hkey] at hfind hk
  have hmem : ∀ y, y ∈ ds.bat.table.set i x ↔ y = x ∨ (y ∈ ds.bat.table ∧ y.keyHash ≠ e.keyHash) :=
    fun y => Keyed.mem_set (x := x) hn hfind
  have hmap : (ds.bat.table.set i x).map BATEntry.keyHash = ds.bat.table.map BATEntry.keyHash :=
    Keyed.map_set (x := x) hfind
  refine Keyed.lookup_congr hn (by rw [hmap]; exact hn) hk fun y hy => ?_
  rw [hmem]
  constructor
  · rintro (rfl | ⟨hmemy, -⟩)
    · exact absurd rfl hy
    · exact hmemy
  · exact fun hmemy => Or.inr ⟨hmemy, hy⟩

/-- **The table of a stop** finds what the old one found, except for the key itself, and for keys
that are not stored or a count that is half written when the key is new. -/
theorem WriteOk.torn_lookup (hw : WriteOk sha256_32 ds key dataBlocks start ds')
    (hi : ds.Intact d m) (hfile : StoreFile.HoldsTable ds.storeFile.bytes ds.bat.table)
    (hr : Regions sha256_32 ds key) (hp : (copyBlocks dataBlocks).length < p) :
    ∃ t, StoreFile.HoldsTable (crashed sha256_32 ds key dataBlocks p) t ∧
      ∀ k, k ≠ sha256_32 key → (ds.findEntry sha256_32 key ≠ none ∨
          CountWhole sha256_32 ds key dataBlocks p ∧
            Keyed.lookup BATEntry.keyHash ds.bat.table k ≠ none) →
        Keyed.lookup BATEntry.keyHash t k = Keyed.lookup BATEntry.keyHash ds.bat.table k := by
  cases he : ds.findEntry sha256_32 key with
  | some ie =>
      obtain ⟨i, e⟩ := ie
      obtain ⟨place, numBytes, hholds⟩ := hw.torn_set hi hfile hr he (Nat.le_of_lt hp)
      exact ⟨_, hholds, fun k hk _ => lookup_set_other hi.sound.table.hashes he place numBytes hk⟩
  | none =>
      obtain ⟨c, x, hholds, hcount, -⟩ := hw.torn_append hi hfile hr he (Nat.le_of_lt hp)
      refine ⟨_, hholds, fun k _ h => ?_⟩
      rcases h with h | ⟨hwhole, hstored⟩
      · exact absurd rfl h
      · obtain ⟨e, hlookup⟩ := Option.ne_none_iff_exists'.mp hstored
        have hc : c = ds.bat.table.length + 1 := by
          rcases hwhole with h | h | h | h
          · exact absurd he h
          · omega
          · exact hcount (Or.inl h)
          · exact hcount (Or.inr ⟨hp, h⟩)
        rw [hc, List.take_of_length_le (by simp), hlookup]
        rw [Keyed.lookup] at hlookup ⊢
        rw [List.find?_append, hlookup, Option.some_or]

theorem WriteOk.intact_crashed (hw : WriteOk sha256_32 ds key dataBlocks start ds')
    (hi : ds.Intact d m) (hfile : StoreFile.HoldsTable ds.storeFile.bytes ds.bat.table)
    (hr : Regions sha256_32 ds key) (p : Nat) :
    (ds.withBytes (crashed sha256_32 ds key dataBlocks p)).Intact d m := by
  obtain ⟨hintact, -⟩ := hr.keeps hi hfile (hw.base_le hi.sound hr.linear)
    ((copyBlocks dataBlocks).take p)
  have hheader : readAt (writeAt 0 ds.storeFile.bytes (ds.getDiskBlockOffset start).toNat
      ((copyBlocks dataBlocks).take p)) 0 Header.size = ds.header.bytes := hintact.fileHeader
  have hlen := le_length_of_readAt _ ds.header.bytes hheader (by simp [Header.bytes, le32])
  rw [Header.bytes_length] at hlen
  refine hi.withBytes ?_
  rw [hw.crashed_eq, readAt_writeAt_before 0 _ (by omega) hlen]
  exact hheader

/-- **Other keys after a stop in the table.** -/
theorem WriteOk.reads_torn (hw : WriteOk sha256_32 ds key dataBlocks start ds')
    (hi : ds.Intact d m) (hb : ds.Backed)
    (hfile : StoreFile.HoldsTable ds.storeFile.bytes ds.bat.table)
    (hr : Regions sha256_32 ds key) (junk : Junk) (hp : (copyBlocks dataBlocks).length < p) :
    ∃ re, (ds.withBytes (crashed sha256_32 ds key dataBlocks p)).reopen junk d m = (.ok (), re) ∧
      ∀ key', sha256_32 key' ≠ sha256_32 key → (ds.findEntry sha256_32 key ≠ none ∨
          CountWhole sha256_32 ds key dataBlocks p ∧ ds.findEntry sha256_32 key' ≠ none) →
        SameReads sha256_32 ds re key' := by
  obtain ⟨t, hholds, hlookup⟩ := hw.torn_lookup hi hfile hr hp
  obtain ⟨re, hopen, htable, -, hheader, hready, hbytes, -, -⟩ :=
    reopen_table (hw.intact_crashed hi hfile hr p) junk hholds
  have hroom := hw.table_room hr
  obtain ⟨hN, hin, hfree⟩ := hw.extent hi.sound
  refine ⟨re, hopen, fun key' hk h => ?_⟩
  have hstored : ds.findEntry sha256_32 key' ≠ none →
      Keyed.lookup BATEntry.keyHash ds.bat.table (sha256_32 key') ≠ none := by
    intro hne hnone
    rw [← BAT.findBATEntry_map_snd, Option.map_eq_none_iff] at hnone
    exact hne hnone
  refine sameReads_of_lookup hi.ready hb hready hheader ?_ ?_ fun y hy hyk => ?_
  · rw [hbytes]
    show _ ≤ (crashed sha256_32 ds key dataBlocks p).length
    rw [hw.crashed_eq]
    exact Nat.le_trans (length_le_writeAt_length 0 _ _ _) (length_le_writeAt_length 0 _ _ _)
  · rw [htable]
    exact hlookup _ hk (h.imp_right fun h => ⟨h.1, hstored h.2⟩)
  · rw [hbytes]
    show readAt (crashed sha256_32 ds key dataBlocks p) _ _ = _
    rw [hw.crashed_eq]
    refine hr.linear.readAt_other hN hin (hi.sound.table.nonempty y hy)
      (hi.sound.table.inside y hy) (hfree y hy (by rw [hyk]; exact hk)) (hb y hy) ?_ ?_
    · rw [← hw.copied]
      exact List.length_take_le' _ _
    · have hle := List.length_take_le' (p - (copyBlocks dataBlocks).length) ds'.bat.bytes
      omega

/-- A stop after the first byte of a count that has a carry loses the last 255 records. -/
theorem WriteOk.lost_carry (hw : WriteOk sha256_32 ds key dataBlocks start ds')
    (hi : ds.Intact d m) (hfile : StoreFile.HoldsTable ds.storeFile.bytes ds.bat.table)
    (hr : Regions sha256_32 ds key) (junk : Junk) (he : ds.findEntry sha256_32 key = none)
    (hcarry : (ds.bat.numEntries.toNat + 1) % 256 = 0) :
    ∃ re, (ds.withBytes (crashed sha256_32 ds key dataBlocks
        ((copyBlocks dataBlocks).length + 1))).reopen junk d m = (.ok (), re) ∧
      re.bat.table = ds.bat.table.take (ds.bat.table.length - 255) := by
  obtain ⟨c, x, hholds, -, hlost⟩ := hw.torn_append hi hfile hr he
    (p := (copyBlocks dataBlocks).length + 1) (Nat.le_succ _)
  obtain ⟨re, hopen, htable, -⟩ := reopen_table (hw.intact_crashed hi hfile hr _) junk hholds
  have hlen := hlost rfl hcarry
  have hc : c = ds.bat.table.length - 255 := by omega
  exact ⟨re, hopen, by rw [htable, hc, List.take_append_of_le_length (Nat.sub_le _ _)]⟩

/-! ## Where the table changes -/

theorem tableBefore_of_le (hi : ds.Intact d m)
    (hfile : StoreFile.HoldsTable ds.storeFile.bytes ds.bat.table) (hr : Regions sha256_32 ds key)
    (hp : p ≤ (copyBlocks dataBlocks).length + (changedBytes sha256_32 ds key).1) :
    TableBefore sha256_32 ds key dataBlocks p := by
  unfold TableBefore
  rcases fileUpdates_cases sha256_32 key dataBlocks hi.ready
    with ⟨start, ds', -, hw⟩ | ⟨-, hnil⟩
  · rcases Nat.le_total p (copyBlocks dataBlocks).length with hle | hle
    · rw [Nat.min_eq_left hle]
    · rw [Nat.min_eq_right hle, hw.crashed_eq, hw.crashed_eq, List.take_of_length_le hle,
        List.take_length, Nat.sub_self, List.take_zero, writeAt_nil]
      unfold changedBytes at hp
      cases he : ds.findEntry sha256_32 key with
      | none =>
          rw [he] at hp
          have hzero : p - (copyBlocks dataBlocks).length = 0 := Nat.sub_eq_zero_of_le hp
          rw [hzero, List.take_zero, writeAt_nil]
      | some ie =>
          obtain ⟨i, e⟩ := ie
          rw [he] at hp
          dsimp only at hp
          -- the two tables agree up to here
          obtain ⟨before, behind, hlen, hbytes₀, hbytes₁, -⟩ := hw.bytes_stored he
          obtain ⟨-, hold⟩ := hw.table_afterData hi hfile hr
          have htake : ds'.bat.bytes.take (p - (copyBlocks dataBlocks).length)
              = ds.bat.bytes.take (p - (copyBlocks dataBlocks).length) := by
            rw [hbytes₀, hbytes₁, List.take_append_of_le_length (by omega),
              List.take_append_of_le_length (by omega)]
          rw [htake]
          rw [← List.take_append_drop (p - (copyBlocks dataBlocks).length) ds.bat.bytes,
            readAt_append_iff] at hold
          exact writeAt_readAt 0 hold.1
  · rw [crashed_of_nil hnil, crashed_of_nil hnil]

theorem tableAfter_of_le (hi : ds.Intact d m)
    (hfile : StoreFile.HoldsTable ds.storeFile.bytes ds.bat.table) (hr : Regions sha256_32 ds key)
    (hok : (ds.writeBlocks sha256_32 key dataBlocks).1 = .ok ())
    (hp : (copyBlocks dataBlocks).length + (changedBytes sha256_32 ds key).2 ≤ p) :
    TableAfter sha256_32 ds key dataBlocks p := by
  refine ⟨hok, ?_⟩
  have hcall : ds.writeBlocks sha256_32 key dataBlocks
      = (.ok (), (ds.writeBlocks sha256_32 key dataBlocks).2) := Prod.ext hok rfl
  obtain ⟨start, hw⟩ := writeBlocks_ok hcall
  set ds' := (ds.writeBlocks sha256_32 key dataBlocks).2
  rcases Nat.le_total (ByteFile.size (fileUpdates sha256_32 ds key dataBlocks)) p with hall | hle
  · exact torn_of_size_le 0 _ _ hall
  · rw [hw.fileUpdates_eq] at hle
    rw [hw.crashed_eq, hw.fileUpdates_eq, List.take_of_length_le (by omega)]
    replace hle : p - (copyBlocks dataBlocks).length ≤ ds'.bat.bytes.length := by
      simp only [ByteFile.size] at hle
      omega
    show _ = writeAt 0 (writeAt 0 ds.storeFile.bytes (ds.getDiskBlockOffset start).toNat
      (copyBlocks dataBlocks)) Header.size ds'.bat.bytes
    refine writeAt_take 0 hle ?_
    unfold changedBytes at hp
    cases he : ds.findEntry sha256_32 key with
    | none =>
        -- all of the table is written
        rw [he] at hp
        have hlen := BAT.bytes_length ds'.bat
        rw [hw.table_length, entriesAfter, he] at hlen
        have hnil : ds'.bat.bytes.drop (p - (copyBlocks dataBlocks).length) = [] :=
          List.drop_eq_nil_of_le (by dsimp only at hp hlen; omega)
        rw [hnil]
        rfl
    | some ie =>
        obtain ⟨i, e⟩ := ie
        rw [he] at hp
        dsimp only at hp
        -- what is left is there already
        obtain ⟨before, behind, hlen, hbytes₀, hbytes₁, -⟩ := hw.bytes_stored he
        obtain ⟨-, hold⟩ := hw.table_afterData hi hfile hr
        have hdrop : ds'.bat.bytes.drop (p - (copyBlocks dataBlocks).length)
            = ds.bat.bytes.drop (p - (copyBlocks dataBlocks).length) := by
          have hfront : ∀ w : Bytes, before ++ (w ++ behind) = (before ++ w) ++ behind :=
            fun w => (List.append_assoc before w behind).symm
          rw [hbytes₀, hbytes₁, hfront, hfront]
          refine drop_append_congr ?_ ?_ behind
          · simp only [List.length_append, le32_length]
          · simp only [List.length_append, le32_length]
            omega
        have hsame := hw.bytes_length_stored he
        rw [readAt_writeAt_after 0 _ _ (by rw [List.length_take]; omega), hdrop]
        rw [← List.take_append_drop (p - (copyBlocks dataBlocks).length) ds.bat.bytes,
          readAt_append_iff, List.length_take, Nat.min_eq_left (hsame ▸ hle)] at hold
        exact hold.2

end Torn

end DiskStorage

end RackKey
