import RackKey.Lib.ByteFile
import RackKey.Storage.Table

set_option autoImplicit false

/-! # The store file and its stream

`StoreFile` is the file of a store together with the state of the `std::fstream` it is read
and written through: whether the stream is open, whether `fail() || bad()`, the position, and
how the coming operations on it end. `open` on an open stream fails and leaves it open, and
clears the fail state only when it succeeds; a seek, read or write on a failed stream does
nothing.

`ready` is a closed stream whose coming operations all succeed. On a ready file the composite
operations of the store are plain reads and writes of the file's bytes (`writeExtent_ready`,
`readExtent_ready`, `writeBAT_ready`).
-/

namespace RackKey

open Words ByteFile

/-- How an operation on the stream ends: it succeeds, or it fails after `n` bytes. -/
inductive Outcome where
  | done
  | cut (n : Nat)
  deriving DecidableEq, Repr

structure StoreFile where
  isOpen : Bool
  failed : Bool
  pos : Nat
  /-- The contents of the file. -/
  bytes : Bytes
  /-- The outcomes of the coming operations; all succeed when the list is used up. -/
  outcomes : List Outcome
  deriving DecidableEq, Repr

/-- The exceptions of the store. -/
inductive StorageError where
  | noEntryForRead (key : Bytes)
  | noEntryForDelete (key : Bytes)
  | noDataBlocks
  | noContiguousSection (N : UInt32)
  | badCopy
  | badWrite
  | badRead
  | badReadBlockNums
  | openForReading
  | openForWriting
  | numBlocksRead
  | createStoreFile
  | assertBlockCapacity
  /-- No exception of the source: a parse ran past the end of its buffer, which is undefined
  behaviour. -/
  | pastEnd
  deriving DecidableEq, Repr

/-- `what()`. -/
def StorageError.what : StorageError → String
  | .noEntryForRead key => "readBlocks() - no BAT entry found for given key: " ++ text key
  | .noEntryForDelete key => "deleteBlocks() - no BAT entry exists for key: " ++ text key
  | .noDataBlocks => "writeBlocks() - no data blocks given"
  | .noContiguousSection N =>
      "writeBlocks() - no contiguous section of " ++ toString N.toNat ++ " blocks found"
  | .badCopy => "writeBlocks() - bad copy of data blocks to output buffer"
  | .badWrite => "writeBlocks() - bad write of cumulative block data to disk"
  | .badRead => "readBlocks() - bad read of cumulative block data from disk"
  | .badReadBlockNums => "getBlockNums() - bad read of cumulative block data from disk"
  | .openForReading => "failed to open file for reading!"
  | .openForWriting => "failed to open file for writing!"
  | .numBlocksRead => "readBlocks() - num. blocks read != num. blocks requested"
  | .createStoreFile => "couldn't create store file"
  | .assertBlockCapacity =>
      "this->freeSpaceMap.blockCapacity == getNumDiskBlocks(this->header.maxDataSize) failed"
  | .pastEnd => "undefined behaviour"
where
  text (key : Bytes) : String := String.ofList (key.map fun b => Char.ofNat b.toNat)

namespace StoreFile

/-! ## Stream operations -/

/-- The outcome of the next operation, which is used up. -/
def next (f : StoreFile) : Outcome × StoreFile :=
  match f.outcomes with
  | [] => (.done, f)
  | o :: os => (o, { f with outcomes := os })

/-- `open(storeFilePath, in | out)`. -/
def openFile (f : StoreFile) : StoreFile :=
  if f.isOpen then { f with failed := true }
  else
    match f.next with
    | (.done, f) => { f with isOpen := true, failed := false, pos := 0 }
    | (.cut _, f) => { f with failed := true }

/-- `close()`. -/
def close (f : StoreFile) : StoreFile := { f with isOpen := false }

/-- `seekg` and `seekp`. -/
def seek (f : StoreFile) (off : Nat) : StoreFile :=
  if f.failed then f else { f with pos := off }

/-- `read`: the bytes that reach the buffer. Running into the end of the file is a failure. -/
def read (f : StoreFile) (n : Nat) : Bytes × StoreFile :=
  if f.failed then ([], f)
  else
    let got := readAt f.bytes f.pos n
    match f.next with
    | (.done, f) => (got, { f with pos := f.pos + got.length, failed := decide (got.length < n) })
    | (.cut k, f) => (got.take k, { f with failed := true })

/-- `write`. -/
def write (f : StoreFile) (bs : Bytes) : StoreFile :=
  if f.failed then f
  else
    match f.next with
    | (.done, f) => { f with bytes := writeAt 0 f.bytes f.pos bs, pos := f.pos + bs.length }
    | (.cut k, f) => { f with bytes := writeAt 0 f.bytes f.pos (bs.take k), failed := true }

/-! ## What the store does with its stream -/

/-- Open the file, write `buffer` at `offset`, check and close: the file part of
`writeBlocks`. After a bad write the stream is left open. -/
def writeExtent (f : StoreFile) (offset : UInt32) (buffer : Bytes) :
    Except StorageError Unit × StoreFile :=
  let f := f.openFile
  if f.isOpen then
    let f := (f.seek offset.toNat).write buffer
    if f.failed then (.error .badWrite, f) else (.ok (), f.close)
  else (.error .openForWriting, f)

/-- Open the file, read `totalNumBytes` bytes at `offset`, check and close: the file part of
`readBlocks` and `getBlockNums`. After a bad read the stream is left open. -/
def readExtent (f : StoreFile) (onBadRead : StorageError) (offset totalNumBytes : UInt32) :
    Except StorageError Bytes × StoreFile :=
  let f := f.openFile
  if f.isOpen then
    let (readBuffer, f) := (f.seek offset.toNat).read totalNumBytes.toNat
    if f.failed then (.error onBadRead, f) else (.ok readBuffer, f.close)
  else (.error .openForReading, f)

/-- The loop of `writeBAT` over the table. -/
def writeEntries (f : StoreFile) (table : List BATEntry) : StoreFile :=
  table.foldl (fun f e => f.write e.bytes) f

/-- `writeBAT`. No failure is reported: a table that cannot be written is a message only. -/
def writeBAT (f : StoreFile) (bat : BAT) : StoreFile :=
  let f := f.openFile
  if f.isOpen then
    (((f.seek Header.size).write (le32 bat.numEntries)).writeEntries bat.table).close
  else f

/-- `writeHeader`. -/
def writeHeader (f : StoreFile) (header : Header) : StoreFile :=
  let f := f.openFile
  if f.isOpen then ((f.seek 0).write header.bytes).close else f

/-- What a variable with the bytes `old` holds after `got` was read into it. -/
def overlay (old got : Bytes) : Bytes := got ++ old.drop got.length

/-- `readHeader`: a short read leaves the rest of the old header in place. -/
def readHeader (f : StoreFile) (header : Header) : Header × StoreFile :=
  let f := f.openFile
  if f.isOpen then
    let (got, f) := (f.seek 0).read Header.size
    ((Header.read (overlay header.bytes got)).getD header, f.close)
  else (header, f)

/-- The loop of `readBAT`: entries `i`, `i + 1`, …, of which `n` are left to read. A failed
read leaves the default entry, whose key field `junk` is not initialised. -/
def readEntries (junk : KeyField) : Nat → Nat → StoreFile → List BATEntry →
    List BATEntry × StoreFile
  | 0, _, f, table => (table, f)
  | n + 1, i, f, table =>
      let (got, f) := f.read BATEntry.size
      let be : BATEntry := ⟨junk, 0, 0, 0⟩
      let be := (BATEntry.read (overlay be.bytes got)).getD be
      readEntries junk n (i + 1) f
        (if i < table.length then table.set i be else table.insertIdx i be)

/-- `readBAT`. (The loop index of the source is a signed `int`; a table has fewer than 2^31
entries.) -/
def readBAT (f : StoreFile) (junk : KeyField) (bat : BAT) : BAT × StoreFile :=
  let f := f.openFile
  if f.isOpen then
    let (got, f) := (f.seek Header.size).read 4
    let numEntries := ((readLe32 (overlay (le32 bat.numEntries) got)).map Prod.fst).getD 0
    let (table, f) := readEntries junk numEntries.toNat 0 f bat.table
    (⟨numEntries, table⟩, f.close)
  else (bat, f)

/-! ## A stream whose operations succeed -/

/-- An open stream at a position, the coming operations of which succeed. -/
abbrev live (pos : Nat) (bytes : Bytes) : StoreFile := ⟨true, false, pos, bytes, []⟩

/-- A closed stream, the coming operations of which succeed. -/
structure Ready (f : StoreFile) : Prop where
  closed : f.isOpen = false
  outcomes : f.outcomes = []

@[simp] theorem ready_close_live (pos : Nat) (bytes : Bytes) : (live pos bytes).close.Ready :=
  ⟨rfl, rfl⟩

theorem openFile_ready {f : StoreFile} (h : f.Ready) : f.openFile = live 0 f.bytes := by
  obtain ⟨hc, ho⟩ := h
  simp [openFile, next, hc, ho]

@[simp] theorem seek_live (pos off : Nat) (bytes : Bytes) :
    (live pos bytes).seek off = live off bytes := rfl

@[simp] theorem write_live (pos : Nat) (bytes bs : Bytes) :
    (live pos bytes).write bs = live (pos + bs.length) (writeAt 0 bytes pos bs) := rfl

theorem read_live {pos n : Nat} {bytes : Bytes} (h : pos + n ≤ bytes.length) :
    (live pos bytes).read n = (readAt bytes pos n, live (pos + n) bytes) := by
  have hlen := readAt_length h
  simp [read, next, hlen]

theorem writeEntries_live (table : List BATEntry) (pos : Nat) (bytes : Bytes) :
    (live pos bytes).writeEntries table
      = live (pos + (table.flatMap BATEntry.bytes).length)
          (writeAt 0 bytes pos (table.flatMap BATEntry.bytes)) := by
  induction table generalizing pos bytes with
  | nil => rfl
  | cons e t ih =>
      show ((live pos bytes).write e.bytes).writeEntries t = _
      rw [write_live, ih, writeAt_writeAt_append, List.flatMap_cons, List.length_append,
        Nat.add_assoc]

/-- On a ready file the extent is written and the stream is closed again. -/
theorem writeExtent_ready {f : StoreFile} (h : f.Ready) (offset : UInt32) (buffer : Bytes) :
    f.writeExtent offset buffer
      = (.ok (), (live (offset.toNat + buffer.length)
          (writeAt 0 f.bytes offset.toNat buffer)).close) := by
  simp [writeExtent, openFile_ready h]

theorem writeBAT_ready {f : StoreFile} (h : f.Ready) (bat : BAT) :
    (f.writeBAT bat).Ready ∧ (f.writeBAT bat).bytes = writeAt 0 f.bytes Header.size bat.bytes := by
  have heq : f.writeBAT bat
      = (live (Header.size + bat.bytes.length)
          (writeAt 0 f.bytes Header.size bat.bytes)).close := by
    simp only [writeBAT, openFile_ready h, seek_live, write_live, writeEntries_live,
      writeAt_writeAt_append, BAT.bytes, List.length_append, ← Nat.add_assoc, if_true]
  rw [heq]
  exact ⟨ready_close_live _ _, rfl⟩

/-- On a ready file that reaches beyond the extent, the extent is read. -/
theorem readExtent_ready {f : StoreFile} (h : f.Ready) (onBadRead : StorageError)
    {offset totalNumBytes : UInt32} (hlen : offset.toNat + totalNumBytes.toNat ≤ f.bytes.length) :
    f.readExtent onBadRead offset totalNumBytes
      = (.ok (readAt f.bytes offset.toNat totalNumBytes.toNat),
          (live (offset.toNat + totalNumBytes.toNat) f.bytes).close) := by
  simp [readExtent, openFile_ready h, read_live hlen]

/-- No read changes the file. -/
theorem read_bytes (f : StoreFile) (n : Nat) : (f.read n).2.bytes = f.bytes := by
  unfold read next
  split
  · rfl
  · cases f.outcomes with
    | nil => rfl
    | cons o os => cases o <;> rfl

theorem openFile_bytes (f : StoreFile) : f.openFile.bytes = f.bytes := by
  unfold openFile next
  split
  · rfl
  · cases f.outcomes with
    | nil => rfl
    | cons o os => cases o <;> rfl

theorem seek_bytes (f : StoreFile) (off : Nat) : (f.seek off).bytes = f.bytes := by
  unfold seek
  split <;> rfl

/-- A write of an extent that is not reported as failed has written all of it. -/
theorem writeExtent_ok {f : StoreFile} {offset : UInt32} {buffer : Bytes}
    (hok : (f.writeExtent offset buffer).1 = .ok ()) :
    (f.writeExtent offset buffer).2.bytes = writeAt 0 f.bytes offset.toNat buffer := by
  unfold writeExtent at hok ⊢
  cases hopen : f.isOpen with
  | true =>
      -- opening an open stream fails, and nothing is written to a failed one
      simp [openFile, seek, write, hopen] at hok
  | false =>
      rcases hout : f.outcomes with - | ⟨- | c, os⟩
      · simp [openFile, seek, write, next, close, hopen, hout]
      · rcases os with - | ⟨- | c', os⟩
        · simp [openFile, seek, write, next, close, hopen, hout]
        · simp [openFile, seek, write, next, close, hopen, hout]
        · simp [openFile, seek, write, next, hopen, hout] at hok
      · simp [openFile, next, hopen, hout] at hok

theorem readExtent_bytes (f : StoreFile) (onBadRead : StorageError) (offset n : UInt32) :
    (f.readExtent onBadRead offset n).2.bytes = f.bytes := by
  unfold readExtent
  dsimp only
  split
  · split
    · rw [read_bytes, seek_bytes, openFile_bytes]
    · show ((f.openFile.seek offset.toNat).read n.toNat).2.bytes = _
      rw [read_bytes, seek_bytes, openFile_bytes]
  · exact openFile_bytes f

/-- A read of an extent that succeeds leaves the stream ready again. -/
theorem ready_readExtent {f : StoreFile} (h : f.Ready) {onBadRead : StorageError}
    {offset n : UInt32} {readBuffer : Bytes}
    (hok : (f.readExtent onBadRead offset n).1 = .ok readBuffer) :
    (f.readExtent onBadRead offset n).2.Ready := by
  unfold readExtent at hok ⊢
  simp only [openFile_ready h, seek_live, if_true] at hok ⊢
  split
  · rename_i hfail
    rw [if_pos hfail] at hok
    cases hok
  · exact ⟨rfl, rfl⟩

/-! ## Reading the table back -/

/-- The file holds the table `t`: either nothing was written yet and the table is empty, or
the table region starts with the bytes of `t`. -/
def HoldsTable (bytes : Bytes) (t : List BATEntry) : Prop :=
  (t = [] ∧ ∀ x ∈ readAt bytes Header.size 4, x = 0) ∨
    ∃ n : UInt32, n.toNat = t.length ∧
      readAt bytes Header.size (BAT.mk n t).bytes.length = (BAT.mk n t).bytes

/-- What was just written is what the file holds. -/
theorem holdsTable_writeAt (bytes : Bytes) {bat : BAT}
    (h : bat.numEntries.toNat = bat.table.length) :
    HoldsTable (writeAt 0 bytes Header.size bat.bytes) bat.table :=
  Or.inr ⟨bat.numEntries, h, readAt_writeAt_self 0 bytes Header.size bat.bytes⟩

theorem overlay_full {old got : Bytes} (h : got.length = old.length) : overlay old got = got := by
  unfold overlay
  rw [h, List.drop_length, List.append_nil]

/-- The loop of `readBAT` appends the entries the file holds. -/
theorem readEntries_live (junk : KeyField) (bytes : Bytes) :
    ∀ (t acc : List BATEntry) (pos : Nat),
      readAt bytes pos (t.flatMap BATEntry.bytes).length = t.flatMap BATEntry.bytes →
      readEntries junk t.length acc.length (live pos bytes) acc
        = (acc ++ t, live (pos + (t.flatMap BATEntry.bytes).length) bytes)
  | [], acc, pos, _ => by simp [readEntries]
  | e :: t, acc, pos, h => by
      rw [List.flatMap_cons, readAt_append_iff, BATEntry.bytes_length] at h
      obtain ⟨he, ht⟩ := h
      -- the record is not empty, so the file reaches over it
      have hle : pos + BATEntry.size ≤ bytes.length := by
        have hne : e.bytes ≠ [] := by
          intro h0
          have := e.bytes_length
          rw [h0] at this
          exact absurd this (by decide)
        have := le_length_of_readAt _ e.bytes (by rw [BATEntry.bytes_length]; exact he) hne
        rwa [BATEntry.bytes_length] at this
      have hread : BATEntry.read e.bytes = some e := by
        have := e.read_bytes []
        rwa [List.append_nil] at this
      have hdefault : (⟨junk, 0, 0, 0⟩ : BATEntry).bytes.length = BATEntry.size :=
        BATEntry.bytes_length _
      rw [List.length_cons, readEntries, read_live hle, he]
      dsimp only
      -- a full read leaves nothing of the default entry
      rw [overlay_full (by rw [BATEntry.bytes_length, hdefault]), hread, Option.getD_some,
        if_neg (Nat.lt_irrefl _), List.insertIdx_length_self]
      have ih := readEntries_live junk bytes t (acc ++ [e]) (pos + BATEntry.size) ht
      rw [List.length_append, List.length_singleton] at ih
      rw [ih, List.append_assoc, List.flatMap_cons, List.length_append, BATEntry.bytes_length,
        Nat.add_assoc]
      rfl

/-- **Reading the table back**: a new object reads the table the file holds. -/
theorem readBAT_ready {f : StoreFile} (h : f.Ready) (junk : KeyField) {t : List BATEntry}
    (ht : HoldsTable f.bytes t) :
    ∃ n : UInt32, n.toNat = t.length ∧ (f.readBAT junk ⟨0, []⟩).1 = ⟨n, t⟩ ∧
      (f.readBAT junk ⟨0, []⟩).2.Ready ∧ (f.readBAT junk ⟨0, []⟩).2.bytes = f.bytes := by
  rcases ht with ⟨rfl, hzero⟩ | ⟨n, hn, hbytes⟩
  · -- nothing written yet: the count is read as 0, from zeros or from the old value
    refine ⟨0, rfl, ?_⟩
    have hgot : overlay (le32 0) (readAt f.bytes Header.size 4) = le32 0 := by
      have hlen := readAt_length_le f.bytes Header.size 4
      have hrep := List.eq_replicate_of_mem hzero
      rw [overlay, show le32 0 = List.replicate 4 0 from rfl, List.drop_replicate, hrep,
        List.length_replicate, List.replicate_append_replicate, Nat.add_sub_cancel' hlen]
    simp only [readBAT, openFile_ready h, seek_live, if_true, read, next, Bool.false_eq_true,
      if_false, hgot]
    have hnum : ((readLe32 (le32 0)).map Prod.fst).getD 0 = 0 := rfl
    simp only [hnum, UInt32.toNat_zero, readEntries]
    exact ⟨trivial, ⟨rfl, rfl⟩, rfl⟩
  · refine ⟨n, hn, ?_⟩
    unfold BAT.bytes at hbytes
    rw [readAt_append_iff, le32_length] at hbytes
    obtain ⟨hcount, hentries⟩ := hbytes
    have hle : Header.size + 4 ≤ f.bytes.length := by
      have := le_length_of_readAt _ (le32 n) hcount (by simp [le32])
      rwa [le32_length] at this
    have hread : readLe32 (le32 n) = some (n, []) := by
      have := readLe32_append n []
      rwa [List.append_nil] at this
    -- the loop reads as many records as the count says
    have hloop := readEntries_live junk f.bytes t [] (Header.size + 4) hentries
    rw [List.length_nil, List.nil_append] at hloop
    have hover : overlay (le32 0) (le32 n) = le32 n := overlay_full rfl
    simp only [readBAT, openFile_ready h, seek_live, if_true, read_live hle, hcount, hover, hread,
      Option.map_some, Option.getD_some, hn, hloop]
    exact ⟨trivial, ready_close_live _ _, rfl⟩

/-! ## Reading any file -/

/-- A read of an open stream that leaves the bytes to the following reads. -/
theorem read_open (pos n : Nat) (bytes : Bytes) :
    (live pos bytes).read n
      = (readAt bytes pos n, ⟨true, decide ((readAt bytes pos n).length < n),
          pos + (readAt bytes pos n).length, bytes, []⟩) := rfl

/-- The loop of `readBAT` makes one entry for each round, whatever is read. -/
theorem length_readEntries (junk : KeyField) :
    ∀ (n : Nat) (f : StoreFile) (table : List BATEntry),
      (readEntries junk n table.length f table).1.length = table.length + n
  | 0, _, _ => rfl
  | n + 1, f, table => by
      rw [readEntries]
      dsimp only
      rw [if_neg (Nat.lt_irrefl _), List.insertIdx_length_self]
      have ih := length_readEntries junk n (f.read BATEntry.size).2
        (table ++ [(BATEntry.read (overlay (⟨junk, 0, 0, 0⟩ : BATEntry).bytes
          (f.read BATEntry.size).1)).getD ⟨junk, 0, 0, 0⟩])
      rw [List.length_append, List.length_singleton] at ih
      rw [ih]
      omega

/-- A range holds the bytes of a table when each record holds those of its entry. -/
theorem readAt_table_iff (bytes : Bytes) (t : List BATEntry) :
    ∀ pos : Nat, readAt bytes pos (t.flatMap BATEntry.bytes).length = t.flatMap BATEntry.bytes ↔
      ∀ i e, t[i]? = some e →
        readAt bytes (pos + BATEntry.size * i) BATEntry.size = e.bytes := by
  induction t with
  | nil => exact fun pos => iff_of_true (by simp [readAt]) (by simp)
  | cons e t ih =>
      intro pos
      rw [List.flatMap_cons, readAt_append_iff, BATEntry.bytes_length, ih]
      constructor
      · rintro ⟨he, ht⟩ i e' hi
        cases i with
        | zero =>
            obtain rfl := Option.some.inj hi
            exact he
        | succ i =>
            rw [Nat.mul_succ, Nat.add_comm _ BATEntry.size, ← Nat.add_assoc]
            exact ht i e' hi
      · intro hall
        refine ⟨hall 0 e rfl, fun i e' hi => ?_⟩
        have hrecord := hall (i + 1) e' hi
        rwa [Nat.mul_succ, Nat.add_comm _ BATEntry.size, ← Nat.add_assoc] at hrecord

/-- What `readHeader` makes of any file. -/
theorem readHeader_any {f : StoreFile} (h : f.Ready) (old : Header) :
    (f.readHeader old).1
      = (Header.read (overlay old.bytes (readAt f.bytes 0 Header.size))).getD old ∧
      (f.readHeader old).2.Ready ∧ (f.readHeader old).2.bytes = f.bytes := by
  simp only [readHeader, openFile_ready h, seek_live, if_true, read_open]
  exact ⟨trivial, ⟨rfl, rfl⟩, rfl⟩

/-- The count that a new object reads in a file; what is missing of it is `0`. -/
def storedCount (bytes : Bytes) : UInt32 :=
  ((readLe32 (overlay (le32 0) (readAt bytes Header.size 4))).map Prod.fst).getD 0

/-- What `readBAT` makes of any file: as many entries as the count says. -/
theorem readBAT_any {f : StoreFile} (h : f.Ready) (junk : KeyField) :
    (f.readBAT junk ⟨0, []⟩).1.numEntries = storedCount f.bytes ∧
      (f.readBAT junk ⟨0, []⟩).1.table.length = (storedCount f.bytes).toNat := by
  simp only [readBAT, openFile_ready h, seek_live, if_true, read_open]
  refine ⟨rfl, (length_readEntries junk _ _ []).trans ?_⟩
  rw [List.length_nil, Nat.zero_add]
  rfl

/-- A file that starts with the bytes of a header gives that header back. -/
theorem readHeader_ready {f : StoreFile} (h : f.Ready) (old header : Header)
    (hbytes : readAt f.bytes 0 Header.size = header.bytes) :
    (f.readHeader old).1 = header ∧ (f.readHeader old).2.Ready ∧
      (f.readHeader old).2.bytes = f.bytes := by
  have hle : 0 + Header.size ≤ f.bytes.length := by
    have := le_length_of_readAt _ header.bytes hbytes (by simp [Header.bytes, le32])
    rwa [Header.bytes_length] at this
  have hread : Header.read header.bytes = some header := by
    have := header.read_bytes []
    rwa [List.append_nil] at this
  have hover : overlay old.bytes header.bytes = header.bytes := overlay_full rfl
  simp only [readHeader, openFile_ready h, seek_live, if_true, read_live hle, hbytes, hover, hread,
    Option.getD_some]
  exact ⟨trivial, ready_close_live _ _, rfl⟩

theorem writeHeader_ready {f : StoreFile} (h : f.Ready) (header : Header) :
    (f.writeHeader header).Ready ∧
      (f.writeHeader header).bytes = writeAt 0 f.bytes 0 header.bytes := by
  simp only [writeHeader, openFile_ready h, seek_live, if_true, write_live]
  exact ⟨ready_close_live _ _, rfl⟩

end StoreFile

end RackKey
