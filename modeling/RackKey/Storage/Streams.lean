import RackKey.Storage.Crash

set_option autoImplicit false

/-! # Streams that fail

What the calls of a store do when operations on its stream fail. Every call opens the stream and
closes it again, unless it throws in between: a bad read or a bad write leaves the stream open,
and an open stream cannot be opened (`readExtent_isOpen_iff`, `writeExtent_isOpen_iff`). Writing
the table closes the stream in any case, and tells nobody whether it was written
(`writeBAT_spec`).

`failsSafely_iff` says which runs of calls get away with it: those in which nothing fails once a
read or write of blocks has opened the stream. A raw read always does, since it checks nothing.
-/

namespace RackKey

open Words ByteFile MathUtils

namespace StoreFile

/-! ## Single operations -/

variable {f : StoreFile}

/-- The outcome of the `i`-th of the coming operations. -/
def coming (f : StoreFile) (i : Nat) : Outcome := f.outcomes.getD i .done

theorem next_eq (f : StoreFile) :
    f.next = (f.coming 0, { f with outcomes := f.outcomes.tail }) := by
  obtain ⟨isOpen, failed, pos, bytes, outcomes⟩ := f
  cases outcomes <;> rfl

theorem getD_tail (os : List Outcome) (i : Nat) :
    os.tail.getD i .done = os.getD (i + 1) .done := by
  cases os <;> rfl

/-- The stream after an open that succeeds and a seek. -/
def opened (f : StoreFile) (off : Nat) : StoreFile :=
  ⟨true, false, off, f.bytes, f.outcomes.tail⟩

@[simp] theorem opened_coming (f : StoreFile) (off i : Nat) :
    (f.opened off).coming i = f.coming (i + 1) :=
  getD_tail f.outcomes i

@[simp] theorem opened_seek (f : StoreFile) (off off' : Nat) :
    (f.opened off).seek off' = f.opened off' := rfl

theorem openFile_done (hclosed : f.isOpen = false) (h : f.coming 0 = .done) :
    f.openFile = f.opened 0 := by
  simp [openFile, opened, next_eq, hclosed, h]

theorem openFile_cut (hclosed : f.isOpen = false) (h : f.coming 0 ≠ .done) :
    f.openFile = { f with failed := true, outcomes := f.outcomes.tail } := by
  cases hout : f.coming 0 with
  | done => exact absurd hout h
  | cut k => simp [openFile, next_eq, hclosed, hout]

theorem write_done (hgood : f.failed = false) (h : f.coming 0 = .done) (bs : Bytes) :
    f.write bs
      = { f with
          bytes := writeAt 0 f.bytes f.pos bs
          pos := f.pos + bs.length
          outcomes := f.outcomes.tail } := by
  simp [write, next_eq, hgood, h]

theorem write_cut (h : f.coming 0 ≠ .done) (bs : Bytes) :
    (f.write bs).failed = true := by
  unfold write
  split
  · assumption
  · cases hout : f.coming 0 with
    | done => exact absurd hout h
    | cut k => simp [next_eq, hout]

theorem write_isOpen (f : StoreFile) (bs : Bytes) : (f.write bs).isOpen = f.isOpen := by
  unfold write
  rw [next_eq]
  split
  · rfl
  · cases f.coming 0 <;> rfl

/-- A read succeeds when it gets all it asks for. -/
theorem read_failed_iff (hgood : f.failed = false) (n : Nat) :
    (f.read n).2.failed = false ↔ f.coming 0 = .done ∧ (n = 0 ∨ f.pos + n ≤ f.bytes.length) := by
  cases hout : f.coming 0 with
  | done =>
      simp only [read, next_eq, hgood, hout, Bool.false_eq_true, if_false, decide_eq_false_iff_not,
        readAt, List.length_take, List.length_drop, true_and]
      omega
  | cut k => simp [read, next_eq, hgood, hout]

theorem read_isOpen (f : StoreFile) (n : Nat) : (f.read n).2.isOpen = f.isOpen := by
  unfold read
  rw [next_eq]
  split
  · rfl
  · cases f.coming 0 <;> rfl

/-! ## Extents -/

/-- A read of an extent leaves the stream open when it could be opened and then not be read. -/
theorem readExtent_isOpen_iff (hclosed : f.isOpen = false) (onBadRead : StorageError)
    (offset n : UInt32) :
    (f.readExtent onBadRead offset n).2.isOpen = false ↔
      (f.coming 0 = .done → f.coming 1 = .done ∧
        (n.toNat = 0 ∨ offset.toNat + n.toNat ≤ f.bytes.length)) := by
  by_cases hopen : f.coming 0 = .done
  · have hrun : f.readExtent onBadRead offset n
        = if ((f.opened offset.toNat).read n.toNat).2.failed then
            (.error onBadRead, ((f.opened offset.toNat).read n.toNat).2)
          else (.ok ((f.opened offset.toNat).read n.toNat).1,
            ((f.opened offset.toNat).read n.toNat).2.close) := by
      rw [readExtent, openFile_done hclosed hopen]
      rfl
    have hread : ((f.opened offset.toNat).read n.toNat).2.failed = false ↔
        f.coming 1 = .done ∧ (n.toNat = 0 ∨ offset.toNat + n.toNat ≤ f.bytes.length) := by
      rw [← opened_coming f offset.toNat 0]
      exact read_failed_iff rfl n.toNat
    rw [hrun, ← hread]
    cases hfailed : ((f.opened offset.toNat).read n.toNat).2.failed with
    | false => simp [close]
    | true =>
        have hstays := read_isOpen (f.opened offset.toNat) n.toNat
        rw [if_pos rfl, hstays]
        simp [opened, hopen]
  · rw [readExtent, openFile_cut hclosed hopen]
    simp [hclosed, hopen]

/-- An extent that can be written is written, and the stream closed. -/
theorem writeExtent_done (hclosed : f.isOpen = false) (hopen : f.coming 0 = .done)
    (hwrite : f.coming 1 = .done) (offset : UInt32) (buffer : Bytes) :
    f.writeExtent offset buffer
      = (.ok (), ⟨false, false, offset.toNat + buffer.length,
          writeAt 0 f.bytes offset.toNat buffer, f.outcomes.tail.tail⟩) := by
  have hdone : (f.opened offset.toNat).coming 0 = .done := by rwa [opened_coming]
  have hrun := write_done (f := f.opened offset.toNat) rfl hdone buffer
  rw [writeExtent, openFile_done hclosed hopen]
  simp only [opened_seek, hrun]
  rfl

theorem writeExtent_cut (hclosed : f.isOpen = false) (hopen : f.coming 0 = .done)
    (hwrite : f.coming 1 ≠ .done) (offset : UInt32) (buffer : Bytes) :
    f.writeExtent offset buffer = (.error .badWrite, (f.opened offset.toNat).write buffer) := by
  have hfailed : ((f.opened offset.toNat).write buffer).failed = true :=
    write_cut (by rwa [opened_coming]) buffer
  rw [writeExtent, openFile_done hclosed hopen]
  simp only [opened_seek, hfailed]
  rfl

/-- A write of an extent leaves the stream open when it could be opened and then not be written. -/
theorem writeExtent_isOpen_iff (hclosed : f.isOpen = false) (offset : UInt32) (buffer : Bytes) :
    (f.writeExtent offset buffer).2.isOpen = false ↔
      (f.coming 0 = .done → f.coming 1 = .done) := by
  by_cases hopen : f.coming 0 = .done
  · by_cases hwrite : f.coming 1 = .done
    · rw [writeExtent_done hclosed hopen hwrite]
      simp [hwrite]
    · rw [writeExtent_cut hclosed hopen hwrite, write_isOpen]
      simp [opened, hopen, hwrite]
  · rw [writeExtent, openFile_cut hclosed hopen]
    simp [hclosed, hopen]

/-- A write of an extent returns normally when it was opened and written. -/
theorem writeExtent_ok_iff (hclosed : f.isOpen = false) (offset : UInt32) (buffer : Bytes) :
    (f.writeExtent offset buffer).1 = .ok () ↔ f.coming 0 = .done ∧ f.coming 1 = .done := by
  by_cases hopen : f.coming 0 = .done
  · by_cases hwrite : f.coming 1 = .done
    · rw [writeExtent_done hclosed hopen hwrite]
      simp [hopen, hwrite]
    · rw [writeExtent_cut hclosed hopen hwrite]
      simp [hwrite]
  · rw [writeExtent, openFile_cut hclosed hopen]
    simp [hclosed, hopen]

/-! ## The table -/

/-- Nothing is written to a failed stream. -/
theorem foldl_write_failed (pieces : List Bytes) :
    ∀ {f : StoreFile}, f.failed = true → pieces.foldl write f = f := by
  induction pieces with
  | nil => exact fun _ => rfl
  | cons piece pieces ih =>
      intro f h
      have hwrite : f.write piece = f := by rw [write, if_pos h]
      rw [List.foldl_cons, hwrite]
      exact ih h

/-- Writes one after another fail with the first that fails, and where none does all pieces are in
the file. -/
theorem foldl_write_spec (pieces : List Bytes) :
    ∀ {f : StoreFile}, f.failed = false →
      ((pieces.foldl write f).failed = false ↔ ∀ i < pieces.length, f.coming i = .done) ∧
      ((pieces.foldl write f).failed = false →
        (pieces.foldl write f).bytes = writeAt 0 f.bytes f.pos pieces.flatten) := by
  induction pieces with
  | nil =>
      intro f h
      exact ⟨iff_of_true h (by simp), fun _ => rfl⟩
  | cons piece pieces ih =>
      intro f h
      rw [List.foldl_cons, List.length_cons, Nat.forall_lt_succ_left]
      by_cases hdone : f.coming 0 = .done
      · have hwrite := write_done h hdone piece
        have hnext : ∀ i, (f.write piece).coming i = f.coming (i + 1) := fun i => by
          rw [hwrite]
          exact getD_tail f.outcomes i
        obtain ⟨hiff, hbytes⟩ := ih (f := f.write piece) (by rw [hwrite]; exact h)
        refine ⟨?_, fun hok => ?_⟩
        · rw [hiff]
          simp only [hnext, hdone, true_and]
        · rw [hbytes hok, hwrite]
          show writeAt 0 (writeAt 0 f.bytes f.pos piece) (f.pos + piece.length) _ = _
          rw [writeAt_writeAt_append, List.flatten_cons]
      · have hfailed := write_cut hdone piece
        rw [foldl_write_failed pieces hfailed, hfailed]
        simp [hdone]

/-- Writing the table leaves the stream closed in any case. It fails with the first operation that
fails, which is not reported, and where none does the table is in the file. -/
theorem writeBAT_spec (hclosed : f.isOpen = false) (bat : BAT) :
    (f.writeBAT bat).isOpen = false ∧
      ((f.writeBAT bat).failed = false ↔ ∀ i < bat.table.length + 2, f.coming i = .done) ∧
      ((f.writeBAT bat).failed = false →
        (f.writeBAT bat).bytes = writeAt 0 f.bytes Header.size bat.bytes) := by
  by_cases hopen : f.coming 0 = .done
  · -- the count and the records are the pieces
    set pieces := le32 bat.numEntries :: bat.table.map BATEntry.bytes with hpieces
    have hrun : f.writeBAT bat = (pieces.foldl write (f.opened Header.size)).close := by
      rw [writeBAT, openFile_done hclosed hopen, hpieces, List.foldl_cons, List.foldl_map]
      rfl
    have hlength : pieces.length = bat.table.length + 1 := by
      rw [hpieces, List.length_cons, List.length_map]
    have hflatten : pieces.flatten = bat.bytes := rfl
    obtain ⟨hfailed, hbytes⟩ := foldl_write_spec pieces (f := f.opened Header.size) rfl
    simp only [opened_coming, hlength, hflatten] at hfailed hbytes
    rw [hrun, Nat.forall_lt_succ_left, and_iff_right hopen]
    exact ⟨rfl, hfailed, hbytes⟩
  · rw [writeBAT, openFile_cut hclosed hopen]
    have hnot : ¬ ∀ i < bat.table.length + 2, f.coming i = .done :=
      fun h => hopen (h 0 (by omega))
    simp [hclosed, hnot]

theorem readExtent_congr {g : StoreFile} (h : f.openFile = g.openFile) :
    f.readExtent = g.readExtent := by
  funext onBadRead offset n
  rw [readExtent, readExtent, h]

theorem writeExtent_congr {g : StoreFile} (h : f.openFile = g.openFile) :
    f.writeExtent = g.writeExtent := by
  funext offset buffer
  rw [writeExtent, writeExtent, h]

end StoreFile

namespace DiskStorage

variable (sha256_32 : Bytes → UInt32)

/-! ## Calls -/

/-- The calls of a client of the store. -/
inductive Call where
  | readBlocks (key : Bytes) (requestedBlockNums : Finset UInt32) (dataBlockSize : UInt32)
  | writeBlocks (key : Bytes) (dataBlocks : List Block)
  | deleteBlocks (key : Bytes)
  | getBlockNums (key : Bytes) (dataBlockSize : UInt32)
  | readRawDiskBlocks (startingDiskBlockNum N : UInt32)

/-- What a call returns or throws. -/
inductive Answer where
  | blocks (r : Except StorageError (List Block))
  | done (r : Except StorageError Unit)
  | blockNums (r : Except StorageError (List UInt32))
  | bytes (r : Except StorageError Bytes)
  deriving DecidableEq

def call (ds : DiskStorage) : Call → Answer × DiskStorage
  | .readBlocks key S dataBlockSize =>
      let r := ds.readBlocks sha256_32 key S dataBlockSize
      (.blocks r.1, r.2)
  | .writeBlocks key dataBlocks =>
      let r := ds.writeBlocks sha256_32 key dataBlocks
      (.done r.1, r.2)
  | .deleteBlocks key =>
      let r := ds.deleteBlocks sha256_32 key
      (.done r.1, r.2)
  | .getBlockNums key dataBlockSize =>
      let r := ds.getBlockNums sha256_32 key dataBlockSize
      (.blockNums r.1, r.2)
  | .readRawDiskBlocks startingDiskBlockNum N =>
      let r := ds.readRawDiskBlocks startingDiskBlockNum N
      (.bytes r.1, r.2)

/-- The store when the operations on its stream succeed from now on. -/
def healed (ds : DiskStorage) : DiskStorage :=
  { ds with storeFile := { ds.storeFile with outcomes := [] } }

/-- The same store on a stream that never failed. -/
def neverFailed (ds : DiskStorage) : DiskStorage :=
  { ds with storeFile := ⟨false, false, 0, ds.storeFile.bytes, []⟩ }

/-- **A call that fails safely**, or does not fail: it leaves the stream closed, no later call
tells the store from one that never failed once the operations succeed, and a `writeBlocks` that
returns normally has written its data and its table, with no failure on the way. -/
structure FailsSafely (ds : DiskStorage) (c : Call) : Prop where
  closed : (ds.call sha256_32 c).2.storeFile.isOpen = false
  heals : ∀ calls, Runs.answers (call sha256_32) calls (ds.call sha256_32 c).2.healed
    = Runs.answers (call sha256_32) calls (ds.call sha256_32 c).2.neverFailed
  written : ∀ key dataBlocks, c = .writeBlocks key dataBlocks →
    (ds.call sha256_32 c).1 = .done (.ok ()) →
      (ds.call sha256_32 c).2.storeFile.failed = false ∧
        (ds.call sha256_32 c).2.storeFile.bytes
          = written 0 (fileUpdates sha256_32 ds key dataBlocks) ds.storeFile.bytes

/-- The stream cannot be opened for the extent of the key, or the extent can then be read. -/
def ReadsOnceOpen (ds : DiskStorage) (key : Bytes) : Prop :=
  ∀ i e, ds.findEntry sha256_32 key = some (i, e) → ds.storeFile.coming 0 = .done →
    ds.storeFile.coming 1 = .done ∧
      (e.numBytes.toNat = 0 ∨ (ds.getDiskBlockOffset e.startingDiskBlockNum).toNat
        + e.numBytes.toNat ≤ ds.storeFile.bytes.length)

/-- The write does not come to the file, or the stream cannot be opened for it, or no operation
fails: the open and the write of the data, the open, the write of the count and one write for each
entry. -/
def WritesOnceOpen (ds : DiskStorage) (key : Bytes) (dataBlocks : List Block) : Prop :=
  fileUpdates sha256_32 ds key dataBlocks ≠ [] → ds.storeFile.coming 0 = .done →
    ∀ i < entriesAfter sha256_32 ds key + 4, ds.storeFile.coming i = .done

/-- The failures of the stream during a call are such as the call deals with. -/
def DealtWith (ds : DiskStorage) : Call → Prop
  | .readBlocks key _ _ => ds.ReadsOnceOpen sha256_32 key
  | .writeBlocks key dataBlocks => ds.WritesOnceOpen sha256_32 key dataBlocks
  | .deleteBlocks _ => True
  | .getBlockNums key _ => ds.ReadsOnceOpen sha256_32 key
  | .readRawDiskBlocks _ _ => True

variable {sha256_32} {ds ds' : DiskStorage}

/-! ## Stores that differ in their stream -/

/-- The stores are the same up to their streams, and these are once they are opened. -/
def Alike (ds ds' : DiskStorage) : Prop :=
  ∃ f : StoreFile, f.openFile = ds.storeFile.openFile ∧ ds' = { ds with storeFile := f }

theorem alike_readBlocks (h : Alike ds ds') (key : Bytes) (S : Finset UInt32) (n : UInt32) :
    (ds.readBlocks sha256_32 key S n).1 = (ds'.readBlocks sha256_32 key S n).1 ∧
      Alike (ds.readBlocks sha256_32 key S n).2 (ds'.readBlocks sha256_32 key S n).2 := by
  obtain ⟨f, hf, rfl⟩ := h
  have hentry : findEntry sha256_32 { ds with storeFile := f } key = ds.findEntry sha256_32 key :=
    rfl
  unfold readBlocks
  rw [hentry]
  cases ds.findEntry sha256_32 key with
  | none => exact ⟨rfl, f, hf, rfl⟩
  | some ie =>
      dsimp only
      rw [StoreFile.readExtent_congr hf]
      exact ⟨rfl, _, rfl, rfl⟩

theorem alike_getBlockNums (h : Alike ds ds') (key : Bytes) (n : UInt32) :
    (ds.getBlockNums sha256_32 key n).1 = (ds'.getBlockNums sha256_32 key n).1 ∧
      Alike (ds.getBlockNums sha256_32 key n).2 (ds'.getBlockNums sha256_32 key n).2 := by
  obtain ⟨f, hf, rfl⟩ := h
  have hentry : findEntry sha256_32 { ds with storeFile := f } key = ds.findEntry sha256_32 key :=
    rfl
  unfold getBlockNums
  rw [hentry]
  cases ds.findEntry sha256_32 key with
  | none => exact ⟨rfl, f, hf, rfl⟩
  | some ie =>
      dsimp only
      rw [StoreFile.readExtent_congr hf]
      exact ⟨rfl, _, rfl, rfl⟩

theorem alike_readRawDiskBlocks (h : Alike ds ds') (start N : UInt32) :
    (ds.readRawDiskBlocks start N).1 = (ds'.readRawDiskBlocks start N).1 ∧
      Alike (ds.readRawDiskBlocks start N).2 (ds'.readRawDiskBlocks start N).2 := by
  obtain ⟨f, hf, rfl⟩ := h
  unfold readRawDiskBlocks
  dsimp only
  rw [hf]
  exact ⟨rfl, _, rfl, rfl⟩

theorem alike_deleteBlocks (h : Alike ds ds') (key : Bytes) :
    (ds.deleteBlocks sha256_32 key).1 = (ds'.deleteBlocks sha256_32 key).1 ∧
      Alike (ds.deleteBlocks sha256_32 key).2 (ds'.deleteBlocks sha256_32 key).2 := by
  obtain ⟨f, hf, rfl⟩ := h
  have hentry : findEntry sha256_32 { ds with storeFile := f } key = ds.findEntry sha256_32 key :=
    rfl
  unfold deleteBlocks
  rw [hentry]
  cases ds.findEntry sha256_32 key with
  | none => exact ⟨rfl, f, hf, rfl⟩
  | some ie => exact ⟨rfl, f, hf, rfl⟩

theorem alike_writeBlocks (h : Alike ds ds') (key : Bytes) (dataBlocks : List Block) :
    (ds.writeBlocks sha256_32 key dataBlocks).1 = (ds'.writeBlocks sha256_32 key dataBlocks).1 ∧
      Alike (ds.writeBlocks sha256_32 key dataBlocks).2
        (ds'.writeBlocks sha256_32 key dataBlocks).2 := by
  obtain ⟨f, hf, rfl⟩ := h
  have hentry : findEntry sha256_32 { ds with storeFile := f } key = ds.findEntry sha256_32 key :=
    rfl
  have hfreed : freeExisting { ds with storeFile := f } = ds.freeExisting := rfl
  have hblocks : getNumDiskBlocks { ds with storeFile := f } = ds.getNumDiskBlocks := rfl
  unfold writeBlocks
  rw [hentry, hfreed, hblocks]
  by_cases h0 : dataBlocks.length = 0
  · rw [if_pos h0, if_pos h0]
    exact ⟨rfl, f, hf, rfl⟩
  rw [if_neg h0, if_neg h0]
  dsimp only
  cases (ds.freeExisting (ds.findEntry sha256_32 key)).findNFreeBlocks
      (ds.getNumDiskBlocks (totalNumBytes dataBlocks)) with
  | none => exact ⟨rfl, f, hf, rfl⟩
  | some start =>
      dsimp only
      by_cases hc : (copyBlocks dataBlocks).length ≠ (totalNumBytes dataBlocks).toNat
      · rw [if_pos hc, if_pos hc]
        exact ⟨rfl, f, hf, rfl⟩
      · rw [if_neg hc, if_neg hc, StoreFile.writeExtent_congr hf]
        exact ⟨rfl, _, rfl, rfl⟩

/-- **No call tells stores apart that differ in a stream they open to the same.** -/
theorem alike_call (c : Call) (h : Alike ds ds') :
    (ds.call sha256_32 c).1 = (ds'.call sha256_32 c).1 ∧
      Alike (ds.call sha256_32 c).2 (ds'.call sha256_32 c).2 := by
  cases c with
  | readBlocks key S n => exact (alike_readBlocks h key S n).imp_left (congrArg Answer.blocks)
  | writeBlocks key dataBlocks =>
      exact (alike_writeBlocks h key dataBlocks).imp_left (congrArg Answer.done)
  | deleteBlocks key => exact (alike_deleteBlocks h key).imp_left (congrArg Answer.done)
  | getBlockNums key n => exact (alike_getBlockNums h key n).imp_left (congrArg Answer.blockNums)
  | readRawDiskBlocks start N =>
      exact (alike_readRawDiskBlocks h start N).imp_left (congrArg Answer.bytes)

/-- A store whose stream is closed is as good as one that never failed. -/
theorem answers_healed (hclosed : ds.storeFile.isOpen = false) (calls : List Call) :
    Runs.answers (call sha256_32) calls ds.healed
      = Runs.answers (call sha256_32) calls ds.neverFailed := by
  refine Runs.answers_eq (R := Alike) (fun _ _ c h => alike_call c h) calls
    ⟨ds.neverFailed.storeFile, ?_, rfl⟩
  have hhealed : ds.healed.storeFile.Ready := ⟨hclosed, rfl⟩
  have hnever : ds.neverFailed.storeFile.Ready := ⟨rfl, rfl⟩
  rw [StoreFile.openFile_ready hhealed, StoreFile.openFile_ready hnever]
  rfl

/-! ## What one call does -/

/-- The stream after the extent of a key is read, if it has one. -/
def afterRead (sha256_32 : Bytes → UInt32) (ds : DiskStorage) (onBadRead : StorageError)
    (key : Bytes) : StoreFile :=
  match ds.findEntry sha256_32 key with
  | none => ds.storeFile
  | some (_, e) =>
      (ds.storeFile.readExtent onBadRead (ds.getDiskBlockOffset e.startingDiskBlockNum)
        e.numBytes).2

theorem readBlocks_storeFile (ds : DiskStorage) (key : Bytes) (S : Finset UInt32) (n : UInt32) :
    (ds.readBlocks sha256_32 key S n).2.storeFile = afterRead sha256_32 ds .badRead key := by
  unfold readBlocks afterRead
  cases ds.findEntry sha256_32 key with
  | none => rfl
  | some ie =>
      dsimp only
      split <;> rfl

theorem getBlockNums_storeFile (ds : DiskStorage) (key : Bytes) (n : UInt32) :
    (ds.getBlockNums sha256_32 key n).2.storeFile
      = afterRead sha256_32 ds .badReadBlockNums key := by
  unfold getBlockNums afterRead
  cases ds.findEntry sha256_32 key with
  | none => rfl
  | some ie =>
      dsimp only
      split <;> rfl

theorem afterRead_isOpen_iff (hclosed : ds.storeFile.isOpen = false) (onBadRead : StorageError)
    (key : Bytes) :
    (afterRead sha256_32 ds onBadRead key).isOpen = false ↔ ds.ReadsOnceOpen sha256_32 key := by
  unfold afterRead ReadsOnceOpen
  cases hentry : ds.findEntry sha256_32 key with
  | none => exact iff_of_true hclosed (fun _ _ h => by cases h)
  | some ie =>
      obtain ⟨i, e⟩ := ie
      refine (StoreFile.readExtent_isOpen_iff hclosed onBadRead _ _).trans ⟨?_, fun h => h i e rfl⟩
      rintro h _ _ heq
      obtain ⟨rfl, rfl⟩ := Prod.mk.inj (Option.some.inj heq)
      exact h

theorem deleteBlocks_storeFile (ds : DiskStorage) (key : Bytes) :
    (ds.deleteBlocks sha256_32 key).2.storeFile = ds.storeFile := by
  unfold deleteBlocks
  split <;> rfl

/-- Raw reads are not checked, so nothing is thrown before the stream is closed. -/
theorem readRawDiskBlocks_isOpen (ds : DiskStorage) (start N : UInt32) :
    (ds.readRawDiskBlocks start N).2.storeFile.isOpen = false := by
  unfold readRawDiskBlocks
  dsimp only
  split
  · rfl
  · rename_i hopen
    simpa using hopen

/-- All operations of a write, the two on the data in front. -/
theorem forall_coming_iff (f : StoreFile) (n : Nat) :
    (∀ i < n + 4, f.coming i = .done) ↔
      f.coming 0 = .done ∧ f.coming 1 = .done ∧ ∀ i < n + 2, f.coming (i + 2) = .done := by
  rw [Nat.forall_lt_succ_left, Nat.forall_lt_succ_left]

/-- What a write that goes through leaves of its stream: closed in any case, and without a failure
when no operation on the table fails. -/
theorem WriteOk.stream {key : Bytes} {dataBlocks : List Block} {start : UInt32}
    (hw : WriteOk sha256_32 ds key dataBlocks start ds') (hclosed : ds.storeFile.isOpen = false) :
    ds'.storeFile.isOpen = false ∧
      (ds'.storeFile.failed = false ↔
        ∀ i < entriesAfter sha256_32 ds key + 2, ds.storeFile.coming (i + 2) = .done) ∧
      (ds'.storeFile.failed = false → ds'.storeFile.bytes
        = ByteFile.written 0 (fileUpdates sha256_32 ds key dataBlocks) ds.storeFile.bytes) := by
  obtain ⟨hopen, hwrite⟩ := (StoreFile.writeExtent_ok_iff hclosed _ _).mp hw.written
  have hext := StoreFile.writeExtent_done hclosed hopen hwrite (ds.getDiskBlockOffset start)
    (copyBlocks dataBlocks)
  have hcoming : ∀ i, (ds.storeFile.writeExtent (ds.getDiskBlockOffset start)
      (copyBlocks dataBlocks)).2.coming i = ds.storeFile.coming (i + 2) := fun i => by
    rw [hext]
    exact (StoreFile.getD_tail _ i).trans (StoreFile.getD_tail _ (i + 1))
  obtain ⟨hstays, hfailed, hbytes⟩ := StoreFile.writeBAT_spec
    (f := (ds.storeFile.writeExtent (ds.getDiskBlockOffset start) (copyBlocks dataBlocks)).2)
    (by rw [hext]) ds'.bat
  simp only [hcoming, hw.table_length] at hfailed
  rw [hw.storeFile]
  refine ⟨hstays, hfailed, fun hok => ?_⟩
  rw [hbytes hok, hw.fileUpdates_eq, hext]
  rfl

theorem failsSafely_write_iff (hclosed : ds.storeFile.isOpen = false) (key : Bytes)
    (dataBlocks : List Block) :
    ds.FailsSafely sha256_32 (.writeBlocks key dataBlocks) ↔
      ds.WritesOnceOpen sha256_32 key dataBlocks := by
  unfold WritesOnceOpen
  rcases fileUpdates_stream sha256_32 ds key dataBlocks
    with ⟨hnil, hthrow, hfile⟩ | ⟨start, hne, ⟨hbad, hthrow, hfile⟩ | ⟨hext, hok, hw⟩⟩
  · -- the stream is not touched
    have hstays : (ds.call sha256_32 (.writeBlocks key dataBlocks)).2.storeFile.isOpen = false := by
      show (ds.writeBlocks sha256_32 key dataBlocks).2.storeFile.isOpen = false
      rw [hfile]
      exact hclosed
    refine iff_of_true ⟨hstays, answers_healed hstays, ?_⟩ (fun h => absurd hnil h)
    exact fun _ _ _ hdone => absurd (Answer.done.inj hdone) hthrow
  · -- the data is not written, and an open that succeeded is not undone
    rw [Ne, StoreFile.writeExtent_ok_iff hclosed, not_and] at hbad
    have hstays := StoreFile.writeExtent_isOpen_iff hclosed (ds.getDiskBlockOffset start)
      (copyBlocks dataBlocks)
    rw [← hfile] at hstays
    constructor
    · exact fun h _ hopen => absurd (hstays.mp h.closed hopen) (hbad hopen)
    · intro h
      have hclose := hstays.mpr fun hopen => h hne hopen 1 (by omega)
      exact ⟨hclose, answers_healed hclose,
        fun _ _ _ hdone => absurd (Answer.done.inj hdone) hthrow⟩
  · -- the data is written: what is left is the table
    obtain ⟨hopen, hwrite⟩ := (StoreFile.writeExtent_ok_iff hclosed _ _).mp hext
    obtain ⟨hclose, hfailed, hbytes⟩ := hw.stream hclosed
    rw [forall_coming_iff, ← hfailed]
    constructor
    · intro h _ _
      exact ⟨hopen, hwrite, (h.written key dataBlocks rfl (congrArg Answer.done hok)).1⟩
    · intro h
      obtain ⟨-, -, hgood⟩ := h hne hopen
      refine ⟨hclose, answers_healed hclose, ?_⟩
      rintro _ _ heq -
      obtain ⟨rfl, rfl⟩ := Call.writeBlocks.inj heq
      exact ⟨hgood, hbytes hgood⟩

/-- A call that does not write a table fails safely when it leaves the stream closed. -/
theorem failsSafely_iff_closed {c : Call} (hc : ∀ key dataBlocks, c ≠ .writeBlocks key dataBlocks) :
    ds.FailsSafely sha256_32 c ↔ (ds.call sha256_32 c).2.storeFile.isOpen = false :=
  ⟨FailsSafely.closed, fun h => ⟨h, answers_healed h, fun key dataBlocks heq =>
    absurd heq (hc key dataBlocks)⟩⟩

/-- **One call**, on a stream that is closed. -/
theorem failsSafely_call_iff (hclosed : ds.storeFile.isOpen = false) (c : Call) :
    ds.FailsSafely sha256_32 c ↔ ds.DealtWith sha256_32 c := by
  cases c with
  | readBlocks key S n =>
      rw [failsSafely_iff_closed (by simp)]
      show (ds.readBlocks sha256_32 key S n).2.storeFile.isOpen = false ↔ _
      rw [readBlocks_storeFile, afterRead_isOpen_iff hclosed]
      rfl
  | writeBlocks key dataBlocks => exact failsSafely_write_iff hclosed key dataBlocks
  | deleteBlocks key =>
      rw [failsSafely_iff_closed (by simp)]
      refine iff_of_true ?_ trivial
      show (ds.deleteBlocks sha256_32 key).2.storeFile.isOpen = false
      rw [deleteBlocks_storeFile]
      exact hclosed
  | getBlockNums key n =>
      rw [failsSafely_iff_closed (by simp)]
      show (ds.getBlockNums sha256_32 key n).2.storeFile.isOpen = false ↔ _
      rw [getBlockNums_storeFile, afterRead_isOpen_iff hclosed]
      rfl
  | readRawDiskBlocks start N =>
      rw [failsSafely_iff_closed (by simp)]
      exact iff_of_true (readRawDiskBlocks_isOpen ds start N) trivial

/-! ## Runs -/

/-- What opens the stream, and closes it where that succeeds, leaves it closed. -/
theorem isOpen_ite {α : Type} (f g : StoreFile) (a b : α) :
    (if f.isOpen then (a, g.close) else (b, f)).2.isOpen = false := by
  split
  · rfl
  · rename_i hopen
    simpa using hopen

theorem readBAT_isOpen (f : StoreFile) (junk : KeyField) (bat : BAT) :
    (f.readBAT junk bat).2.isOpen = false :=
  isOpen_ite f.openFile _ _ _

theorem writeHeader_isOpen (f : StoreFile) (header : Header) :
    (f.writeHeader header).isOpen = false := by
  have hpair := isOpen_ite f.openFile ((f.openFile.seek 0).write header.bytes) () ()
  rw [apply_ite Prod.snd] at hpair
  exact hpair

theorem createStoreFile_isOpen (ds : DiskStorage) :
    ds.createStoreFile.2.storeFile.isOpen = false := by
  unfold createStoreFile
  dsimp only
  split
  · rfl
  · rename_i hopen
    simpa using hopen

/-- The constructor leaves the stream closed, whatever fails in it. -/
theorem construct_isOpen (junk : Junk) (onDisk : Option Bytes) (outcomes : List Outcome)
    (diskBlockSize maxDataSize : UInt32) (removeExistingStore : Bool) (keyLengthMax : UInt32) :
    (construct junk onDisk outcomes diskBlockSize maxDataSize removeExistingStore
      keyLengthMax).2.storeFile.isOpen = false := by
  have hnew : ∀ ds : DiskStorage,
      (initialiseNew diskBlockSize maxDataSize ds).2.storeFile.isOpen = false := by
    intro ds
    have hcreate := createStoreFile_isOpen ds
    unfold initialiseNew
    rcases hds : ds.createStoreFile with ⟨outcome, ds₁⟩
    rw [hds] at hcreate
    cases outcome with
    | error err => exact hcreate
    | ok u => exact writeHeader_isOpen ds₁.storeFile _
  unfold construct
  split
  · unfold initialiseFromFile populateFreeSpaceMapFromFile
    dsimp only
    split
    · exact readBAT_isOpen _ _ _
    · exact readBAT_isOpen _ _ _
  · exact hnew _

/-- **Which runs fail safely**: from the store that the constructor leaves, and however the coming
operations on its stream end, every call of a run fails safely exactly when the failures during
every call are such as it deals with. -/
theorem failsSafely_iff {junk : Junk} {onDisk : Option Bytes} {outcomes : List Outcome}
    {diskBlockSize maxDataSize keyLengthMax : UInt32} {removeExistingStore : Bool}
    (hopen : construct junk onDisk outcomes diskBlockSize maxDataSize removeExistingStore
      keyLengthMax = (.ok (), ds)) (calls : List Call) :
    Runs.Throughout (call sha256_32) (FailsSafely sha256_32) calls ds ↔
      Runs.Throughout (call sha256_32) (DealtWith sha256_32) calls ds := by
  have hclosed := construct_isOpen junk onDisk outcomes diskBlockSize maxDataSize
    removeExistingStore keyLengthMax
  rw [hopen] at hclosed
  exact Runs.throughout_iff (I := fun ds => ds.storeFile.isOpen = false)
    (fun _ c h => failsSafely_call_iff h c) (fun _ _ _ h => h.closed) calls hclosed

/-- A new store, and how the operations on its stream end. -/
private def newFailing (outcomes : List Outcome) : DiskStorage :=
  (construct default none (List.replicate 4 .done ++ outcomes) 8 64 false 50).2

private def writeOne : Call := .writeBlocks [97] [⟨[97], 0, 4, [1, 2, 3, 4]⟩]

private def readOne : Call := .readBlocks [97] {0} 4

/-- A raw read that fails, and a read of a key that is not stored. -/
theorem failsSafely_iff_raw :
    Runs.Throughout (call lengthHash) (FailsSafely lengthHash)
      [.readRawDiskBlocks 0 1, readOne] (newFailing [.done, .cut 3]) :=
  (failsSafely_iff (Prod.ext (by decide +kernel) rfl) _).mpr
    ⟨trivial, fun _ _ h => (by cases h), trivial⟩

/-- A read that fails after the open leaves the stream open, and the next read fails on it though
every operation would succeed. A table that cannot be opened is dropped by a write that returns:
the file still counts no entry. -/
theorem failures_stay :
    ¬ Runs.Throughout (call lengthHash) (FailsSafely lengthHash)
        [writeOne, readOne] (newFailing (List.replicate 6 .done ++ [.cut 0])) ∧
      Runs.answers (call lengthHash) [writeOne, readOne, readOne]
          (newFailing (List.replicate 6 .done ++ [.cut 0]))
        = [.done (.ok ()), .blocks (.error .badRead), .blocks (.error .badRead)] ∧
      ¬ Runs.Throughout (call lengthHash) (FailsSafely lengthHash)
        [writeOne] (newFailing [.done, .done, .cut 0]) ∧
      ((newFailing [.done, .done, .cut 0]).call lengthHash writeOne).1 = .done (.ok ()) ∧
      readAt ((newFailing [.done, .done, .cut 0]).call lengthHash
        writeOne).2.storeFile.bytes Header.size 4 = [0, 0, 0, 0] := by
  refine ⟨?_, by decide +kernel, ?_, by decide +kernel, by decide +kernel⟩
  · rintro ⟨-, hread, -⟩
    exact absurd hread.closed (by decide +kernel)
  · rintro ⟨hwrite, -⟩
    exact absurd (hwrite.written _ _ rfl (by decide +kernel)).2 (by decide +kernel)

end DiskStorage

end RackKey
