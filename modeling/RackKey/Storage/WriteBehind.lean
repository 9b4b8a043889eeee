import RackKey.Lib.Simulation
import RackKey.Lib.WriteBehind
import RackKey.Storage.Rollback
import RackKey.Storage.Streams

set_option autoImplicit false

/-! # A store as a map that is saved when it is written

What a client sees of a store that is used and restarted in any order: the calls, their answers
and the restarts. All of it is what a map from hashes to bytes allows that saves itself with every
write and goes back to what it saved at a restart (`use_refines`), as long as no stored key is
overwritten without room for it. So what was written survives restarts (`written_survives`), and
what was deleted since the last write is undone by them (`reopen_undoes`).
-/

namespace RackKey

open Words ByteFile MathUtils WriteBehind

namespace DiskStorage

variable (sha256_32 : Bytes → UInt32)

/-! ## Uses of a store -/

/-- What is done with a store: a call, or a restart on its file. -/
inductive Use where
  | call (c : Call)
  | reopen (junk : Junk)

/-- What is seen of it. -/
inductive Event where
  | answered (c : Call) (a : Answer)
  | reopened (r : Except StorageError Unit)

def use (d m : UInt32) (ds : DiskStorage) : Use → Option (Option Event × DiskStorage)
  | .call c => some (some (.answered c (ds.call sha256_32 c).1), (ds.call sha256_32 c).2)
  | .reopen junk => some (some (.reopened (ds.reopen junk d m).1), (ds.reopen junk d m).2)

/-- A stored key is overwritten only when there is room for the list, its own blocks counted. A
write without room throws after it has given the blocks of the key away. -/
def FindsRoom (ds : DiskStorage) : Use → Prop
  | .call (.writeBlocks key dataBlocks) =>
      dataBlocks = [] ∨ ∀ i e, ds.findEntry sha256_32 key = some (i, e) →
        ds.HasRoom e (ds.getNumDiskBlocks (totalNumBytes dataBlocks)).toNat
  | _ => True

/-! ## The map that a store stands for -/

/-- What an event does to the map. -/
def Event.change : Event → Option (Change UInt32 Bytes)
  | .answered (.writeBlocks key dataBlocks) (.done (.ok ())) =>
      some (.write (sha256_32 key) (copyBlocks dataBlocks))
  | .answered (.deleteBlocks key) (.done (.ok ())) => some (.erase (sha256_32 key))
  | .reopened _ => some .restart
  | _ => none

/-- The answer of a call is the one that the map gives. Whether there is room for a write is left
to the store; a write that returns has something to write, and all of it. -/
def Event.Fits (w : Saved UInt32 Bytes) : Event → Prop
  | .answered (.readBlocks key S dataBlockSize) a =>
      a = .blocks (match w.current (sha256_32 key) with
        | none => .error (.noEntryForRead key)
        | some raw => selectBlocks key S dataBlockSize raw)
  | .answered (.getBlockNums key dataBlockSize) a =>
      a = .blockNums (match w.current (sha256_32 key) with
        | none => .error (.noEntryForRead key)
        | some raw => parseBlockNums dataBlockSize raw)
  | .answered (.deleteBlocks key) a =>
      a = .done (match w.current (sha256_32 key) with
        | none => .error (.noEntryForDelete key)
        | some _ => .ok ())
  | .answered (.writeBlocks _ dataBlocks) a =>
      ∃ r, a = .done r ∧ (r = .ok () → dataBlocks ≠ [] ∧
        (copyBlocks dataBlocks).length = (totalNumBytes dataBlocks).toNat)
  | .answered (.readRawDiskBlocks _ _) a => ∃ bytes, a = .bytes (.ok bytes)
  | .reopened r => r = .ok ()

/-- The map takes an event. -/
def Takes (w : Saved UInt32 Bytes) (e : Event) (w' : Saved UInt32 Bytes) : Prop :=
  e.Fits sha256_32 w ∧ w' = w.run (e.change sha256_32).toList

/-- The store with the given table in memory. -/
def withTable (ds : DiskStorage) (t : List BATEntry) : DiskStorage :=
  { ds with bat := { ds.bat with table := t } }

/-- The store stands for the map: the contents in memory are the map, and those of the table in
the file what the map has saved. -/
structure StandsFor (d m : UInt32) (ds : DiskStorage) (w : Saved UInt32 Bytes) : Prop where
  intact : ds.Intact d m
  backed : ds.Backed
  current : ∀ k, ds.contents k = w.current k
  fileTable : ∃ t, StoreFile.HoldsTable ds.storeFile.bytes t ∧
    TableOk ds.header ds.freeSpaceMap.numBits t ∧ (ds.withTable t).Backed ∧
    ∀ k, (ds.withTable t).contents k = w.saved k

variable {sha256_32} {d m : UInt32} {ds ds' : DiskStorage} {w : Saved UInt32 Bytes}

theorem standsFor_newStore (junk : Junk) (d m keyLengthMax : UInt32) :
    (newStore junk d m keyLengthMax).StandsFor d m empty := by
  obtain ⟨hr, hbat, -, hholds⟩ := recoverable_newStore junk d m keyLengthMax
  have hcontents : ∀ k, (newStore junk d m keyLengthMax).contents k = none := by
    intro k
    simp [contents, hbat, Keyed.lookup]
  refine ⟨hr.toIntact, backed_newStore junk d m keyLengthMax, hcontents, [], hholds,
    TableOk.nil _ _, ?_, ?_⟩
  · intro e he
    cases he
  · exact fun k => rfl

/-- Another ready stream on the same file, and the same map of the free space, make no
difference. -/
theorem StandsFor.withStoreFile (h : ds.StandsFor d m w) {f : StoreFile} (hf : f.Ready)
    (hbytes : f.bytes = ds.storeFile.bytes) :
    StandsFor d m { ds with storeFile := f } w := by
  obtain ⟨t, hholds, hok, htb, htc⟩ := h.fileTable
  have hcongr := contents_congr ds { ds with storeFile := f } rfl rfl hbytes
  have htable := contents_congr (ds.withTable t) (withTable { ds with storeFile := f } t) rfl rfl
    hbytes
  refine ⟨h.intact.withStoreFile hf hbytes, hcongr.2 h.backed, ?_, t, ?_, hok, htable.2 htb, ?_⟩
  · exact fun k => (hcongr.1 k).trans (h.current k)
  · show StoreFile.HoldsTable f.bytes t
    rw [hbytes]
    exact hholds
  · exact fun k => (htable.1 k).trans (htc k)

/-! ## Single uses -/

/-- **A write that returns** changes the map and saves it. -/
theorem StandsFor.write (h : ds.StandsFor d m w) (hl : Layout d m) {key : Bytes}
    {dataBlocks : List Block} {start : UInt32}
    (hw : WriteOk sha256_32 ds key dataBlocks start ds') :
    ds'.StandsFor d m (w.change (.write (sha256_32 key) (copyBlocks dataBlocks))) := by
  obtain ⟨hr, hholds⟩ := hw.recoverable h.intact (h.intact.headerClear hl.clear)
  obtain ⟨hb, hc⟩ := hw.contents hl h.intact h.backed
  have hcurrent : ∀ k, ds'.contents k
      = Function.update w.current (sha256_32 key) (some (copyBlocks dataBlocks)) k := by
    intro k
    rw [hc k, Function.update_apply]
    split
    · rfl
    · exact h.current k
  exact ⟨hr.toIntact, hb, hcurrent, ds'.bat.table, hholds, hr.sound.table, hb, hcurrent⟩

/-- **A write that throws** changes nothing, when it found room. -/
theorem writeBlocks_throws (h : ds.StandsFor d m w) {key : Bytes} {dataBlocks : List Block}
    (hroom : FindsRoom sha256_32 ds (.call (.writeBlocks key dataBlocks))) {err : StorageError}
    (hw : ds.writeBlocks sha256_32 key dataBlocks = (.error err, ds')) : ds' = ds := by
  have hrestore : ds.restoreFreedBlocks (ds.freeExisting (ds.findEntry sha256_32 key))
      (ds.findEntry sha256_32 key) = ds.freeSpaceMap :=
    restoreFreedBlocks_freeExisting h.intact.sound.marks key
  rcases writeBlocks_error hw with ⟨-, heq⟩ | ⟨hne, hnone, rfl⟩ | ⟨f, hf, rfl⟩
  · exact heq
  · -- nothing was found, so the key is not stored, and nothing was freed for it
    cases he : ds.findEntry sha256_32 key with
    | none => rfl
    | some ie =>
        obtain ⟨i, e⟩ := ie
        have hmem := (findEntry_eq_some he).2.2.1
        have hfound := findNFreeBlocks_freeExisting h.intact.sound.marks i hmem
          (h.intact.sound.table.nonempty e hmem) (ds.getNumDiskBlocks (totalNumBytes dataBlocks))
        rw [he] at hnone
        exact absurd hnone (hfound.mpr ((hroom.resolve_left hne) i e he))
  · rw [hrestore, hf h.intact.ready]

/-- **A delete that returns** takes the key out of the map, and saves nothing. -/
theorem StandsFor.delete (h : ds.StandsFor d m w) {key : Bytes}
    (hd : ds.deleteBlocks sha256_32 key = (.ok (), ds')) :
    ds'.StandsFor d m (w.change (.erase (sha256_32 key))) := by
  obtain ⟨i, e, he, rfl⟩ := deleteBlocks_ok hd
  obtain ⟨-, hbits⟩ := sound_deleteBlocks h.intact.sound he
  obtain ⟨hb, hc⟩ := contents_deleteBlocks h.intact.sound.table.hashes he
    (ds.freeSpaceMap.freeNBlocks e.startingDiskBlockNum (ds.getNumDiskBlocks e.numBytes))
    (ds.bat.numEntries - 1)
  obtain ⟨t, hholds, hok, htb, htc⟩ := h.fileTable
  refine ⟨intact_deleteBlocks h.intact he, hb h.backed, ?_, t, hholds, ?_, htb, htc⟩
  · intro k
    rw [hc k]
    simp only [Saved.change, Function.update_apply]
    split
    · rfl
    · exact h.current k
  · rw [hbits]
    exact hok

/-- **A restart** goes back to what was saved. -/
theorem StandsFor.reopen (h : ds.StandsFor d m w) (junk : Junk) :
    ∃ ds', ds.reopen junk d m = (.ok (), ds') ∧ ds'.StandsFor d m (w.change .restart) ∧
      ds'.keyLengthMax = ds.keyLengthMax := by
  obtain ⟨t, hholds, hok, htb, htc⟩ := h.fileTable
  obtain ⟨ds', hopen, hr, htable, hheader, hbytes, -, hbits, hkey⟩ :=
    reopen_spec h.intact junk hholds hok
  have hcongr := contents_congr (ds.withTable t) ds' hheader htable hbytes
  have hsaved : ∀ k, ds'.contents k = w.saved k := fun k => (hcongr.1 k).trans (htc k)
  refine ⟨ds', hopen, ⟨hr.toIntact, hcongr.2 htb, hsaved, t, ?_, ?_, ?_, ?_⟩, hkey⟩
  · rw [hbytes]
    exact hholds
  · rw [hheader, hbits]
    exact hok
  · rw [← htable]
    exact hcongr.2 htb
  · rw [← htable]
    exact hsaved

/-- A raw read leaves the stream ready, on the same file. -/
theorem readRawDiskBlocks_ready (hready : ds.storeFile.Ready) (start N : UInt32) :
    ∃ bytes f, f.Ready ∧ f.bytes = ds.storeFile.bytes ∧
      ds.readRawDiskBlocks start N = (.ok bytes, { ds with storeFile := f }) := by
  set r := ((StoreFile.live 0 ds.storeFile.bytes).seek (ds.getDiskBlockOffset start).toNat).read
    (N * ds.header.diskBlockSize).toNat with hr
  refine ⟨StoreFile.overlay (List.replicate (N * ds.header.diskBlockSize).toNat 0) r.1, r.2.close,
    ⟨rfl, rfl⟩, rfl, ?_⟩
  unfold readRawDiskBlocks
  rw [StoreFile.openFile_ready hready]
  rfl

/-- **A call** is taken by the map. -/
theorem StandsFor.call (h : ds.StandsFor d m w) (hl : Layout d m) {c : Call}
    (hroom : FindsRoom sha256_32 ds (.call c)) :
    ∃ w', Takes sha256_32 w (.answered c (ds.call sha256_32 c).1) w' ∧
      (ds.call sha256_32 c).2.StandsFor d m w' := by
  cases c with
  | readBlocks key S dataBlockSize =>
      obtain ⟨f, hf, hbytes, heq⟩ :=
        readBlocks_eq sha256_32 h.intact.ready h.backed key S dataBlockSize
      refine ⟨w, ⟨?_, rfl⟩, ?_⟩
      · cases hc : ds.contents (sha256_32 key) with
        | none => simp only [Event.Fits, DiskStorage.call, heq, ← h.current, hc]
        | some raw => simp only [Event.Fits, DiskStorage.call, heq, ← h.current, hc]
      · simp only [DiskStorage.call, heq]
        exact h.withStoreFile hf hbytes
  | getBlockNums key dataBlockSize =>
      obtain ⟨f, hf, hbytes, heq⟩ :=
        getBlockNums_eq sha256_32 h.intact.ready h.backed key dataBlockSize
      refine ⟨w, ⟨?_, rfl⟩, ?_⟩
      · cases hc : ds.contents (sha256_32 key) with
        | none => simp only [Event.Fits, DiskStorage.call, heq, ← h.current, hc]
        | some raw => simp only [Event.Fits, DiskStorage.call, heq, ← h.current, hc]
      · simp only [DiskStorage.call, heq]
        exact h.withStoreFile hf hbytes
  | readRawDiskBlocks start N =>
      obtain ⟨bytes, f, hf, hbytes, heq⟩ := readRawDiskBlocks_ready h.intact.ready start N
      refine ⟨w, ⟨⟨bytes, ?_⟩, rfl⟩, ?_⟩
      · simp only [DiskStorage.call, heq]
      · simp only [DiskStorage.call, heq]
        exact h.withStoreFile hf hbytes
  | writeBlocks key dataBlocks =>
      cases hw : ds.writeBlocks sha256_32 key dataBlocks with
      | mk r ds' =>
          simp only [DiskStorage.call, hw]
          cases r with
          | error err =>
              obtain rfl := writeBlocks_throws h hroom hw
              exact ⟨w, ⟨⟨.error err, rfl, fun hok => by cases hok⟩, rfl⟩, h⟩
          | ok u =>
              obtain ⟨start, hok⟩ := writeBlocks_ok hw
              exact ⟨_, ⟨⟨.ok (), rfl, fun _ => ⟨hok.nonempty, hok.copied⟩⟩, rfl⟩,
                h.write hl hok⟩
  | deleteBlocks key =>
      cases hd : ds.deleteBlocks sha256_32 key with
      | mk r ds' =>
          simp only [DiskStorage.call, hd]
          cases r with
          | error err =>
              obtain rfl := deleteBlocks_error hd
              refine ⟨w, ⟨?_, rfl⟩, h⟩
              cases he : ds'.findEntry sha256_32 key with
              | none =>
                  simp only [deleteBlocks, he, Prod.mk.injEq, Except.error.injEq] at hd
                  simp only [Event.Fits, ← h.current, contents_eq_none he, hd.1]
              | some ie => simp [deleteBlocks, he] at hd
          | ok u =>
              obtain ⟨i, e, he, -⟩ := deleteBlocks_ok hd
              refine ⟨_, ⟨?_, rfl⟩, h.delete hd⟩
              simp only [Event.Fits, ← h.current, contents_eq_some he]

/-! ## Runs -/

/-- The event of a `writeBlocks` that returned. -/
def Event.wrote (key : Bytes) (dataBlocks : List Block) : Event :=
  .answered (.writeBlocks key dataBlocks) (.done (.ok ()))

/-- What a client sees of a new store that is used and restarted. -/
abbrev SeenFrom (sha256_32 : Bytes → UInt32) (d m keyLengthMax : UInt32) (junk : Junk) :
    List Event → DiskStorage → Prop :=
  Simulation.Seen (use sha256_32 d m) (FindsRoom sha256_32) (newStore junk d m keyLengthMax)

/-- Whatever is done with a store is taken by the map it stands for. -/
theorem StandsFor.seen (hs : ds.StandsFor d m w) (hl : Layout d m) {es : List Event}
    (h : Simulation.Seen (use sha256_32 d m) (FindsRoom sha256_32) ds es ds') :
    ∃ w', Simulation.Allowed (Takes sha256_32) w es w' ∧ ds'.StandsFor d m w' := by
  refine h.allowed hs ?_
  intro s w op e s' hs hroom hstep
  cases op with
  | call c =>
      cases hstep
      exact hs.call hl hroom
  | reopen junk =>
      obtain ⟨s₁, hopen, hs₁, -⟩ := hs.reopen junk
      cases hstep
      simp only [hopen]
      exact ⟨_, ⟨rfl, rfl⟩, hs₁⟩

/-- **A store is a map that is saved when it is written**: all that is seen of it, through any
calls and restarts, is what such a map allows, and the contents are those of the map. -/
theorem use_refines (hl : Layout d m) {keyLengthMax : UInt32} {junk : Junk} {es : List Event}
    (h : SeenFrom sha256_32 d m keyLengthMax junk es ds) :
    ∃ w, Simulation.Allowed (Takes sha256_32) empty es w ∧ ∀ k, ds.contents k = w.current k := by
  obtain ⟨w, hw, hs⟩ := (standsFor_newStore junk d m keyLengthMax).seen hl h
  exact ⟨w, hw, hs.current⟩

private def oneByte : List Block := [⟨[97], 0, 1, [7]⟩]

/-- A new store after a write of the key `a`. -/
private def stored : DiskStorage :=
  ((newStore default 8 64 50).writeBlocks lengthHash [97] oneByte).2

/-- One more use of a store. -/
private theorem seen_use {es : List Event} {e : Event} {ds₀ : DiskStorage} (op : Use)
    (h : Simulation.Seen (use lengthHash 8 64) (FindsRoom lengthHash) ds₀ es ds)
    (hroom : FindsRoom lengthHash ds op) (hop : use lengthHash 8 64 ds op = some (some e, ds')) :
    Simulation.Seen (use lengthHash 8 64) (FindsRoom lengthHash) ds₀ (es ++ [e]) ds' :=
  h.step hroom hop

private theorem seen_stored :
    SeenFrom lengthHash 8 64 50 default ([] ++ [.wrote [97] oneByte]) stored := by
  refine seen_use (.call (.writeBlocks [97] oneByte)) .start ?_ ?_
  · refine Or.inr fun i e h => ?_
    have hnone : (newStore default 8 64 50).findEntry lengthHash [97] = none := by decide
    rw [hnone] at h
    cases h
  · have hanswer : ((newStore default 8 64 50).writeBlocks lengthHash [97] oneByte).1 = .ok () := by
      decide
    simp only [use, call, hanswer]
    rfl

private theorem seen_deleted {es : List Event} {ds₀ : DiskStorage}
    (h : Simulation.Seen (use lengthHash 8 64) (FindsRoom lengthHash) ds₀ es stored) :
    Simulation.Seen (use lengthHash 8 64) (FindsRoom lengthHash) ds₀
      (es ++ [.answered (.deleteBlocks [97]) (.done (.ok ()))])
      (stored.deleteBlocks lengthHash [97]).2 := by
  have hdelete : (stored.deleteBlocks lengthHash [97]).1 = .ok () := by decide
  refine seen_use (.call (.deleteBlocks [97])) h trivial ?_
  simp only [use, call, hdelete]

/-- A key is written, deleted, and back after a restart. -/
theorem use_refines_sample :
    ∃ w, Simulation.Allowed (Takes lengthHash) empty
        ([] ++ [.wrote [97] oneByte] ++ [.answered (.deleteBlocks [97]) (.done (.ok ()))] ++
          [.reopened (.ok ())]) w ∧
      ∀ k, ((stored.deleteBlocks lengthHash [97]).2.reopen default 8 64).2.contents k
        = w.current k := by
  have hopen : ((stored.deleteBlocks lengthHash [97]).2.reopen default 8 64).1 = .ok () := by decide
  refine use_refines layout_sample
    (seen_use (.reopen default) (seen_deleted seen_stored) trivial ?_)
  simp only [use, hopen]

/-- The map after the events seen. -/
theorem run_of_allowed {w₀ : Saved UInt32 Bytes} {es : List Event}
    (h : Simulation.Allowed (Takes sha256_32) w₀ es w) :
    w = w₀.run (es.filterMap (Event.change sha256_32)) := by
  induction h with
  | start => rfl
  | @event es t t' e before next ih =>
      rw [next.2, ih, List.filterMap_append, Saved.run_append]
      cases he : e.change sha256_32 with
      | none => simp [he]
      | some c => simp [he]

/-- Only a `writeBlocks` that returned writes to the map. -/
theorem Event.eq_wrote {e : Event} {k : UInt32} {v : Bytes}
    (h : e.change sha256_32 = some (.write k v)) :
    ∃ key dataBlocks, e = .wrote key dataBlocks := by
  cases e with
  | reopened r => cases h
  | answered c a =>
      cases c with
      | writeBlocks key dataBlocks =>
          cases a with
          | done r =>
              cases r with
              | ok u => exact ⟨key, dataBlocks, rfl⟩
              | error err => cases h
          | _ => cases h
      | deleteBlocks key =>
          cases a with
          | done r =>
              cases r with
              | ok u => cases h
              | error err => cases h
          | _ => cases h
      | _ => cases h

/-- What a store stands for after a write that returned. -/
theorem standsFor_wrote (hl : Layout d m) {keyLengthMax : UInt32} {junk : Junk} {es : List Event}
    {key : Bytes} {dataBlocks : List Block}
    (h : SeenFrom sha256_32 d m keyLengthMax junk (es ++ [.wrote key dataBlocks]) ds) :
    ∃ w : Saved UInt32 Bytes,
      ds.StandsFor d m (w.change (.write (sha256_32 key) (copyBlocks dataBlocks))) := by
  obtain ⟨w, hallowed, hstands⟩ := (standsFor_newStore junk d m keyLengthMax).seen hl h
  have hw := run_of_allowed hallowed
  rw [List.filterMap_append, Saved.run_append] at hw
  rw [hw] at hstands
  exact ⟨_, hstands⟩

/-- **What was written is read, after any number of restarts**, until its hash is written or
deleted again. -/
theorem written_survives (hl : Layout d m) {keyLengthMax : UInt32} {junk : Junk}
    {es es' : List Event} {key : Bytes} {dataBlocks : List Block} {dataBlockSize : UInt32}
    (h : SeenFrom sha256_32 d m keyLengthMax junk (es ++ [.wrote key dataBlocks]) ds)
    (h' : Simulation.Seen (use sha256_32 d m) (FindsRoom sha256_32) ds es' ds')
    (hwrite : ∀ v, ∀ e ∈ es', e.change sha256_32 ≠ some (.write (sha256_32 key) v))
    (herase : ∀ e ∈ es', e.change sha256_32 ≠ some (.erase (sha256_32 key)))
    (hc : Chunked dataBlockSize dataBlocks) (hn : (dataBlocks.map Block.blockNum).Nodup) :
    ReadsBack sha256_32 ds' key dataBlocks dataBlockSize := by
  obtain ⟨w, hs⟩ := standsFor_wrote hl h
  obtain ⟨w', hallowed, hs'⟩ := hs.seen hl h'
  have hcontents : ds'.contents (sha256_32 key) = some (copyBlocks dataBlocks) := by
    rw [hs'.current, run_of_allowed hallowed]
    refine Saved.current_after_write w _ _ ?_ ?_
    · intro v hv
      obtain ⟨e, he, hchange⟩ := List.mem_filterMap.mp hv
      exact hwrite v e he hchange
    · intro hv
      obtain ⟨e, he, hchange⟩ := List.mem_filterMap.mp hv
      exact herase e he hchange
  exact readsBack_of_contents hs'.intact.ready hs'.backed hc (contents_length_lt hcontents) hn
    hcontents

theorem written_survives_sample :
    ReadsBack lengthHash (stored.reopen default 8 64).2 [97] oneByte 4 := by
  have hopen : (stored.reopen default 8 64).1 = .ok () := by decide
  have hseen : Simulation.Seen (use lengthHash 8 64) (FindsRoom lengthHash) stored
      ([] ++ [.reopened (.ok ())]) (stored.reopen default 8 64).2 := by
    refine seen_use (.reopen default) .start trivial ?_
    simp only [use, hopen]
  refine written_survives layout_sample seen_stored hseen ?_ ?_ ⟨by decide, by decide, by decide⟩
    (by decide)
  · intro v e he
    obtain rfl := List.mem_singleton.mp he
    simp [Event.change]
  · intro e he
    obtain rfl := List.mem_singleton.mp he
    simp [Event.change]

/-- **A restart undoes what was deleted since the last write**, and nothing else: every key reads
what it read right after that write. -/
theorem reopen_undoes (hl : Layout d m) {keyLengthMax : UInt32} {junk junk' : Junk}
    {es es' : List Event} {key : Bytes} {dataBlocks : List Block}
    (h : SeenFrom sha256_32 d m keyLengthMax junk (es ++ [.wrote key dataBlocks]) ds)
    (h' : Simulation.Seen (use sha256_32 d m) (FindsRoom sha256_32) ds es' ds')
    (hno : ∀ key' dataBlocks', .wrote key' dataBlocks' ∉ es') :
    ∃ re, ds'.reopen junk' d m = (.ok (), re) ∧ ∀ key', SameReads sha256_32 ds re key' := by
  obtain ⟨w, hs⟩ := standsFor_wrote hl h
  obtain ⟨w', hallowed, hs'⟩ := hs.seen hl h'
  obtain ⟨re, hopen, hre, -⟩ := hs'.reopen junk'
  refine ⟨re, hopen, fun key' => ?_⟩
  have hsaved : w'.saved = (w.change (.write (sha256_32 key) (copyBlocks dataBlocks))).current := by
    rw [run_of_allowed hallowed]
    refine Saved.saved_run ?_
    intro k v hv
    obtain ⟨e, he, hchange⟩ := List.mem_filterMap.mp hv
    obtain ⟨key', dataBlocks', rfl⟩ := Event.eq_wrote hchange
    exact hno key' dataBlocks' he
  refine sameReads_of_contents hs.intact.ready hs.backed hre.intact.ready hre.backed ?_
  rw [hre.current, hs.current, ← hsaved]
  rfl

theorem reopen_undoes_sample :
    ∃ re, (stored.deleteBlocks lengthHash [97]).2.reopen default 8 64 = (.ok (), re) ∧
      ∀ key', SameReads lengthHash stored re key' := by
  refine reopen_undoes layout_sample seen_stored (seen_deleted .start) ?_
  intro key' dataBlocks' hmem
  simp [Event.wrote] at hmem

end DiskStorage

end RackKey
