import RackKey.Storage.Crash
import RackKey.Storage.Opening

set_option autoImplicit false

/-! # Reads after a stop

What a restart finds after the updates of a `writeBlocks` stopped (`AfterStop`), and what the object
itself has after the data was written in part and the call threw (`AfterCut`). The restart goes
through if no record of the table it finds runs past the map; otherwise it writes outside of the
bitmap (`checkedReopen`). `reads_after_stop` is all of it, for every stop.
-/

namespace RackKey

open Words ByteFile MathUtils

namespace DiskStorage

variable {sha256_32 : Bytes → UInt32} {d m : UInt32} {ds ds' re : DiskStorage} {key : Bytes}
variable {dataBlocks : List Block} {dataBlockSize start : UInt32} {p : Nat}

/-- What a restart that goes through finds after the updates stopped. -/
structure AfterStop (sha256_32 : Bytes → UInt32) (ds : DiskStorage) (key : Bytes)
    (dataBlocks : List Block) (dataBlockSize : UInt32) (p : Nat) (re : DiskStorage) : Prop where
  /-- Another key that is stored. -/
  stored : CountWhole sha256_32 ds key dataBlocks p → ∀ key', sha256_32 key' ≠ sha256_32 key →
    ds.findEntry sha256_32 key' ≠ none → SameReads sha256_32 ds re key'
  /-- Another key that is not stored. -/
  absent : ds.findEntry sha256_32 key ≠ none ∨
      TableBefore sha256_32 ds key dataBlocks p ∨ TableAfter sha256_32 ds key dataBlocks p →
    ∀ key', sha256_32 key' ≠ sha256_32 key → ds.findEntry sha256_32 key' = none →
      SameReads sha256_32 ds re key'
  old : TableBefore sha256_32 ds key dataBlocks p → Spared sha256_32 ds key dataBlocks p →
    SameReads sha256_32 ds re key
  new : TableAfter sha256_32 ds key dataBlocks p →
    ReadsBack sha256_32 re key dataBlocks dataBlockSize

/-- A restart after a stop: whether it goes through, and what it finds. -/
structure Restarts (sha256_32 : Bytes → UInt32) (d m : UInt32) (ds : DiskStorage) (key : Bytes)
    (dataBlocks : List Block) (dataBlockSize : UInt32) (junk : Junk) (p : Nat)
    (t : List BATEntry) : Prop where
  /-- `t` is the table in the file. -/
  holds : StoreFile.HoldsTable (crashed sha256_32 ds key dataBlocks p) t
  inside : TableBefore sha256_32 ds key dataBlocks p ∨ TableAfter sha256_32 ds key dataBlocks p →
    ds.NoOverrun t
  opens : ds.NoOverrun t → ∃ re,
    (ds.withBytes (crashed sha256_32 ds key dataBlocks p)).checkedReopen junk m
        = some (.ok (), re) ∧
      re.bat.table = t ∧ AfterStop sha256_32 ds key dataBlocks dataBlockSize p re
  /-- The opening writes outside of the bitmap. -/
  overruns : ¬ ds.NoOverrun t →
    (ds.withBytes (crashed sha256_32 ds key dataBlocks p)).checkedReopen junk m = none

theorem Intact.noOverrun (hi : ds.Intact d m) (hre : re.Intact d m) :
    ds.NoOverrun re.bat.table := by
  have hbits : re.freeSpaceMap.numBits = ds.freeSpaceMap.numBits := by
    rw [FreeSpaceMap.numBits, FreeSpaceMap.numBits, re.freeSpaceMap.size_eq,
      ds.freeSpaceMap.size_eq, hre.capacity, hi.capacity]
  intro e he
  have hin := hre.sound.table.inside e he
  rw [hbits, hre.header, ← hi.header] at hin
  exact Or.inr hin

theorem TableBefore.reads (h : TableBefore sha256_32 ds key dataBlocks p) (hi : ds.Intact d m)
    (hb : ds.Backed) (hfile : StoreFile.HoldsTable ds.storeFile.bytes ds.bat.table)
    (hr : Regions sha256_32 ds key) (junk : Junk) :
    ∃ re, (ds.withBytes (crashed sha256_32 ds key dataBlocks p)).reopen junk d m = (.ok (), re) ∧
      ds.NoOverrun re.bat.table ∧
      (∀ key', sha256_32 key' ≠ sha256_32 key → SameReads sha256_32 ds re key') ∧
      (Spared sha256_32 ds key dataBlocks p → SameReads sha256_32 ds re key) := by
  obtain ⟨hi', hb', hfile', hother, hself⟩ := h.view hi hb hfile hr
  obtain ⟨re, hopen, hre, hbre, hcontents⟩ := reopen_contents hi' hb' hfile' junk
  refine ⟨re, hopen, hi.noOverrun hre, fun key' hk => ?_, fun hspared => ?_⟩
  · exact sameReads_of_contents hi.ready hb hre.ready hbre
      ((hcontents _).trans (hother _ hk))
  · exact sameReads_of_contents hi.ready hb hre.ready hbre
      ((hcontents _).trans (hself hspared))

theorem TableAfter.reads (h : TableAfter sha256_32 ds key dataBlocks p) (hi : ds.Intact d m)
    (hb : ds.Backed) (hr : Regions sha256_32 ds key) (hc : Chunked dataBlockSize dataBlocks)
    (hn : (dataBlocks.map Block.blockNum).Nodup) (junk : Junk) :
    ∃ re, (ds.withBytes (crashed sha256_32 ds key dataBlocks p)).reopen junk d m = (.ok (), re) ∧
      ds.NoOverrun re.bat.table ∧
      (∀ key', sha256_32 key' ≠ sha256_32 key → SameReads sha256_32 ds re key') ∧
      ReadsBack sha256_32 re key dataBlocks dataBlockSize := by
  obtain ⟨re, hopen, hre, hbre, hlen, hcontents⟩ := h.view hi hb hr junk
  refine ⟨re, hopen, hi.noOverrun hre, fun key' hk => ?_, ?_⟩
  · exact sameReads_of_contents hi.ready hb hre.ready hbre (by rw [hcontents, if_neg hk])
  · exact readsBack_of_contents hre.ready hbre hc hlen hn (by rw [hcontents, if_pos rfl])

/-- What `reopen` finds after any stop. -/
theorem afterStop (hi : ds.Intact d m) (hb : ds.Backed)
    (hfile : StoreFile.HoldsTable ds.storeFile.bytes ds.bat.table)
    (hr : Regions sha256_32 ds key) (hc : Chunked dataBlockSize dataBlocks)
    (hn : (dataBlocks.map Block.blockNum).Nodup) (junk : Junk) (p : Nat) :
    ∃ re, (ds.withBytes (crashed sha256_32 ds key dataBlocks p)).reopen junk d m = (.ok (), re) ∧
      (TableBefore sha256_32 ds key dataBlocks p ∨ TableAfter sha256_32 ds key dataBlocks p →
        ds.NoOverrun re.bat.table) ∧
      AfterStop sha256_32 ds key dataBlocks dataBlockSize p re := by
  -- a stop leaves the old table, or comes after the data of a call that would return
  have hcases : TableBefore sha256_32 ds key dataBlocks p ∨
      ∃ start ds', WriteOk sha256_32 ds key dataBlocks start ds' ∧
        (copyBlocks dataBlocks).length < p := by
    rcases Nat.lt_or_ge (copyBlocks dataBlocks).length p with hp | hp
    · rcases fileUpdates_cases sha256_32 key dataBlocks hi.ready
        with ⟨start, ds', -, hw⟩ | ⟨-, hnil⟩
      · exact Or.inr ⟨start, ds', hw, hp⟩
      · exact Or.inl (by rw [TableBefore, crashed_of_nil hnil, crashed_of_nil hnil])
    · exact Or.inl (tableBefore_of_le hi hfile hr (by omega))
  have hre : ∃ re, (ds.withBytes (crashed sha256_32 ds key dataBlocks p)).reopen junk d m
        = (.ok (), re) ∧
      ∀ key', sha256_32 key' ≠ sha256_32 key → (ds.findEntry sha256_32 key ≠ none ∨
          CountWhole sha256_32 ds key dataBlocks p ∧ ds.findEntry sha256_32 key' ≠ none) →
        SameReads sha256_32 ds re key' := by
    rcases hcases with hbefore | ⟨start, ds', hw, hp⟩
    · obtain ⟨re, hopen, -, hother, -⟩ := hbefore.reads hi hb hfile hr junk
      exact ⟨re, hopen, fun key' hk _ => hother key' hk⟩
    · exact hw.reads_torn hi hb hfile hr junk hp
  obtain ⟨re, hopen, hother⟩ := hre
  -- there is one restart, so what the views say of it holds of this one
  have hsame : ∀ re', (ds.withBytes (crashed sha256_32 ds key dataBlocks p)).reopen junk d m
      = (.ok (), re') → re' = re := by
    intro re' hopen'
    rw [hopen] at hopen'
    exact ((Prod.mk.inj hopen').2).symm
  refine ⟨re, hopen, fun h => ?_,
    fun hwhole key' hk hkey' => hother key' hk (Or.inr ⟨hwhole, hkey'⟩),
    fun h key' hk _ => ?_, fun h hspared => ?_, fun h => ?_⟩
  · rcases h with h | h
    · obtain ⟨re', hopen', hin, -⟩ := h.reads hi hb hfile hr junk
      exact hsame re' hopen' ▸ hin
    · obtain ⟨re', hopen', hin, -⟩ := h.reads hi hb hr hc hn junk
      exact hsame re' hopen' ▸ hin
  · rcases h with h | h | h
    · exact hother key' hk (Or.inl h)
    · obtain ⟨re', hopen', -, hother', -⟩ := h.reads hi hb hfile hr junk
      exact hsame re' hopen' ▸ hother' key' hk
    · obtain ⟨re', hopen', -, hother', -⟩ := h.reads hi hb hr hc hn junk
      exact hsame re' hopen' ▸ hother' key' hk
  · obtain ⟨re', hopen', -, -, hself⟩ := h.reads hi hb hfile hr junk
    exact hsame re' hopen' ▸ hself hspared
  · obtain ⟨re', hopen', -, -, hself⟩ := h.reads hi hb hr hc hn junk
    exact hsame re' hopen' ▸ hself

/-- The file after any stop has a table, and its header. -/
theorem crashed_table (hi : ds.Intact d m) (hb : ds.Backed)
    (hfile : StoreFile.HoldsTable ds.storeFile.bytes ds.bat.table)
    (hr : Regions sha256_32 ds key) (dataBlocks : List Block) (p : Nat) :
    (ds.withBytes (crashed sha256_32 ds key dataBlocks p)).Intact d m ∧
      ∃ t, StoreFile.HoldsTable (crashed sha256_32 ds key dataBlocks p) t := by
  rcases Nat.lt_or_ge (copyBlocks dataBlocks).length p with hp | hp
  · rcases fileUpdates_cases sha256_32 key dataBlocks hi.ready
      with ⟨start, ds', -, hw⟩ | ⟨-, hnil⟩
    · obtain ⟨t, hholds, -⟩ := hw.torn_lookup hi hfile hr hp
      exact ⟨hw.intact_crashed hi hfile hr p, t, hholds⟩
    · rw [crashed_of_nil hnil]
      exact ⟨hi, _, hfile⟩
  · have hbefore : TableBefore sha256_32 ds key dataBlocks p :=
      tableBefore_of_le hi hfile hr (by omega)
    obtain ⟨hintact, -, hholds, -⟩ := hbefore.view hi hb hfile hr
    exact ⟨hintact, _, hholds⟩

/-- **A restart after any stop.** -/
theorem restarts (hd : d ≠ 0) (hi : ds.Intact d m) (hb : ds.Backed)
    (hfile : StoreFile.HoldsTable ds.storeFile.bytes ds.bat.table)
    (hr : Regions sha256_32 ds key) (hc : Chunked dataBlockSize dataBlocks)
    (hn : (dataBlocks.map Block.blockNum).Nodup) (junk : Junk) (p : Nat) :
    ∃ t, Restarts sha256_32 d m ds key dataBlocks dataBlockSize junk p t := by
  obtain ⟨hintact, t, hholds⟩ := crashed_table hi hb hfile hr dataBlocks p
  obtain ⟨hgoes, hfails⟩ := checkedReopen_spec hintact hd junk hholds
  obtain ⟨re, hopen, hinside, hafter⟩ := afterStop hi hb hfile hr hc hn junk p
  have htable : re.bat.table = t := by
    obtain ⟨re', hopen', htable, -⟩ := reopen_table hintact junk hholds
    rw [hopen] at hopen'
    rw [(Prod.mk.inj hopen').2, htable]
  rw [htable] at hinside
  exact ⟨t, hholds, hinside,
    fun hin => ⟨re, (hgoes hin).trans (congrArg some hopen), htable, hafter⟩, hfails⟩

/-! ## The object itself after a partial write -/

/-- The store when the coming write of data stops after `c` bytes. -/
def failing (ds : DiskStorage) (c : Nat) (outcomes : List Outcome) : DiskStorage :=
  { ds with storeFile := { ds.storeFile with outcomes := .done :: .cut c :: outcomes } }

/-- What the object holds after the throw, and what reads would find in it through a stream in
order. (The stream itself is left open by the throw.) -/
structure AfterCut (sha256_32 : Bytes → UInt32) (ds : DiskStorage) (key : Bytes)
    (dataBlocks : List Block) (c : Nat) (ds₁ : DiskStorage) : Prop where
  bat : ds₁.bat = ds.bat
  freeSpaceMap : ds₁.freeSpaceMap = ds.freeSpaceMap
  others : ∀ f : StoreFile, f.Ready → f.bytes = ds₁.storeFile.bytes → ∀ key',
    sha256_32 key' ≠ sha256_32 key → SameReads sha256_32 ds { ds₁ with storeFile := f } key'
  old : ∀ f : StoreFile, f.Ready → f.bytes = ds₁.storeFile.bytes →
    Spared sha256_32 ds key dataBlocks c → SameReads sha256_32 ds { ds₁ with storeFile := f } key

/-- The write of the data stops. -/
theorem writeExtent_cut {f : StoreFile} (hclosed : f.isOpen = false) (c : Nat)
    (outcomes : List Outcome) (offset : UInt32) (buffer : Bytes) :
    ({ f with outcomes := .done :: .cut c :: outcomes } : StoreFile).writeExtent offset buffer
      = (.error .badWrite, ⟨true, true, offset.toNat,
          writeAt 0 f.bytes offset.toNat (buffer.take c), outcomes⟩) := by
  simp [StoreFile.writeExtent, StoreFile.openFile, StoreFile.next, StoreFile.seek, StoreFile.write,
    hclosed]

/-- A call that throws because its data is written in part would have returned, and has restored
the map. -/
theorem writeBlocks_failing (hi : ds.Intact d m) {c : Nat} {outcomes : List Outcome}
    {ds₁ : DiskStorage}
    (hcall : (ds.failing c outcomes).writeBlocks sha256_32 key dataBlocks
      = (.error .badWrite, ds₁)) :
    ∃ start ds', WriteOk sha256_32 ds key dataBlocks start ds' ∧
      ds₁ = { ds with
        storeFile := ⟨true, true, (ds.getDiskBlockOffset start).toNat,
          writeAt 0 ds.storeFile.bytes (ds.getDiskBlockOffset start).toNat
            ((copyBlocks dataBlocks).take c), outcomes⟩ } := by
  unfold writeBlocks at hcall
  by_cases h0 : dataBlocks.length = 0
  · rw [if_pos h0] at hcall
    cases hcall
  rw [if_neg h0] at hcall
  have hfreed : (ds.failing c outcomes).freeExisting
      ((ds.failing c outcomes).findEntry sha256_32 key)
      = ds.freeExisting (ds.findEntry sha256_32 key) := by
    show (ds.failing c outcomes).freeExisting (ds.findEntry sha256_32 key) = _
    cases ds.findEntry sha256_32 key <;> rfl
  have hnum : (ds.failing c outcomes).getNumDiskBlocks (totalNumBytes dataBlocks)
      = ds.getNumDiskBlocks (totalNumBytes dataBlocks) := rfl
  dsimp only at hcall
  rw [hfreed, hnum] at hcall
  cases hf : (ds.freeExisting (ds.findEntry sha256_32 key)).findNFreeBlocks
      (ds.getNumDiskBlocks (totalNumBytes dataBlocks)) with
  | none =>
      rw [hf] at hcall
      cases hcall
  | some start =>
      rw [hf] at hcall
      dsimp only at hcall
      by_cases hc : (copyBlocks dataBlocks).length ≠ (totalNumBytes dataBlocks).toNat
      · rw [if_pos hc] at hcall
        cases hcall
      rw [if_neg hc] at hcall
      have hok := writeBlocks_of_room sha256_32 hi.ready
        (fun hnil => h0 (by rw [hnil]; rfl)) (by rw [hf]; simp) (not_not.mp hc)
      obtain ⟨start', hw⟩ := writeBlocks_ok
        (show ds.writeBlocks sha256_32 key dataBlocks = (.ok (), _) from Prod.ext hok rfl)
      have hstart : start' = start := Option.some.inj (hw.found.symm.trans hf)
      rw [hstart] at hw
      refine ⟨start, _, hw, ?_⟩
      have hext : (ds.failing c outcomes).storeFile.writeExtent
          ((ds.failing c outcomes).getDiskBlockOffset start) (copyBlocks dataBlocks) = _ :=
        writeExtent_cut hi.ready.closed c outcomes (ds.getDiskBlockOffset start)
          (copyBlocks dataBlocks)
      have hrestored : (ds.failing c outcomes).restoreFreedBlocks
          (ds.freeExisting (ds.findEntry sha256_32 key))
          ((ds.failing c outcomes).findEntry sha256_32 key) = ds.freeSpaceMap := by
        have hback : ds.restoreFreedBlocks (ds.freeExisting (ds.findEntry sha256_32 key))
            (ds.findEntry sha256_32 key) = ds.freeSpaceMap :=
          restoreFreedBlocks_freeExisting hi.sound.marks key
        rw [← hback]
        show (ds.failing c outcomes).restoreFreedBlocks _ (ds.findEntry sha256_32 key) = _
        cases ds.findEntry sha256_32 key <;> rfl
      rw [hext, hrestored] at hcall
      exact ((Prod.mk.inj hcall).2).symm

theorem afterCut (hi : ds.Intact d m) (hb : ds.Backed) (hr : Regions sha256_32 ds key) {c : Nat}
    {outcomes : List Outcome} {ds₁ : DiskStorage}
    (hcall : (ds.failing c outcomes).writeBlocks sha256_32 key dataBlocks
      = (.error .badWrite, ds₁)) :
    AfterCut sha256_32 ds key dataBlocks c ds₁ := by
  obtain ⟨start, ds', hw, rfl⟩ := writeBlocks_failing hi hcall
  have hdata : ((copyBlocks dataBlocks).take c).length ≤ (copyBlocks dataBlocks).length :=
    List.length_take_le' _ _
  obtain ⟨hbacked, hother, hself⟩ := hw.contents_afterData hi.sound hb hr hdata
  have hreads : ∀ f : StoreFile, f.Ready → f.bytes
        = writeAt 0 ds.storeFile.bytes (ds.getDiskBlockOffset start).toNat
            ((copyBlocks dataBlocks).take c) → ∀ key',
      contents (ds.withBytes (writeAt 0 ds.storeFile.bytes (ds.getDiskBlockOffset start).toNat
          ((copyBlocks dataBlocks).take c))) (sha256_32 key') = ds.contents (sha256_32 key') →
        SameReads sha256_32 ds { ds with storeFile := f } key' := by
    intro f hf hbytes key' hkey'
    obtain ⟨hcontents, hb'⟩ := contents_congr (ds.withBytes (writeAt 0 ds.storeFile.bytes
      (ds.getDiskBlockOffset start).toNat ((copyBlocks dataBlocks).take c)))
        { ds with storeFile := f } rfl rfl hbytes
    exact sameReads_of_contents hi.ready hb hf (hb' hbacked) ((hcontents _).trans hkey')
  refine ⟨rfl, rfl, fun f hf hbytes key' hk => hreads f hf hbytes key' (hother _ hk),
    fun f hf hbytes hspared => hreads f hf hbytes key (hself fun i e he => ?_)⟩
  have hp := hspared i e he _ (by rw [hw.fileUpdates_eq]; rfl)
  rw [List.length_take]
  rcases hp with hp | hp
  · exact Or.inl (by rw [hp, List.take_zero])
  · exact Or.inr hp

/-- **Reads after a stop**: on re-opening after every stop, and on the object after a write of data
that stops. -/
theorem reads_after_stop (hd : d ≠ 0) (hi : ds.Intact d m) (hb : ds.Backed)
    (hfile : StoreFile.HoldsTable ds.storeFile.bytes ds.bat.table)
    (hr : Regions sha256_32 ds key) (hc : Chunked dataBlockSize dataBlocks)
    (hn : (dataBlocks.map Block.blockNum).Nodup) (junk : Junk) :
    (∀ p, ∃ t, Restarts sha256_32 d m ds key dataBlocks dataBlockSize junk p t) ∧
      (∀ p, p ≤ (copyBlocks dataBlocks).length + (changedBytes sha256_32 ds key).1 →
        TableBefore sha256_32 ds key dataBlocks p) ∧
      (∀ p, (ds.writeBlocks sha256_32 key dataBlocks).1 = .ok () →
        (copyBlocks dataBlocks).length + (changedBytes sha256_32 ds key).2 ≤ p →
          TableAfter sha256_32 ds key dataBlocks p) ∧
      ∀ c outcomes ds₁, (ds.failing c outcomes).writeBlocks sha256_32 key dataBlocks
          = (.error .badWrite, ds₁) → AfterCut sha256_32 ds key dataBlocks c ds₁ :=
  ⟨restarts hd hi hb hfile hr hc hn junk, fun _ => tableBefore_of_le hi hfile hr,
    fun _ => tableAfter_of_le hi hfile hr, fun _ _ _ => afterCut hi hb hr⟩

/-- A new store after two writes. -/
private def twoKeys : DiskStorage :=
  let ds := ((newStore default 8 64 50).writeBlocks lengthHash [97] [⟨[97], 0, 4, [1, 2, 3, 4]⟩]).2
  (ds.writeBlocks lengthHash [98, 98] [⟨[98, 98], 0, 2, [9, 9]⟩]).2

private theorem intact_twoKeys : twoKeys.Intact 8 64 ∧ twoKeys.Backed ∧
    StoreFile.HoldsTable twoKeys.storeFile.bytes twoKeys.bat.table := by
  obtain ⟨hnew, -, -, -⟩ := recoverable_newStore default 8 64 50
  have hb := backed_newStore default 8 64 50
  have hfirst : (newStore default 8 64 50).writeBlocks lengthHash [97] [⟨[97], 0, 4, [1, 2, 3, 4]⟩]
      = (.ok (), ((newStore default 8 64 50).writeBlocks lengthHash [97]
          [⟨[97], 0, 4, [1, 2, 3, 4]⟩]).2) := by decide +kernel
  obtain ⟨start, hw⟩ := writeBlocks_ok hfirst
  obtain ⟨hr, -⟩ := hw.recoverable hnew.toIntact (hnew.toIntact.headerClear layout_sample.clear)
  obtain ⟨hb', -⟩ := hw.contents layout_sample hnew.toIntact hb
  have hsecond : ((newStore default 8 64 50).writeBlocks lengthHash [97]
      [⟨[97], 0, 4, [1, 2, 3, 4]⟩]).2.writeBlocks lengthHash [98, 98] [⟨[98, 98], 0, 2, [9, 9]⟩]
        = (.ok (), twoKeys) := by decide +kernel
  obtain ⟨start', hw'⟩ := writeBlocks_ok hsecond
  obtain ⟨hr', hholds⟩ := hw'.recoverable hr.toIntact (hr.toIntact.headerClear layout_sample.clear)
  obtain ⟨hb'', -⟩ := hw'.contents layout_sample hr.toIntact hb'
  exact ⟨hr'.toIntact, hb'', hholds⟩

theorem reads_after_stop_sample :
    ∃ t, Restarts lengthHash 8 64 twoKeys [97] [⟨[97], 0, 4, [5, 6, 7, 8]⟩] 4 default 6 t := by
  obtain ⟨hi, hb, hfile⟩ := intact_twoKeys
  have hr : Regions lengthHash twoKeys [97] := ⟨hi.linear layout_sample, by decide +kernel⟩
  have hc : Chunked 4 [⟨[97], 0, 4, [5, 6, 7, 8]⟩] := ⟨by decide, by decide, by decide⟩
  exact (reads_after_stop (by decide) hi hb hfile hr hc (by decide) default).1 6

/-- What a key reads on re-opening when an overwrite of `a` stops after `p` bytes. -/
private def readAfterStop (dataBlocks : List Block) (p : Nat) (key : Bytes) (S : Finset UInt32) :
    Except StorageError (List Block) :=
  (((twoKeys.withBytes (crashed lengthHash twoKeys [97] dataBlocks p)).reopen
    default 8 64).2.readBlocks lengthHash key S 4).1

/-- A store of one block, the map of which has eight bits, after a write. -/
private def cramped : DiskStorage :=
  ((newStore default 8 8 50).writeBlocks lengthHash [97] [⟨[97], 0, 4, [1, 2, 3, 4]⟩]).2

private theorem sound_cramped :
    cramped.Sound ∧ StoreFile.HoldsTable cramped.storeFile.bytes cramped.bat.table := by
  obtain ⟨hnew, -, -, -⟩ := recoverable_newStore default 8 8 50
  have hclear : ClearLayout 8 8 := by
    intro b hb
    have hbits : bitCapacity 8 8 = 8 := by decide
    rw [hbits] at hb
    show 24 ≤ ((90 : UInt32) + 8 * b).toNat
    rw [UInt32.toNat_add, UInt32.toNat_mul]
    simp only [UInt32.reduceToNat]
    omega
  have hok : (newStore default 8 8 50).writeBlocks lengthHash [97] [⟨[97], 0, 4, [1, 2, 3, 4]⟩]
      = (.ok (), cramped) := by decide +kernel
  obtain ⟨start, hw⟩ := writeBlocks_ok hok
  obtain ⟨hr, hholds⟩ := hw.recoverable hnew.toIntact (hnew.toIntact.headerClear hclear)
  exact ⟨hr.sound, hholds⟩

/-- A store that one key fills. -/
private def brimful : DiskStorage :=
  ((newStore default 8 256 50).writeBlocks lengthHash [97]
    [⟨[97], 0, 252, List.replicate 252 1⟩]).2

private theorem sound_brimful :
    brimful.Sound ∧ StoreFile.HoldsTable brimful.storeFile.bytes brimful.bat.table := by
  obtain ⟨hnew, -, -, -⟩ := recoverable_newStore default 8 256 50
  have hl : Layout 8 256 := ⟨by decide, by decide, by unfold FitsLayout; decide⟩
  have hok : (newStore default 8 256 50).writeBlocks lengthHash [97]
      [⟨[97], 0, 252, List.replicate 252 1⟩] = (.ok (), brimful) := by decide +kernel
  obtain ⟨start, hw⟩ := writeBlocks_ok hok
  obtain ⟨hr, hholds⟩ := hw.recoverable hnew.toIntact (hnew.toIntact.headerClear hl.clear)
  exact ⟨hr.sound, hholds⟩

/-- One block of `a` is overwritten in place: a stop after six bytes of data leaves a mixture of
both. Two blocks take another place: a stop within the record leaves the new place with the old
size. A key with the hash of `a` reads what `a` reads. In a store whose map has more bits than it
has blocks, the table of two records meets the block of `a`. In a full store, a stop within the
size of a record leaves a size that runs past the map, and opening the file writes outside of it. A
write of data that stops leaves the stream open, so that no key can be read. -/
theorem mixed_after_stop :
    (twoKeys.Sound ∧ StoreFile.HoldsTable twoKeys.storeFile.bytes twoKeys.bat.table ∧
      (twoKeys.readBlocks lengthHash [97] {0} 4).1 = .ok [⟨[97], 0, 4, [1, 2, 3, 4]⟩] ∧
      (twoKeys.readBlocks lengthHash [99] {0} 4).1 = .ok [⟨[99], 0, 4, [1, 2, 3, 4]⟩]) ∧
    readAfterStop [⟨[97], 0, 4, [5, 6, 7, 8]⟩] 6 [97] {0} = .ok [⟨[97], 0, 4, [5, 6, 3, 4]⟩] ∧
    (readAfterStop [⟨[97], 0, 4, [5, 6, 7, 8]⟩, ⟨[97], 1, 4, [10, 11, 12, 13]⟩] 78 [97] {0}
        = .ok [⟨[97], 0, 4, [5, 6, 7, 8]⟩] ∧
      readAfterStop [⟨[97], 0, 4, [5, 6, 7, 8]⟩, ⟨[97], 1, 4, [10, 11, 12, 13]⟩] 78 [97] {0, 1}
        = .error .numBlocksRead) ∧
    readAfterStop [⟨[97], 0, 4, [5, 6, 7, 8]⟩] 1000 [99] {0} = .ok [⟨[99], 0, 4, [5, 6, 7, 8]⟩] ∧
    (cramped.Sound ∧ StoreFile.HoldsTable cramped.storeFile.bytes cramped.bat.table ∧
      (cramped.readBlocks lengthHash [97] {0} 4).1 = .ok [⟨[97], 0, 4, [1, 2, 3, 4]⟩] ∧
      ((cramped.writeBlocks lengthHash [98, 98] [⟨[98, 98], 0, 2, [9, 9]⟩]).2.readBlocks
        lengthHash [97] {0} 4).1 = .error .numBlocksRead) ∧
    (brimful.Sound ∧ StoreFile.HoldsTable brimful.storeFile.bytes brimful.bat.table ∧
      ((brimful.withBytes (crashed lengthHash brimful [97]
        [⟨[97], 0, 251, List.replicate 251 2⟩] 318)).checkedReopen default 256).isNone = true) ∧
    ((twoKeys.failing 6 []).writeBlocks lengthHash [97] [⟨[97], 0, 4, [5, 6, 7, 8]⟩]).1
        = .error .badWrite ∧
      (((twoKeys.failing 6 []).writeBlocks lengthHash [97]
        [⟨[97], 0, 4, [5, 6, 7, 8]⟩]).2.readBlocks lengthHash [98, 98] {0} 4).1
          = .error .badRead := by
  obtain ⟨hi, -, hfile⟩ := intact_twoKeys
  refine ⟨⟨hi.sound, hfile, ?_, ?_⟩, ?_, ⟨?_, ?_⟩, ?_,
    ⟨sound_cramped.1, sound_cramped.2, ?_, ?_⟩, ⟨sound_brimful.1, sound_brimful.2, ?_⟩, ?_, ?_⟩
  all_goals decide +kernel

end DiskStorage

end RackKey
