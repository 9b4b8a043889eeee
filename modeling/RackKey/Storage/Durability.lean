import RackKey.Storage.WellFormed

set_option autoImplicit false

/-! # What survives a restart

`writeBlocks` writes the table to the file and `deleteBlocks` does not. So the table of the
file is the table in memory after a write (`Ahead.write`), and has more entries after a delete
(`Ahead.delete`); re-opening gives back the state in memory exactly after a write
(`reopen_after_run_iff`).
-/

namespace RackKey

open Words MathUtils

namespace DiskStorage

variable {sha256_32 : Bytes → UInt32}

/-- The file of the store holds the table `t`, which is in order and has no fewer entries than
the table in memory. -/
structure Ahead (ds : DiskStorage) (t : List BATEntry) : Prop where
  holds : StoreFile.HoldsTable ds.storeFile.bytes t
  table : TableOk ds.header ds.freeSpaceMap.numBits t
  length_le : ds.bat.table.length ≤ t.length

theorem Ahead.write {d m : UInt32} {ds ds' : DiskStorage} (hr : ds.Recoverable d m)
    (hclear : ClearLayout d m) {key : Bytes} {dataBlocks : List Block}
    (h : Mutation.run sha256_32 ds (.write key dataBlocks) = some ds') :
    ds'.Ahead ds'.bat.table := by
  obtain ⟨u, hw⟩ := returned_eq_some h
  obtain ⟨start, hok⟩ := writeBlocks_ok hw
  obtain ⟨hr', hholds⟩ := hok.recoverable hr.toIntact (hr.headerClear hclear)
  exact ⟨hholds, hr'.sound.table, Nat.le_refl _⟩

/-- A delete leaves the table of the file, and takes an entry out of memory. -/
theorem Ahead.delete {ds ds' : DiskStorage} {t : List BATEntry} (ha : ds.Ahead t) {key : Bytes}
    (h : Mutation.run sha256_32 ds (.delete key) = some ds') :
    ds'.Ahead t ∧ ds'.bat.table.length < t.length := by
  obtain ⟨u, hw⟩ := returned_eq_some h
  obtain ⟨i, e, hf, rfl⟩ := deleteBlocks_ok hw
  obtain ⟨hlt, -⟩ := List.getElem?_eq_some_iff.mp (findEntry_eq_some hf).2.1
  have hlen := ha.length_le
  have herase := List.length_eraseIdx_of_lt hlt
  have hbits := (ds.freeExisting_capacity (some (i, e))).2
  have hshorter : (ds.bat.table.eraseIdx i).length < t.length := by omega
  refine ⟨⟨ha.holds, ?_, Nat.le_of_lt hshorter⟩, hshorter⟩
  show TableOk ds.header (ds.freeExisting (some (i, e))).numBits t
  rw [hbits]
  exact ha.table

theorem ahead_mutation {d m : UInt32} {ds ds' : DiskStorage} (hr : ds.Recoverable d m)
    (hclear : ClearLayout d m) (ha : ∃ t, ds.Ahead t) {c : Mutation}
    (h : c.run sha256_32 ds = some ds') : ∃ t, ds'.Ahead t := by
  cases c with
  | write key dataBlocks => exact ⟨_, Ahead.write hr hclear h⟩
  | delete key =>
      obtain ⟨t, ht⟩ := ha
      exact ⟨t, (ht.delete h).1⟩

/-- Every run keeps the file ahead of memory. -/
theorem ahead_run {d m : UInt32} (hclear : ClearLayout d m) (ops : List Mutation)
    {ds ds' : DiskStorage} (hr : ds.Recoverable d m) (ha : ∃ t, ds.Ahead t)
    (hrun : ops.foldlM (Mutation.run sha256_32) ds = some ds') :
    ds'.Recoverable d m ∧ ∃ t, ds'.Ahead t :=
  Runs.foldlM_invariant (I := fun s => s.Recoverable d m ∧ ∃ t, s.Ahead t)
    (fun _ _ _ hs h => ⟨(recoverable_mutation hs.1 (hs.1.headerClear hclear) h).1,
      ahead_mutation hs.1 hclear hs.2 h⟩)
    ops ds ds' ⟨hr, ha⟩ hrun

/-- A re-open gives the table of the file, and the map in memory if the tables agree. -/
theorem Ahead.reopen {d m : UInt32} {ds : DiskStorage} (hr : ds.Recoverable d m)
    {t : List BATEntry} (ha : ds.Ahead t) (junk : Junk) :
    ∃ ds', DiskStorage.reopen junk d m ds = (.ok (), ds') ∧ ds'.bat.table = t ∧
      (t = ds.bat.table → ds'.bat = ds.bat ∧ ds'.freeSpaceMap = ds.freeSpaceMap) := by
  obtain ⟨ds', hopen, hr', htable, hheader, -, hcap, -, -⟩ :=
    reopen_spec hr.toIntact junk ha.holds ha.table
  refine ⟨ds', hopen, htable, fun heq => ⟨?_, ?_⟩⟩
  · have hnum : ds'.bat.numEntries = ds.bat.numEntries := by
      apply UInt32.toNat_inj.mp
      rw [hr'.sound.numEntries, hr.sound.numEntries, htable, heq]
    cases hb : ds.bat
    cases hb' : ds'.bat
    simp_all
  · refine FreeSpaceMap.ext_mapped hcap fun b => ?_
    rw [hr'.sound.marks b, hr.sound.marks b, htable, heq, hheader]

/-- **When a re-open gives back the state in memory**: after a run of writes and deletes,
exactly when the last call was a write. -/
theorem reopen_after_run_iff {d m : UInt32} (hclear : ClearLayout d m) {ds ds' : DiskStorage}
    (hr : ds.Recoverable d m) (hheld : StoreFile.HoldsTable ds.storeFile.bytes ds.bat.table)
    {ops : List Mutation} {c : Mutation}
    (hrun : (ops ++ [c]).foldlM (Mutation.run sha256_32) ds = some ds') (junk : Junk) :
    (∃ ds'', reopen junk d m ds' = (.ok (), ds'') ∧ ds''.bat = ds'.bat ∧
      ds''.freeSpaceMap = ds'.freeSpaceMap) ↔ ∃ key dataBlocks, c = .write key dataBlocks := by
  obtain ⟨ds₁, hrun₁, hstep⟩ := Runs.foldlM_concat hrun
  have hstart : ∃ t, ds.Ahead t := ⟨_, hheld, hr.sound.table, Nat.le_refl _⟩
  obtain ⟨hr₁, t₁, ha₁⟩ := ahead_run hclear ops hr hstart hrun₁
  have hr' := (recoverable_mutation hr₁ (hr₁.headerClear hclear) hstep).1
  cases c with
  | write key dataBlocks =>
      obtain ⟨ds'', hopen, -, hsame⟩ := (Ahead.write hr₁ hclear hstep).reopen hr' junk
      exact ⟨fun _ => ⟨key, dataBlocks, rfl⟩, fun _ => ⟨ds'', hopen, hsame rfl⟩⟩
  | delete key =>
      obtain ⟨ha', hlt⟩ := ha₁.delete hstep
      obtain ⟨ds'', hopen, htable, -⟩ := ha'.reopen hr' junk
      constructor
      · rintro ⟨ds₂, hopen₂, hbat, -⟩
        -- the deleted entry is back
        rw [hopen] at hopen₂
        obtain rfl := (Prod.mk.inj hopen₂).2
        rw [← hbat, htable] at hlt
        exact absurd hlt (Nat.lt_irrefl _)
      · rintro ⟨_, _, h⟩
        cases h

private def constHash (_ : Bytes) : UInt32 := 7

/-- A write of the key `a`, and its delete. -/
private def writeDelete : List Mutation :=
  [.write [97] [⟨[97], 0, 4, [1, 2, 3, 4]⟩], .delete [97]]

private def writeAgain : Mutation := .write [98] [⟨[98], 0, 9, List.replicate 9 5⟩]

theorem reopen_after_write :
    ∃ ds ds'', (writeDelete ++ [writeAgain]).foldlM (Mutation.run constHash)
        (newStore default 8 64 50) = some ds ∧
      ds.reopen default 8 64 = (.ok (), ds'') ∧ ds''.bat = ds.bat ∧
      ds''.freeSpaceMap = ds.freeSpaceMap := by
  have hsome : ((writeDelete ++ [writeAgain]).foldlM (Mutation.run constHash)
      (newStore default 8 64 50)).isSome = true := by decide +kernel
  obtain ⟨ds, hrun⟩ := Option.isSome_iff_exists.mp hsome
  obtain ⟨hnew, hbat, -, hheld⟩ := recoverable_newStore default 8 64 50
  obtain ⟨ds'', hopen, hsame⟩ := (reopen_after_run_iff layout_sample.clear hnew
    (by rw [hbat]; exact hheld) hrun default).mpr ⟨_, _, rfl⟩
  exact ⟨ds, ds'', hrun, hopen, hsame⟩

/-- A key that was written and deleted is back after a restart. -/
theorem reopen_after_delete :
    (writeDelete.foldlM (Mutation.run constHash) (newStore default 8 64 50)).map
        (fun ds => (ds.bat.numEntries, (ds.reopen default 8 64).2.bat.numEntries,
          (ds.findEntry constHash [97]).isSome,
          ((ds.reopen default 8 64).2.findEntry constHash [97]).isSome))
      = some (0, 1, false, true) := by
  decide +kernel

end DiskStorage

end RackKey
