import RackKey.Lib.Runs
import RackKey.Storage.ReadBack

set_option autoImplicit false

/-! # Keys on one node

All operations find a key by its hash alone. What a call does to the entry of one hash leaves the
bytes of the entries of the other hashes where they are, so that a key reads what was last written
or deleted under its own hash, through any run of calls on keys with other hashes
(`reads_isolated`). Two keys with one hash share an entry.
-/

namespace RackKey

open Words ByteFile MathUtils

namespace DiskStorage

variable {sha256_32 : Bytes → UInt32} {d m : UInt32} {ds ds' : DiskStorage}

/-- A store of the constructor's layout whose extents are disjoint, marked exactly and inside the
capacity, with its bytes in the file and a stream in order. -/
structure Orderly (d m : UInt32) (ds : DiskStorage) : Prop where
  header : ds.header = initialiseHeader d m
  capacity : ds.freeSpaceMap.blockCapacity = ceilDiv m d
  multiple : (ceilDiv m d).toNat % 8 = 0
  offsets : ∀ b < (ceilDiv m d).toNat, 28 + 62 * (ceilDiv m d).toNat + d.toNat * b < 2 ^ 32
  disjoint : ds.bat.table.Pairwise fun e e' => Disjoint (e.extent ds.header) (e'.extent ds.header)
  inside : ∀ e ∈ ds.bat.table, e.startingDiskBlockNum.toNat
    + (ds.header.getNumDiskBlocks e.numBytes).toNat ≤ ds.freeSpaceMap.blockCapacity.toNat
  marks : ds.MarksExactly
  ready : ds.storeFile.Ready
  backed : ds.Backed

/-- An orderly store in which every entry owns a block. -/
structure Framed (d m : UInt32) (ds : DiskStorage) : Prop extends Orderly d m ds where
  nonempty : ∀ e ∈ ds.bat.table, 0 < (ds.header.getNumDiskBlocks e.numBytes).toNat

theorem Orderly.numBits (ho : ds.Orderly d m) :
    ds.freeSpaceMap.numBits = ds.freeSpaceMap.blockCapacity.toNat :=
  ds.freeSpaceMap.numBits_eq (by rw [ho.capacity]; exact ho.multiple)

theorem Orderly.blockStoreOffset (ho : ds.Orderly d m)
    (hpos : 0 < ds.freeSpaceMap.blockCapacity.toNat) :
    ds.header.blockStoreOffset.toNat = 28 + 62 * ds.freeSpaceMap.blockCapacity.toNat := by
  rw [ho.capacity] at hpos ⊢
  have hfirst := ho.offsets 0 hpos
  rw [ho.header]
  simp only [initialiseHeader, UInt32.toNat_add, UInt32.toNat_mul, UInt32.reduceToNat]
  omega

theorem Orderly.linear (ho : ds.Orderly d m) : ds.Linear := by
  intro b hb
  rw [ho.numBits, ho.capacity] at hb
  have hoff := ho.offsets b.toNat hb
  have hstore := ho.blockStoreOffset (by rw [ho.capacity]; omega)
  rw [ho.capacity] at hstore
  have hd : ds.header.diskBlockSize = d := by rw [ho.header]; rfl
  rw [DiskStorage.getDiskBlockOffset, Header.getDiskBlockOffset, hd, UInt32.toNat_add,
    UInt32.toNat_mul, hstore]
  omega

/-! ## Writes -/

/-- The entries of the other hashes are among the others. -/
theorem mem_others {key : Bytes} {y : BATEntry} (hy : y ∈ ds.bat.table)
    (hk : y.keyHash ≠ sha256_32 key) : y ∈ others ds.bat.table (ds.findEntry sha256_32 key) := by
  cases h : ds.findEntry sha256_32 key with
  | none => exact hy
  | some ie =>
      obtain ⟨i, e⟩ := ie
      rcases List.mem_cons.mp ((table_perm h).mem_iff.mp hy) with rfl | hmem
      · exact absurd (findEntry_eq_some h).2.2.2 hk
      · exact hmem

theorem Orderly.mapped_freed (sha256_32 : Bytes → UInt32) (ho : ds.Orderly d m) (key : Bytes)
    (b : Nat) :
    (ds.freeExisting (ds.findEntry sha256_32 key)).Mapped b ↔
      ∃ y ∈ others ds.bat.table (ds.findEntry sha256_32 key), b ∈ y.extent ds.header :=
  mapped_freeExisting_others sha256_32 (by rw [ho.numBits]; exact ho.inside) ho.disjoint ho.marks
    key b

section Write

variable {key : Bytes} {dataBlocks : List Block} {start : UInt32}

theorem WriteOk.table_perm (hw : WriteOk sha256_32 ds key dataBlocks start ds') :
    ds'.bat.table.Perm
      (newEntry sha256_32 key start (totalNumBytes dataBlocks) (ds.findEntry sha256_32 key)
        :: others ds.bat.table (ds.findEntry sha256_32 key)) := by
  rw [hw.bat]
  cases h : ds.findEntry sha256_32 key with
  | none => exact List.perm_append_singleton _ _
  | some ie =>
      obtain ⟨i, e⟩ := ie
      obtain ⟨hlt, -⟩ := List.getElem?_eq_some_iff.mp (findEntry_eq_some h).2.1
      have hperm := List.getElem_cons_eraseIdx_perm (l := ds.bat.table.set i { e with
        startingDiskBlockNum := start, numBytes := totalNumBytes dataBlocks }) (n := i)
        (by rw [List.length_set]; exact hlt)
      rw [List.getElem_set_self, List.eraseIdx_set_eq] at hperm
      exact hperm.symm

/-- The run of a write is inside the capacity and meets none of the others' extents. -/
theorem Framed.run (hf : ds.Framed d m) (hw : WriteOk sha256_32 ds key dataBlocks start ds') :
    start.toNat + (ds.getNumDiskBlocks (totalNumBytes dataBlocks)).toNat
        ≤ ds.freeSpaceMap.blockCapacity.toNat ∧
      ∀ y ∈ others ds.bat.table (ds.findEntry sha256_32 key),
        Disjoint (Finset.Ico start.toNat
          (start.toNat + (ds.getNumDiskBlocks (totalNumBytes dataBlocks)).toNat))
          (y.extent ds.header) := by
  obtain ⟨-, hin, hfree⟩ := hw.run
  rw [(ds.freeExisting_capacity _).2, hf.numBits] at hin
  refine ⟨hin, fun y hy => ?_⟩
  rw [Finset.disjoint_left]
  intro b hb hby
  exact hfree b hb ((hf.mapped_freed sha256_32 key b).mpr ⟨y, hy, hby⟩)

/-- The entries after a write own disjoint non-empty extents inside the capacity. -/
theorem Framed.extents_write (hf : ds.Framed d m)
    (hw : WriteOk sha256_32 ds key dataBlocks start ds') :
    (ds'.bat.table.Pairwise fun e e' =>
      Disjoint (e.extent ds.header) (e'.extent ds.header)) ∧
    ∀ y ∈ ds'.bat.table, 0 < (ds.header.getNumDiskBlocks y.numBytes).toNat ∧
      y.startingDiskBlockNum.toNat + (ds.header.getNumDiskBlocks y.numBytes).toNat
        ≤ ds.freeSpaceMap.blockCapacity.toNat := by
  obtain ⟨hin, hfree⟩ := hf.run hw
  have hperm := hw.table_perm
  set x := newEntry sha256_32 key start (totalNumBytes dataBlocks) (ds.findEntry sha256_32 key)
    with hx
  have hstart : x.startingDiskBlockNum = start := newEntry_start _ _ _ _
  have hnum : x.numBytes = totalNumBytes dataBlocks := newEntry_numBytes _ _ _ _
  constructor
  · refine (hperm.pairwise_iff fun hd => hd.symm).mpr (List.pairwise_cons.mpr ⟨fun y hy => ?_,
      hf.disjoint.sublist (others_sublist _ _)⟩)
    rw [hx, newEntry_extent]
    exact hfree y hy
  · intro y hy
    rcases List.mem_cons.mp (hperm.mem_iff.mp hy) with rfl | hmem
    · rw [hstart, hnum]
      exact ⟨hw.run.1, hin⟩
    · have hold := (others_sublist _ _).subset hmem
      exact ⟨hf.nonempty y hold, hf.inside y hold⟩

/-- There are no more entries than blocks, so the table that a write leaves ends before the first
disk block. -/
theorem Framed.table_before (hf : ds.Framed d m)
    (hw : WriteOk sha256_32 ds key dataBlocks start ds') :
    Header.size + ds'.bat.bytes.length ≤ ds.header.blockStoreOffset.toNat := by
  obtain ⟨hpair, hentry⟩ := hf.extents_write hw
  have hlen := length_le_of_extents hpair hentry
  have hpos := hw.run.1
  rw [hf.blockStoreOffset (by have := (hf.run hw).1; omega), BAT.bytes_length]
  simp only [Header.size, BATEntry.size]
  omega

/-- **A write keeps a store framed, and changes the contents of its own hash only.** -/
theorem Framed.write (hf : ds.Framed d m) (hw : WriteOk sha256_32 ds key dataBlocks start ds') :
    ds'.Framed d m ∧ ∀ k, ds'.contents k
      = if k = sha256_32 key then some (copyBlocks dataBlocks) else ds.contents k := by
  obtain ⟨hin, hfree⟩ := hf.run hw
  obtain ⟨hpair, hentry⟩ := hf.extents_write hw
  obtain ⟨hbacked, hcontents⟩ := hw.contents_of_separate hf.linear hf.ready hf.backed
    (fun y hy hk => ⟨hf.nonempty y hy, by rw [hf.numBits]; exact hf.inside y hy,
      hfree y (mem_others hy hk)⟩) (hf.table_before hw)
  have hcap : ds'.freeSpaceMap.blockCapacity = ds.freeSpaceMap.blockCapacity := by
    rw [hw.freeSpaceMap, (allocateNew_capacity _ _ _ _).1, (ds.freeExisting_capacity _).1]
  refine ⟨⟨⟨hw.header.trans hf.header, hcap.trans hf.capacity, hf.multiple, hf.offsets, ?_,
    fun y hy => ?_, fun b => ?_, (hw.bytes hf.ready).1, hbacked⟩, fun y hy => ?_⟩, hcontents⟩
  · rw [hw.header]
    exact hpair
  · rw [hw.header, hcap]
    exact (hentry y hy).2
  · rw [hw.freeSpaceMap, mapped_allocateNew (by
      rw [(ds.freeExisting_capacity _).2, hf.numBits]
      exact hin), hf.mapped_freed sha256_32, hw.header]
    have hmem : ∀ y, y ∈ ds'.bat.table ↔ y = newEntry sha256_32 key start
        (totalNumBytes dataBlocks) (ds.findEntry sha256_32 key) ∨
          y ∈ others ds.bat.table (ds.findEntry sha256_32 key) :=
      fun y => hw.table_perm.mem_iff.trans List.mem_cons
    simp only [hmem, or_and_right, exists_or, exists_eq_left]
    rw [newEntry_extent]
    rfl
  · rw [hw.header]
    exact (hentry y hy).1

end Write

/-! ## Calls and runs -/

/-- **A delete keeps a store framed, and the contents of the other hashes.** -/
theorem Framed.delete (hf : ds.Framed d m) {key : Bytes} {i : Nat} {e : BATEntry}
    (h : ds.findEntry sha256_32 key = some (i, e)) :
    let ds' := { ds with
      bat := { numEntries := ds.bat.numEntries - 1, table := ds.bat.table.eraseIdx i }
      freeSpaceMap :=
        ds.freeSpaceMap.freeNBlocks e.startingDiskBlockNum (ds.getNumDiskBlocks e.numBytes) }
    Framed d m ds' ∧ ∀ k, k ≠ sha256_32 key → contents ds' k = ds.contents k := by
  have hsub : ∀ y ∈ ds.bat.table.eraseIdx i, y ∈ ds.bat.table :=
    fun y hy => List.mem_of_mem_eraseIdx hy
  refine ⟨⟨⟨hf.header, hf.capacity, hf.multiple, hf.offsets,
    hf.disjoint.sublist (List.eraseIdx_sublist _ _), fun y hy => hf.inside y (hsub y hy),
    fun b => ?_, hf.ready, fun y hy => hf.backed y (hsub y hy)⟩,
    fun y hy => hf.nonempty y (hsub y hy)⟩, fun k hk => ?_⟩
  · have hfreed := hf.mapped_freed sha256_32 key b
    rw [h] at hfreed
    exact hfreed
  · rw [contents, contents, Keyed.lookup_eraseIdx_ne (findEntry_eq_some h).1 hk]
    rfl

/-- The key of a call. -/
def Mutation.key : Mutation → Bytes
  | .write key _ => key
  | .delete key => key

theorem Framed.mutation (hf : ds.Framed d m) {c : Mutation} (h : c.run sha256_32 ds = some ds') :
    ds'.Framed d m ∧ ∀ k, k ≠ sha256_32 c.key → ds'.contents k = ds.contents k := by
  cases c with
  | write key dataBlocks =>
      obtain ⟨u, hw⟩ := returned_eq_some h
      obtain ⟨start, hok⟩ := writeBlocks_ok hw
      obtain ⟨hf', hcontents⟩ := hf.write hok
      exact ⟨hf', fun k hk => (hcontents k).trans (if_neg hk)⟩
  | delete key =>
      obtain ⟨u, hw⟩ := returned_eq_some h
      obtain ⟨i, e, hfind, rfl⟩ := deleteBlocks_ok hw
      exact hf.delete hfind

/-- **A run of calls on other hashes** leaves the contents of a hash. -/
theorem Framed.run_others {k : UInt32} {ops : List Mutation} (hf : ds.Framed d m)
    (hops : ∀ c ∈ ops, sha256_32 c.key ≠ k)
    (hrun : ops.foldlM (Mutation.run sha256_32) ds = some ds') :
    ds'.Framed d m ∧ ds'.contents k = ds.contents k := by
  refine Runs.foldlM_invariant_of_mem (I := fun s => s.Framed d m ∧ s.contents k = ds.contents k)
    ops ds ds' (fun c hc s s' hs hstep => ?_) ⟨hf, rfl⟩ hrun
  obtain ⟨hf', hcontents⟩ := hs.1.mutation hstep
  exact ⟨hf', (hcontents k (hops c hc).symm).trans hs.2⟩

/-- A new store whose capacity is a multiple of 8 and whose offsets do not wrap is framed. -/
theorem framed_newStore (junk : Junk) (keyLengthMax : UInt32) (hmult : (ceilDiv m d).toNat % 8 = 0)
    (hoff : ∀ b < (ceilDiv m d).toNat, 28 + 62 * (ceilDiv m d).toNat + d.toNat * b < 2 ^ 32) :
    (newStore junk d m keyLengthMax).Framed d m := by
  obtain ⟨hnew, -⟩ := recoverable_newStore junk d m keyLengthMax
  have htable := table_newStore junk d m keyLengthMax
  refine ⟨⟨hnew.header, hnew.capacity, hmult, hoff, ?_, ?_, hnew.sound.marks, hnew.ready,
    backed_newStore junk d m keyLengthMax⟩, ?_⟩
  · rw [htable]
    exact List.Pairwise.nil
  · rw [htable]
    exact fun e he => absurd he List.not_mem_nil
  · rw [htable]
    exact fun e he => absurd he List.not_mem_nil

theorem Framed.sameReads (hf : ds.Framed d m) (hf' : ds'.Framed d m) {key : Bytes}
    (h : ds'.contents (sha256_32 key) = ds.contents (sha256_32 key)) :
    SameReads sha256_32 ds ds' key :=
  sameReads_of_contents hf.ready hf.backed hf'.ready hf'.backed h

/-- **Keys with different hashes are isolated**: a call on one key leaves the reads of the other,
and what the call has left for its own key is read through any run of calls on other hashes. -/
theorem reads_isolated (hf : ds.Framed d m) {c : Mutation} {key : Bytes}
    (hne : sha256_32 c.key ≠ sha256_32 key) (hrun : c.run sha256_32 ds = some ds') :
    (∀ S n, (ds'.readBlocks sha256_32 key S n).1 = (ds.readBlocks sha256_32 key S n).1) ∧
    ∀ (ops : List Mutation) (ds'' : DiskStorage), (∀ c' ∈ ops, sha256_32 c'.key ≠ sha256_32 c.key) →
      ops.foldlM (Mutation.run sha256_32) ds' = some ds'' →
      (∀ S n, (ds''.readBlocks sha256_32 c.key S n).1 = (ds'.readBlocks sha256_32 c.key S n).1) ∧
      (∀ dataBlocks, c = .write c.key dataBlocks → ∀ S n,
        (ds''.readBlocks sha256_32 c.key S n).1 = selectBlocks c.key S n (copyBlocks dataBlocks)) ∧
      (c = .delete c.key → (ds.bat.table.map BATEntry.keyHash).Nodup → ∀ S n,
        (ds''.readBlocks sha256_32 c.key S n).1 = .error (.noEntryForRead c.key)) := by
  obtain ⟨hf', hcontents⟩ := hf.mutation hrun
  refine ⟨(hf.sameReads hf' (hcontents _ hne.symm)).1, fun ops ds'' hops hrest => ?_⟩
  obtain ⟨hf'', heq⟩ := hf'.run_others hops hrest
  have hsame := (hf'.sameReads hf'' heq).1
  refine ⟨hsame, fun dataBlocks hc S n => ?_, fun hc hn S n => ?_⟩
  · obtain ⟨u, hw⟩ : ∃ u, ds.writeBlocks sha256_32 c.key dataBlocks = (.ok u, ds') := by
      rw [hc] at hrun
      exact returned_eq_some hrun
    obtain ⟨start, hok⟩ := writeBlocks_ok hw
    obtain ⟨f, -, -, hread⟩ := readBlocks_eq sha256_32 hf'.ready hf'.backed c.key S n
    rw [hsame, hread, (hf.write hok).2, if_pos rfl]
  · obtain ⟨u, hw⟩ : ∃ u, ds.deleteBlocks sha256_32 c.key = (.ok u, ds') := by
      rw [hc] at hrun
      exact returned_eq_some hrun
    obtain ⟨i, e, hfind, rfl⟩ := deleteBlocks_ok hw
    obtain ⟨f, -, -, hread⟩ := readBlocks_eq sha256_32 hf'.ready hf'.backed c.key S n
    rw [hsame, hread, (contents_deleteBlocks hn hfind _ _).2, if_pos rfl]

theorem reads_isolated_sample :
    ∃ ds ds', (Mutation.write [98] [⟨[98], 0, 4, [1, 2, 3, 4]⟩]).run headHash
        (newStore default 8 64 1) = some ds ∧
      (Mutation.write [97] [⟨[97], 0, 4, [5, 6, 7, 8]⟩]).run headHash ds = some ds' ∧
      ∀ S n, (ds'.readBlocks headHash [98] S n).1 = (ds.readBlocks headHash [98] S n).1 := by
  have hall : (((Mutation.write [98] [⟨[98], 0, 4, [1, 2, 3, 4]⟩]).run headHash
      (newStore default 8 64 1)).bind fun ds =>
        (Mutation.write [97] [⟨[97], 0, 4, [5, 6, 7, 8]⟩]).run headHash ds).isSome := by
    decide +kernel
  obtain ⟨ds', hds'⟩ := Option.isSome_iff_exists.mp hall
  obtain ⟨ds, hds, hrun⟩ := Option.bind_eq_some_iff.mp hds'
  have hnew := framed_newStore default 1 (d := 8) (m := 64) (by decide) (by decide)
  exact ⟨ds, ds', hds, hrun, (reads_isolated (hnew.mutation hds).1 (by decide) hrun).1⟩

/-! ## Keys with one hash -/

/-- Two different keys of the node's key length, of which one is stored, are isolated in every
orderly store. -/
def KeysIsolated (sha256_32 : Bytes → UInt32) : Prop :=
  ∀ (d m : UInt32) (ds ds' : DiskStorage) (c : Mutation) (key : Bytes), ds.Orderly d m →
    ds.findEntry sha256_32 key ≠ none → c.key ≠ key →
    c.key.length = ds.keyLengthMax.toNat → key.length = ds.keyLengthMax.toNat →
    c.run sha256_32 ds = some ds' →
    ∀ S n, (ds'.readBlocks sha256_32 key S n).1 = (ds.readBlocks sha256_32 key S n).1

/-- It takes finitely many blocks to see that a map marks exactly the extents. -/
theorem marksExactly_of_lt
    (hin : ∀ e ∈ ds.bat.table, e.startingDiskBlockNum.toNat
      + (ds.header.getNumDiskBlocks e.numBytes).toNat ≤ ds.freeSpaceMap.numBits)
    (h : ∀ b < ds.freeSpaceMap.numBits,
      ds.freeSpaceMap.Mapped b ↔ ∃ e ∈ ds.bat.table, b ∈ e.extent ds.header) :
    ds.MarksExactly := by
  intro b
  by_cases hb : b < ds.freeSpaceMap.numBits
  · exact h b hb
  · constructor
    · exact fun hmapped => absurd hmapped.lt hb
    · rintro ⟨e, he, hbe⟩
      have hend := hin e he
      have := (Finset.mem_Ico.mp hbe).2
      omega

private def shared (_ : Bytes) : UInt32 := 7

/-- Eight entries that own no block behind one that does. -/
private def crowded : DiskStorage :=
  let ds := ((newStore default 8 64 1).writeBlocks headHash [98] [⟨[98], 0, 4, [1, 2, 3, 4]⟩]).2
  { ds with
    bat := ⟨9, ds.bat.table ++ (List.range 8).map fun i =>
      ⟨KeyField.ofKey [], UInt32.ofNat (1000 + i), 0, 0⟩⟩ }

private theorem orderly_crowded : crowded.Orderly 8 64 := by
  have hin : ∀ e ∈ crowded.bat.table, e.startingDiskBlockNum.toNat
      + (crowded.header.getNumDiskBlocks e.numBytes).toNat ≤ 8 := by decide +kernel
  have hbits : crowded.freeSpaceMap.numBits = 8 := by decide +kernel
  have hcap : crowded.freeSpaceMap.blockCapacity.toNat = 8 := by decide +kernel
  refine ⟨by decide +kernel, by decide +kernel, by decide, by decide, by decide +kernel, ?_,
    marksExactly_of_lt ?_ ?_, ⟨by decide +kernel, by decide +kernel⟩, ?_⟩
  · rw [hcap]
    exact hin
  · rw [hbits]
    exact hin
  · rw [hbits]
    decide +kernel
  · unfold Backed
    decide +kernel

/-- **Different keys are not isolated**: two keys with one hash share an entry; and entries that own
no block let the table grow over the first disk block. -/
theorem keys_not_isolated : ¬ KeysIsolated shared ∧ ¬ KeysIsolated headHash := by
  constructor
  · intro h
    have hall : (((Mutation.write [98] [⟨[98], 0, 4, [1, 2, 3, 4]⟩]).run shared
        (newStore default 8 64 1)).bind fun ds =>
          ((Mutation.write [97] [⟨[97], 0, 4, [5, 6, 7, 8]⟩]).run shared ds).map fun ds' =>
            ((ds.findEntry shared [98]).isSome, ds.keyLengthMax,
              (ds.readBlocks shared [98] {0} 4).1, (ds'.readBlocks shared [98] {0} 4).1))
          = some (true, 1, .ok [⟨[98], 0, 4, [1, 2, 3, 4]⟩], .ok [⟨[98], 0, 4, [5, 6, 7, 8]⟩]) := by
      decide +kernel
    obtain ⟨ds, hds, hrest⟩ := Option.bind_eq_some_iff.mp hall
    obtain ⟨ds', hrun, hvalues⟩ := Option.map_eq_some_iff.mp hrest
    simp only [Prod.mk.injEq] at hvalues
    obtain ⟨hstored, hlen, hbefore, hafter⟩ := hvalues
    have hnew := framed_newStore default 1 (d := 8) (m := 64) (by decide) (by decide)
    have heq := h 8 64 ds ds' _ [98] (hnew.mutation hds).1.toOrderly
      (Option.isSome_iff_ne_none.mp hstored) (by decide)
      (by rw [hlen]; rfl) (by rw [hlen]; rfl) hrun {0} 4
    rw [hbefore, hafter] at heq
    exact absurd heq (by decide)
  · intro h
    have hall : ((Mutation.write [97] [⟨[97], 0, 4, [5, 6, 7, 8]⟩]).run headHash crowded).map
        (fun ds' => (ds'.readBlocks headHash [98] {0} 4).1)
          = some (.ok [⟨[98], 0, 4, [0, 0, 0, 0]⟩]) := by decide +kernel
    have hbefore : (crowded.readBlocks headHash [98] {0} 4).1
        = .ok [⟨[98], 0, 4, [1, 2, 3, 4]⟩] := by decide +kernel
    obtain ⟨ds', hrun, hafter⟩ := Option.map_eq_some_iff.mp hall
    have heq := h 8 64 crowded ds' _ [98] orderly_crowded (by decide +kernel) (by decide)
      (by decide +kernel) (by decide +kernel) hrun {0} 4
    rw [hbefore, hafter] at heq
    exact absurd heq (by decide)

end DiskStorage

end RackKey
