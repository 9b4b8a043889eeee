import RackKey.Storage.WellFormed

set_option autoImplicit false

/-! # Writes that throw

`writeBlocks` frees the blocks of an existing entry before it looks for room, and the later
throw points undo this with `restoreFreedBlocks`. The first of them, when no run of free blocks
is found, does not: `writeBlocks_rollback_iff` says exactly when a write that throws leaves the
table and the map as they were, and `writeBlocks_rollback_full` is a store where it does not.
-/

namespace RackKey

open Words MathUtils

namespace DiskStorage

variable {sha256_32 : Bytes → UInt32}

/-- The outcomes of a `writeBlocks` that throws: there is nothing to write, there is no room once
the old blocks are free, or a later throw gives the old blocks back. -/
theorem writeBlocks_error {ds ds' : DiskStorage} {key : Bytes} {dataBlocks : List Block}
    {err : StorageError} (h : ds.writeBlocks sha256_32 key dataBlocks = (.error err, ds')) :
    (dataBlocks = [] ∧ ds' = ds) ∨
      (dataBlocks ≠ [] ∧ (ds.freeExisting (ds.findEntry sha256_32 key)).findNFreeBlocks
          (ds.getNumDiskBlocks (totalNumBytes dataBlocks)) = none ∧
        ds' = { ds with freeSpaceMap := ds.freeExisting (ds.findEntry sha256_32 key) }) ∨
      ∃ f, (ds.storeFile.Ready → f = ds.storeFile) ∧
        ds' = { ds with
          freeSpaceMap := ds.restoreFreedBlocks (ds.freeExisting (ds.findEntry sha256_32 key))
            (ds.findEntry sha256_32 key)
          storeFile := f } := by
  unfold writeBlocks at h
  by_cases h0 : dataBlocks.length = 0
  · rw [if_pos h0] at h
    exact Or.inl ⟨List.eq_nil_of_length_eq_zero h0, (Prod.mk.inj h).2.symm⟩
  rw [if_neg h0] at h
  have hne : dataBlocks ≠ [] := fun hnil => h0 (by rw [hnil]; rfl)
  dsimp only at h
  cases hf : (ds.freeExisting (ds.findEntry sha256_32 key)).findNFreeBlocks
      (ds.getNumDiskBlocks (totalNumBytes dataBlocks)) with
  | none =>
      rw [hf] at h
      exact Or.inr (Or.inl ⟨hne, rfl, (Prod.mk.inj h).2.symm⟩)
  | some start =>
      rw [hf] at h
      dsimp only at h
      split at h
      · -- the copied bytes are not as many as announced: the stream is not touched
        exact Or.inr (Or.inr ⟨_, fun _ => rfl, (Prod.mk.inj h).2.symm⟩)
      · split at h
        · -- the stream fails, which one in order does not
          rename_i hext
          refine Or.inr (Or.inr ⟨_, fun hready => ?_, (Prod.mk.inj h).2.symm⟩)
          rw [StoreFile.writeExtent_ready hready] at hext
          cases hext
        · exact absurd (Prod.mk.inj h).1 (by simp)

theorem writeBlocks_error_bat {ds ds' : DiskStorage} {key : Bytes} {dataBlocks : List Block}
    {err : StorageError} (h : ds.writeBlocks sha256_32 key dataBlocks = (.error err, ds')) :
    ds'.bat = ds.bat := by
  rcases writeBlocks_error h with ⟨-, rfl⟩ | ⟨-, -, rfl⟩ | ⟨f, -, rfl⟩ <;> rfl

/-- With a stream in order, a write that throws has changed the free-space map at most. -/
theorem writeBlocks_error_ready {ds ds' : DiskStorage} (hready : ds.storeFile.Ready)
    {key : Bytes} {dataBlocks : List Block} {err : StorageError}
    (h : ds.writeBlocks sha256_32 key dataBlocks = (.error err, ds')) :
    ∃ fsm, ds' = { ds with freeSpaceMap := fsm } := by
  rcases writeBlocks_error h with ⟨-, rfl⟩ | ⟨-, -, rfl⟩ | ⟨f, hf, rfl⟩
  · exact ⟨_, rfl⟩
  · exact ⟨_, rfl⟩
  · obtain rfl := hf hready
    exact ⟨_, rfl⟩

/-- The extent of an entry lies inside the bitmap when all its blocks are mapped. -/
theorem MarksExactly.inside {ds : DiskStorage} (hm : ds.MarksExactly) {e : BATEntry}
    (he : e ∈ ds.bat.table) (hN : 0 < (ds.getNumDiskBlocks e.numBytes).toNat) :
    e.startingDiskBlockNum.toNat + (ds.getNumDiskBlocks e.numBytes).toNat
      ≤ ds.freeSpaceMap.numBits := by
  have hlast : e.startingDiskBlockNum.toNat + (ds.getNumDiskBlocks e.numBytes).toNat - 1
      ∈ e.extent ds.header := by
    rw [BATEntry.extent, Finset.mem_Ico]
    unfold getNumDiskBlocks at hN ⊢
    omega
  have hlt := ((hm _).mpr ⟨e, he, hlast⟩).lt
  omega

/-- **What was freed is restored**: allocating the old extent again gives the map as it was. -/
theorem restoreFreedBlocks_freeExisting {ds : DiskStorage} (hm : ds.MarksExactly) (key : Bytes) :
    ds.restoreFreedBlocks (ds.freeExisting (ds.findEntry sha256_32 key))
      (ds.findEntry sha256_32 key) = ds.freeSpaceMap := by
  cases h : ds.findEntry sha256_32 key with
  | none => rfl
  | some ie =>
      obtain ⟨i, e⟩ := ie
      obtain ⟨-, -, he, -⟩ := findEntry_eq_some h
      show ((ds.freeSpaceMap.freeNBlocks e.startingDiskBlockNum
        (ds.getNumDiskBlocks e.numBytes)).allocateNBlocks e.startingDiskBlockNum
          (ds.getNumDiskBlocks e.numBytes)).2 = ds.freeSpaceMap
      rcases Nat.eq_zero_or_pos (ds.getNumDiskBlocks e.numBytes).toNat with h0 | hpos
      · rw [FreeSpaceMap.freeNBlocks_zero _ _ h0, FreeSpaceMap.allocateNBlocks_zero _ _ h0]
      · exact FreeSpaceMap.allocateNBlocks_freeNBlocks (hm.inside he hpos)
          fun b hb => (hm b).mpr ⟨e, he, hb⟩

/-- Freeing the extent of an entry changes the map, unless the extent is empty. -/
theorem freeExisting_eq_iff {ds : DiskStorage} (hm : ds.MarksExactly) (i : Nat) {e : BATEntry}
    (he : e ∈ ds.bat.table) :
    ds.freeExisting (some (i, e)) = ds.freeSpaceMap ↔
      (ds.getNumDiskBlocks e.numBytes).toNat = 0 := by
  constructor
  · intro hsame
    by_contra h0
    have hpos := Nat.pos_of_ne_zero h0
    -- the first block of the extent was mapped and is free now
    have hfirst : e.startingDiskBlockNum.toNat ∈ e.extent ds.header := by
      rw [BATEntry.extent, Finset.mem_Ico]
      unfold getNumDiskBlocks at hpos
      omega
    have hmapped : (ds.freeExisting (some (i, e))).Mapped e.startingDiskBlockNum.toNat := by
      rw [hsame]
      exact (hm _).mpr ⟨e, he, hfirst⟩
    exact ((FreeSpaceMap.mapped_freeNBlocks (hm.inside he hpos) _).mp hmapped).1 hfirst
  · exact FreeSpaceMap.freeNBlocks_zero _ _

/-- There are `N ≥ 1` blocks in a row, each of them free or among those of the entry `e`. -/
def HasRoom (ds : DiskStorage) (e : BATEntry) (N : Nat) : Prop :=
  0 < N ∧ ∃ s, s + N ≤ ds.freeSpaceMap.numBits ∧
    ∀ b ∈ Finset.Ico s (s + N), b ∈ e.extent ds.header ∨ ¬ ds.freeSpaceMap.Mapped b

/-- After the old extent is freed, room is found exactly when there was room counting it. -/
theorem findNFreeBlocks_freeExisting {ds : DiskStorage} (hm : ds.MarksExactly) (i : Nat)
    {e : BATEntry} (he : e ∈ ds.bat.table) (hpos : 0 < (ds.getNumDiskBlocks e.numBytes).toNat)
    (N : UInt32) :
    (ds.freeExisting (some (i, e))).findNFreeBlocks N ≠ none ↔ ds.HasRoom e N.toNat := by
  have hfree : ∀ b, (ds.freeExisting (some (i, e))).Mapped b ↔
      b ∉ e.extent ds.header ∧ ds.freeSpaceMap.Mapped b :=
    FreeSpaceMap.mapped_freeNBlocks (hm.inside he hpos)
  have hbits := (ds.freeExisting_capacity (some (i, e))).2
  rcases Nat.eq_zero_or_pos N.toNat with h0 | hN
  · rw [FreeSpaceMap.findNFreeBlocks_zero _ h0, HasRoom, h0]
    simp
  · rw [ne_eq, FreeSpaceMap.findNFreeBlocks_eq_none_iff hN, not_forall_not]
    unfold HasRoom FreeSpaceMap.FreeRun
    rw [hbits]
    constructor
    · rintro ⟨s, hs, hrun⟩
      refine ⟨hN, s, hs, fun b hb => ?_⟩
      have := hrun b hb
      rw [hfree] at this
      tauto
    · rintro ⟨-, s, hs, hrun⟩
      refine ⟨s, hs, fun b hb => ?_⟩
      rw [hfree]
      have := hrun b hb
      tauto

/-- The throw that frees: there is no room for the list, the key's own blocks counted. -/
theorem writeBlocks_full {ds : DiskStorage} {key : Bytes} {dataBlocks : List Block}
    (hne : dataBlocks ≠ []) {N : UInt32} (hN : ds.getNumDiskBlocks (totalNumBytes dataBlocks) = N)
    (hnone : (ds.freeExisting (ds.findEntry sha256_32 key)).findNFreeBlocks N = none) :
    ds.writeBlocks sha256_32 key dataBlocks
      = (.error (.noContiguousSection N),
          { ds with freeSpaceMap := ds.freeExisting (ds.findEntry sha256_32 key) }) := by
  unfold writeBlocks
  rw [if_neg (fun hl => hne (List.eq_nil_of_length_eq_zero hl))]
  simp only [hN, hnone]

/-- **When a write that throws leaves the state as it was**: for a key that owns blocks and a
non-empty list, exactly when there is room for the list, the key's own blocks counted. -/
theorem writeBlocks_rollback_iff {ds : DiskStorage} (hm : ds.MarksExactly) (key : Bytes)
    (dataBlocks : List Block) :
    (∀ err ds', ds.writeBlocks sha256_32 key dataBlocks = (.error err, ds') →
      ds'.bat = ds.bat ∧ ds'.freeSpaceMap = ds.freeSpaceMap) ↔
    (dataBlocks = [] ∨ ∀ i e, ds.findEntry sha256_32 key = some (i, e) →
      (ds.getNumDiskBlocks e.numBytes).toNat = 0 ∨
        ds.HasRoom e (ds.getNumDiskBlocks (totalNumBytes dataBlocks)).toNat) := by
  constructor
  · intro h
    by_cases h0 : dataBlocks = []
    · exact Or.inl h0
    refine Or.inr fun i e he => ?_
    have hmem := (findEntry_eq_some he).2.2.1
    rcases Nat.eq_zero_or_pos (ds.getNumDiskBlocks e.numBytes).toNat with hz | hpos
    · exact Or.inl hz
    refine Or.inr ((findNFreeBlocks_freeExisting hm i hmem hpos _).mp fun hnone => ?_)
    rw [← he] at hnone
    have hsame := (h _ _ (writeBlocks_full h0 rfl hnone)).2
    dsimp only at hsame
    rw [he, freeExisting_eq_iff hm i hmem] at hsame
    omega
  · intro h err ds' hthrow
    refine ⟨writeBlocks_error_bat hthrow, ?_⟩
    rcases writeBlocks_error hthrow with ⟨-, rfl⟩ | ⟨hne, hnone, rfl⟩ | ⟨f, -, rfl⟩
    · rfl
    · -- no room was found, so there is no old entry that room would have been counted for
      rcases h with h0 | h
      · exact absurd h0 hne
      cases he : ds.findEntry sha256_32 key with
      | none => rfl
      | some ie =>
          obtain ⟨i, e⟩ := ie
          have hmem := (findEntry_eq_some he).2.2.1
          rw [he] at hnone
          apply (freeExisting_eq_iff hm i hmem).mpr
          rcases h i e he with hz | hroom
          · exact hz
          · by_contra h0
            exact (findNFreeBlocks_freeExisting hm i hmem (Nat.pos_of_ne_zero h0) _).mpr hroom hnone
    · exact restoreFreedBlocks_freeExisting hm key

/-- A store of eight blocks, the first of them owned by the key `a`, the others by `b`. -/
private def fullOps : List Op :=
  [.mutate (.write [97] [⟨[97], 0, 4, [1, 2, 3, 4]⟩]),
    .mutate (.write [98] [⟨[98], 0, 52, List.replicate 52 5⟩])]

private def fullStore : DiskStorage :=
  (fullOps.foldlM (Op.run headHash 8 64) (newStore default 8 64 50)).getD
    (newStore default 8 64 50)

private theorem sound_fullStore : fullStore.Sound := by
  have hrun : fullOps.foldlM (Op.run headHash 8 64) (newStore default 8 64 50)
      = some fullStore := by decide +kernel
  exact (recoverable_run layout_sample.clear _
    (recoverable_newStore default 8 64 50).1 hrun).sound

/-- The full store: a value of `a` that does not fit throws, and the block of `a`, which the
table still gives to `a`, is free. -/
theorem writeBlocks_rollback_full :
    fullStore.MarksExactly ∧
      fullStore.bat.table.Pairwise
        (fun e e' => Disjoint (e.extent fullStore.header) (e'.extent fullStore.header)) ∧
      (fullStore.writeBlocks headHash [97] [⟨[97], 0, 12, List.replicate 12 7⟩]).1
        = .error (.noContiguousSection 2) ∧
      fullStore.freeSpaceMap.isMapped 0 = some true ∧
      (fullStore.writeBlocks headHash [97]
        [⟨[97], 0, 12, List.replicate 12 7⟩]).2.freeSpaceMap.isMapped 0 = some false ∧
      ((fullStore.writeBlocks headHash [97]
        [⟨[97], 0, 12, List.replicate 12 7⟩]).2.findEntry headHash [97]).map
          (fun ie => ie.2.startingDiskBlockNum) = some 0 := by
  refine ⟨sound_fullStore.marks, sound_fullStore.table.pairwise, ?_, ?_, ?_, ?_⟩
  · decide +kernel
  · decide +kernel
  · decide +kernel
  · decide +kernel

/-- A value of `a` that fits but whose data is shorter than it says throws and is rolled back. -/
theorem writeBlocks_rollback_badCopy :
    (fullStore.writeBlocks headHash [97] [⟨[97], 0, 4, [9]⟩]).1 = .error .badCopy ∧
      (fullStore.writeBlocks headHash [97] [⟨[97], 0, 4, [9]⟩]).2.bat = fullStore.bat ∧
      (fullStore.writeBlocks headHash [97] [⟨[97], 0, 4, [9]⟩]).2.freeSpaceMap
        = fullStore.freeSpaceMap := by
  have hthrow : (fullStore.writeBlocks headHash [97] [⟨[97], 0, 4, [9]⟩]).1 = .error .badCopy := by
    decide +kernel
  refine ⟨hthrow, (writeBlocks_rollback_iff sound_fullStore.marks [97] _).mpr
    (Or.inr fun i e he => Or.inr ?_) .badCopy _ (Prod.ext hthrow rfl)⟩
  have hN : (fullStore.getNumDiskBlocks (totalNumBytes [⟨[97], 0, 4, [9]⟩])).toNat = 1 := by
    decide +kernel
  have hentry : fullStore.findEntry headHash [97]
      = some (0, ⟨KeyField.ofKey [97], 97, 0, 8⟩) := by decide +kernel
  rw [hentry, Option.some.injEq, Prod.mk.injEq] at he
  obtain ⟨rfl, rfl⟩ := he
  rw [hN]
  exact ⟨by omega, 0, by decide +kernel, fun b hb => Or.inl (by
    rw [Finset.mem_Ico] at hb
    obtain rfl : b = 0 := by omega
    decide +kernel)⟩

end DiskStorage

end RackKey
