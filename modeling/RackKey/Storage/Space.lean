import RackKey.Storage.Usage
import RackKey.Storage.WriteBehind

set_option autoImplicit false

/-! # Space on a node

When a write succeeds, and that no space is ever lost. A write of a key may use the disk blocks
that are free and those that the key has (`Usable`); it returns exactly when there are enough of
them in a row (`writeBlocks_returns_iff`). The free disk blocks and those of the entries are all
disk blocks, after any calls and restarts (`space_conserved`), so that a store whose keys are all
deleted takes as much as a new one.
-/

namespace RackKey

open Words MathUtils

namespace DiskStorage

variable (sha256_32 : Bytes → UInt32)

/-- `N ≥ 1` disk blocks in a row, each of them free or one of the key's own. -/
def Usable (ds : DiskStorage) (key : Bytes) (N : Nat) : Prop :=
  0 < N ∧ ∃ s, s + N ≤ ds.freeSpaceMap.numBits ∧ ∀ b ∈ Finset.Ico s (s + N),
    ¬ ds.freeSpaceMap.Mapped b ∨
      ∃ i e, ds.findEntry sha256_32 key = some (i, e) ∧ b ∈ e.extent ds.header

/-- The disk blocks that are not mapped. -/
def freeBlocks (ds : DiskStorage) : Finset Nat :=
  (Finset.range ds.freeSpaceMap.numBits).filter fun b => ¬ ds.freeSpaceMap.Mapped b

/-- The number of disk blocks that the entries have. -/
def usedBlocks (ds : DiskStorage) : Nat :=
  (ds.bat.table.map fun e => (ds.getNumDiskBlocks e.numBytes).toNat).sum

variable {sha256_32} {ds ds' : DiskStorage} {d m : UInt32} {key : Bytes} {dataBlocks : List Block}

/-! ## When a write returns -/

theorem mem_extent {h : Header} {e : BATEntry} {b : Nat} :
    b ∈ e.extent h ↔ e.startingDiskBlockNum.toNat ≤ b ∧
      b < e.startingDiskBlockNum.toNat + (h.getNumDiskBlocks e.numBytes).toNat := by
  rw [BATEntry.extent, Finset.mem_Ico]

/-- After the blocks of the key are freed, room is found exactly when there are usable blocks. -/
theorem findNFreeBlocks_usable (hs : ds.Sound) (key : Bytes) (N : UInt32) :
    (ds.freeExisting (ds.findEntry sha256_32 key)).findNFreeBlocks N ≠ none ↔
      ds.Usable sha256_32 key N.toNat := by
  cases he : ds.findEntry sha256_32 key with
  | some ie =>
      obtain ⟨i, e⟩ := ie
      have hmem := (findEntry_eq_some he).2.2.1
      rw [findNFreeBlocks_freeExisting hs.marks i hmem (hs.table.nonempty e hmem), HasRoom, Usable]
      refine and_congr_right fun _ => exists_congr fun s => and_congr_right fun _ =>
        forall₂_congr fun b _ => ?_
      rw [he]
      constructor
      · rintro (hb | hb)
        · exact Or.inr ⟨i, e, rfl, hb⟩
        · exact Or.inl hb
      · rintro (hb | ⟨i', e', hsome, hb⟩)
        · exact Or.inr hb
        · cases hsome
          exact Or.inl hb
  | none =>
      show ds.freeSpaceMap.findNFreeBlocks N ≠ none ↔ _
      rcases Nat.eq_zero_or_pos N.toNat with h0 | hN
      · rw [FreeSpaceMap.findNFreeBlocks_zero _ h0, Usable, h0]
        simp
      · rw [ne_eq, FreeSpaceMap.findNFreeBlocks_eq_none_iff hN, not_forall_not, Usable,
          and_iff_right hN]
        simp [FreeSpaceMap.FreeRun, he]

/-- **When a write returns**: there is something to write, its sizes are those announced, and there
are enough usable disk blocks in a row. -/
theorem writeBlocks_returns_iff (hs : ds.Sound) (hready : ds.storeFile.Ready) (key : Bytes)
    (dataBlocks : List Block) :
    (ds.writeBlocks sha256_32 key dataBlocks).1 = .ok () ↔
      dataBlocks ≠ [] ∧ (copyBlocks dataBlocks).length = (totalNumBytes dataBlocks).toNat ∧
        ds.Usable sha256_32 key (ds.getNumDiskBlocks (totalNumBytes dataBlocks)).toNat := by
  rw [← findNFreeBlocks_usable hs]
  constructor
  · intro hok
    cases hw : ds.writeBlocks sha256_32 key dataBlocks with
    | mk r ds' =>
        rw [hw] at hok
        obtain rfl : r = .ok () := hok
        obtain ⟨start, hok⟩ := writeBlocks_ok hw
        exact ⟨hok.nonempty, hok.copied, by rw [hok.found]; simp⟩
  · rintro ⟨hne, hcopied, hfound⟩
    exact writeBlocks_of_room sha256_32 hready hne hfound hcopied

/-- The blocks of a key can be used for it again, all of them or some. -/
theorem usable_own (hs : ds.Sound) {i : Nat} {e : BATEntry}
    (he : ds.findEntry sha256_32 key = some (i, e)) {N : Nat} (hpos : 0 < N)
    (hN : N ≤ (ds.getNumDiskBlocks e.numBytes).toNat) : ds.Usable sha256_32 key N := by
  have hmem := (findEntry_eq_some he).2.2.1
  have hin : e.startingDiskBlockNum.toNat + (ds.getNumDiskBlocks e.numBytes).toNat
      ≤ ds.freeSpaceMap.numBits := hs.table.inside e hmem
  refine ⟨hpos, e.startingDiskBlockNum.toNat, by omega, fun b hb => Or.inr ⟨i, e, he, ?_⟩⟩
  rw [Finset.mem_Ico] at hb
  refine mem_extent.mpr ⟨hb.1, ?_⟩
  have : (ds.header.getNumDiskBlocks e.numBytes).toNat = (ds.getNumDiskBlocks e.numBytes).toNat :=
    rfl
  omega

/-- A store with no entries has room for anything that it can hold. -/
theorem usable_of_empty (hs : ds.Sound) (hempty : ds.bat.table = []) (key : Bytes) {N : Nat}
    (hpos : 0 < N) (hN : N ≤ ds.freeSpaceMap.numBits) : ds.Usable sha256_32 key N := by
  refine ⟨hpos, 0, by omega, fun b _ => Or.inl fun hmapped => ?_⟩
  obtain ⟨e, he, -⟩ := (hs.marks b).mp hmapped
  rw [hempty] at he
  cases he

/-! ## No space is lost -/

/-- **The free disk blocks and those of the entries are all.** -/
theorem Sound.space (hs : ds.Sound) :
    ds.freeBlocks.card + ds.usedBlocks = ds.freeSpaceMap.numBits := by
  have hcount : ds.usedBlocks
      = ((ds.bat.table.map (BATEntry.extent ds.header)).map Finset.card).sum := by
    unfold usedBlocks
    rw [List.map_map]
    congr 1
    refine List.map_congr_left fun e _ => ?_
    show _ = (e.extent ds.header).card
    rw [BATEntry.extent, Nat.card_Ico]
    show (ds.header.getNumDiskBlocks e.numBytes).toNat = _
    omega
  rw [hcount]
  refine Extents.card_outside_add_sum (List.pairwise_map.mpr hs.table.pairwise) ?_ fun b => ?_
  · intro s hmem b hb
    obtain ⟨e, he, rfl⟩ := List.mem_map.mp hmem
    have := hs.table.inside e he
    have := (mem_extent.mp hb).2
    omega
  · simp only [freeBlocks, Finset.mem_filter, Finset.mem_range, hs.marks b, not_exists, not_and,
      List.forall_mem_map]

/-- The bytes of the entries fit into their disk blocks. -/
theorem Sound.usedBytes_le (hs : ds.Sound) :
    ds.usedBytes ≤ ds.usedBlocks * ds.header.diskBlockSize.toNat := by
  calc ds.usedBytes
      ≤ (ds.bat.table.map fun e => (ds.getNumDiskBlocks e.numBytes).toNat
          * ds.header.diskBlockSize.toNat).sum :=
        List.sum_le_sum fun e he => (le_ceilDiv_mul (hs.table.nonempty e he)).1
    _ = ds.usedBlocks * ds.header.diskBlockSize.toNat := List.sum_map_mul_right _ _ _

/-- In a layout whose offsets do not wrap, the bytes of the entries are a 32-bit number. -/
theorem Intact.usedBytes_lt (hi : ds.Intact d m) (hl : Layout d m) : ds.usedBytes < 2 ^ 32 := by
  have hspace := hi.sound.space
  have hfits : 28 + 62 * (ceilDiv m d).toNat + (ceilDiv m d).toNat * d.toNat ≤ 2 ^ 32 := hl.fits
  calc ds.usedBytes ≤ ds.usedBlocks * ds.header.diskBlockSize.toNat := hi.sound.usedBytes_le
    _ = ds.usedBlocks * d.toNat := by
        rw [hi.header]
        rfl
    _ ≤ ds.freeSpaceMap.numBits * d.toNat := Nat.mul_le_mul_right _ (by omega)
    _ = (ceilDiv m d).toNat * d.toNat := by rw [hi.numBits_eq hl]
    _ < 2 ^ 32 := by omega

/-- **The used bytes that a node reports** are those of its entries: their sum does not wrap. -/
theorem Intact.dataUsedSize_toNat (hi : ds.Intact d m) (hl : Layout d m) :
    ds.dataUsedSize.toNat = ds.usedBytes := by
  rw [DiskStorage.dataUsedSize_toNat, Nat.mod_eq_of_lt (hi.usedBytes_lt hl)]

/-! ## After any calls and restarts -/

/-- Fewer bytes need no more disk blocks, and at least one. -/
theorem getNumDiskBlocks_le {n n' : UInt32} (hn : n.toNat ≤ n'.toNat)
    (hpos : 0 < (ds.getNumDiskBlocks n').toNat) :
    (ds.getNumDiskBlocks n).toNat ≤ (ds.getNumDiskBlocks n').toNat ∧
      (0 < n.toNat → 0 < (ds.getNumDiskBlocks n).toNat) := by
  have hfits : n'.toNat + ds.header.diskBlockSize.toNat - 1 < 2 ^ 32 := ceilDiv_fits hpos
  have hd : 0 < ds.header.diskBlockSize.toNat := by
    by_contra hzero
    have hzero : ds.header.diskBlockSize.toNat = 0 := by omega
    have hdiv : (ds.getNumDiskBlocks n').toNat = 0 := by
      unfold getNumDiskBlocks Header.getNumDiskBlocks ceilDiv
      rw [UInt32.toNat_div, hzero, Nat.div_zero]
    omega
  show (ceilDiv n ds.header.diskBlockSize).toNat ≤ (ceilDiv n' ds.header.diskBlockSize).toNat ∧
    (0 < n.toNat → 0 < (ceilDiv n ds.header.diskBlockSize).toNat)
  rw [ceilDiv_toNat hd hfits, ceilDiv_toNat hd (by omega)]
  refine ⟨Nat.div_le_div_right (by omega), fun hpos => ?_⟩
  exact Nat.div_pos (by omega) hd

section Seen

variable {keyLengthMax : UInt32} {junk : Junk} {es : List Event}

theorem intact_seen (hl : Layout d m) (h : SeenFrom sha256_32 d m keyLengthMax junk es ds) :
    ds.Intact d m := by
  obtain ⟨w, -, hs⟩ := (standsFor_newStore junk d m keyLengthMax).seen hl h
  exact hs.intact

/-- **No space is lost**: after any calls and restarts the free disk blocks and those of the entries
are all disk blocks. When no key is left, a list of any size that a new store takes is written. -/
theorem space_conserved (hl : Layout d m) (h : SeenFrom sha256_32 d m keyLengthMax junk es ds) :
    ds.freeBlocks.card + ds.usedBlocks = (ceilDiv m d).toNat ∧
      (ds.bat.table = [] → ∀ key dataBlocks, dataBlocks ≠ [] →
        (copyBlocks dataBlocks).length = (totalNumBytes dataBlocks).toNat →
        0 < (ds.getNumDiskBlocks (totalNumBytes dataBlocks)).toNat →
        (ds.getNumDiskBlocks (totalNumBytes dataBlocks)).toNat ≤ (ceilDiv m d).toNat →
        (ds.writeBlocks sha256_32 key dataBlocks).1 = .ok ()) := by
  have hi := intact_seen hl h
  rw [← hi.numBits_eq hl]
  refine ⟨hi.sound.space, fun hempty key dataBlocks hne hcopied hpos hle => ?_⟩
  refine (writeBlocks_returns_iff hi.sound hi.ready key dataBlocks).mpr ⟨hne, hcopied, ?_⟩
  exact usable_of_empty hi.sound hempty key hpos hle

private def unusedStore : DiskStorage := newStore default 8 64 50

private theorem seen_unusedStore : SeenFrom (fun _ => 0) 8 64 50 default [] unusedStore := .start

private def sevenByte : List Block := [⟨[97], 0, 1, [7]⟩]

theorem space_conserved_sample :
    unusedStore.freeBlocks.card + unusedStore.usedBlocks = (ceilDiv 64 8).toNat ∧
      (unusedStore.writeBlocks (fun _ => 0) [97] sevenByte).1 = .ok () := by
  obtain ⟨hspace, hempty⟩ := space_conserved layout_sample seen_unusedStore
  exact ⟨hspace, hempty (table_newStore default 8 64 50) [97] sevenByte (by decide) (by decide)
    (by decide) (by decide)⟩

/-- **When a write returns**, after any calls and restarts: there is something to write, its sizes
are those announced, and there are enough disk blocks in a row that are free or the key's own. An
overwrite that is no longer than what the key has always returns. -/
theorem write_returns_iff (hl : Layout d m) (h : SeenFrom sha256_32 d m keyLengthMax junk es ds)
    (key : Bytes) (dataBlocks : List Block) :
    ((ds.writeBlocks sha256_32 key dataBlocks).1 = .ok () ↔
      dataBlocks ≠ [] ∧ (copyBlocks dataBlocks).length = (totalNumBytes dataBlocks).toNat ∧
        ds.Usable sha256_32 key (ds.getNumDiskBlocks (totalNumBytes dataBlocks)).toNat) ∧
    (∀ i e, ds.findEntry sha256_32 key = some (i, e) → dataBlocks ≠ [] →
      (copyBlocks dataBlocks).length = (totalNumBytes dataBlocks).toNat →
      (totalNumBytes dataBlocks).toNat ≤ e.numBytes.toNat →
      (ds.writeBlocks sha256_32 key dataBlocks).1 = .ok ()) := by
  have hi := intact_seen hl h
  refine ⟨writeBlocks_returns_iff hi.sound hi.ready key dataBlocks,
    fun i e he hne hcopied hle => ?_⟩
  refine (writeBlocks_returns_iff hi.sound hi.ready key dataBlocks).mpr ⟨hne, hcopied, ?_⟩
  have hentry := hi.sound.table.nonempty e (findEntry_eq_some he).2.2.1
  obtain ⟨hle, hpos⟩ := getNumDiskBlocks_le hle hentry
  have hbytes : 0 < (totalNumBytes dataBlocks).toNat := by
    have hfour := four_mul_length_le_copyBlocks dataBlocks
    have hlength := List.length_pos_iff.mpr hne
    omega
  exact usable_own hi.sound he (hpos hbytes) hle

theorem write_returns_iff_sample :
    (unusedStore.writeBlocks (fun _ => 0) [97] sevenByte).1 = .ok () ↔
      unusedStore.Usable (fun _ => 0) [97] 1 := by
  have hiff := (write_returns_iff layout_sample seen_unusedStore [97] sevenByte).1
  exact hiff.trans ⟨fun h => h.2.2, fun h => ⟨by decide, by decide, h⟩⟩

end Seen

end DiskStorage

end RackKey
