import Mathlib.Algebra.BigOperators.Ring.List
import Mathlib.Algebra.Order.BigOperators.Group.List
import Mathlib.Tactic.Ring
import RackKey.Storage.Capacity

set_option autoImplicit false

/-! # Used space, and the room for the table

The sizes of the entries of a store are at most the bits of its map times the size of a disk block.
The bits are `maxDataSize` rounded up to disk blocks and then to whole bytes, so that the used
space stays within `maxDataSize` on every run exactly when nothing is rounded up
(`usageFits_iff`). The region of the table has room for one entry a disk block, and again the
rounding decides whether the table stays inside (`tableFits_iff`).
-/

namespace RackKey

open Words ByteFile MathUtils

namespace DiskStorage

variable {sha256_32 : Bytes → UInt32} {d m : UInt32} {ds : DiskStorage}

/-! ## Used space -/

/-- The bytes stored: the sizes of the entries, added up without wrapping. -/
def usedBytes (ds : DiskStorage) : Nat := (ds.bat.table.map fun e => e.numBytes.toNat).sum

theorem dataUsedSize_toNat (ds : DiskStorage) : ds.dataUsedSize.toNat = ds.usedBytes % 2 ^ 32 := by
  have hfold : ∀ (t : List BATEntry) (n : UInt32),
      (t.foldl (fun usedSize be => usedSize + be.numBytes) n).toNat
        = (n.toNat + (t.map fun e => e.numBytes.toNat).sum) % 2 ^ 32 := by
    intro t
    induction t with
    | nil =>
        intro n
        have := n.toNat_lt
        rw [List.foldl_nil, List.map_nil, List.sum_nil]
        omega
    | cons e t ih =>
        intro n
        rw [List.foldl_cons, ih, UInt32.toNat_add, List.map_cons, List.sum_cons]
        omega
  have h := hfold ds.bat.table 0
  rwa [UInt32.toNat_zero, Nat.zero_add] at h

/-- `dataUsedSize` is the true sum of the sizes and at most `dataTotalSize`, so that the difference
that the master computes from the two does not wrap. -/
def UsedInTotal (ds : DiskStorage) : Prop :=
  ds.dataUsedSize.toNat = ds.usedBytes ∧ ds.usedBytes ≤ ds.dataTotalSize.toNat ∧
    (ds.dataTotalSize - ds.dataUsedSize).toNat = ds.dataTotalSize.toNat - ds.usedBytes

theorem usedInTotal_iff (ds : DiskStorage) :
    ds.UsedInTotal ↔ ds.usedBytes ≤ ds.dataTotalSize.toNat := by
  constructor
  · exact fun h => h.2.1
  · intro h
    have hlt := ds.dataTotalSize.toNat_lt
    have hused : ds.dataUsedSize.toNat = ds.usedBytes := by
      rw [dataUsedSize_toNat, Nat.mod_eq_of_lt (by omega)]
    refine ⟨hused, h, ?_⟩
    rw [UInt32.toNat_sub_of_le _ _ (UInt32.le_iff_toNat_le.mpr (by omega)), hused]

theorem Steady.total (hs : ds.Steady sha256_32 d m) : ds.dataTotalSize = m := by
  rw [dataTotalSize, hs.header]
  rfl

/-- An entry owns as many blocks as its bytes take, and its size was rounded up without wrapping. -/
theorem Steady.entry (hs : ds.Steady sha256_32 d m) {e : BATEntry} (he : e ∈ ds.bat.table) :
    0 < (ceilDiv e.numBytes d).toNat := by
  have hpos := hs.sound.table.nonempty e he
  rwa [Header.getNumDiskBlocks, hs.header] at hpos

theorem Steady.usedBytes_le (hs : ds.Steady sha256_32 d m) :
    ds.usedBytes ≤ bitCapacity d m * d.toNat := by
  calc ds.usedBytes
      ≤ (ds.bat.table.map fun e => (ceilDiv e.numBytes d).toNat * d.toNat).sum :=
        List.sum_le_sum fun e he => (le_ceilDiv_mul (hs.entry he)).1
    _ = (ds.bat.table.map fun e => (ceilDiv e.numBytes d).toNat).sum * d.toNat :=
        List.sum_map_mul_right _ _ _
    _ ≤ bitCapacity d m * d.toNat := Nat.mul_le_mul_right _ hs.sum_blocks_le

/-- The bits cover more than `maxDataSize` unless it is a multiple of eight blocks, or so large
that the number of blocks wraps to zero. -/
theorem bitCapacity_mul_le_iff (hd : 1 ≤ d.toNat) (hm : 1 ≤ m.toNat) (hm' : m.toNat ≤ 2 ^ 31) :
    bitCapacity d m * d.toNat ≤ m.toNat ↔ 8 * d.toNat ∣ m.toNat ∨ 2 ^ 32 < m.toNat + d.toNat := by
  have h8 : (8 : UInt32).toNat = 8 := rfl
  by_cases hwrap : 2 ^ 32 < m.toNat + d.toNat
  · have hcap : (ceilDiv m d).toNat = 0 := ceilDiv_of_wrap (by omega)
    have hbits : bitCapacity d m = 0 := by
      rw [bitCapacity, ceilDiv_toNat (by omega) (by omega), hcap, h8]
    rw [hbits, Nat.zero_mul]
    exact iff_of_true (Nat.zero_le _) (Or.inr hwrap)
  · have hcap := ceilDiv_toNat (n := m) (d := d) (by omega) (by omega)
    have hle : (ceilDiv m d).toNat ≤ 2 ^ 31 := by
      rw [hcap, ← Nat.lt_succ_iff, Nat.div_lt_iff_lt_mul (by omega)]
      have : 2 ^ 31 * 1 ≤ 2 ^ 31 * d.toNat := Nat.mul_le_mul_left _ hd
      rw [Nat.succ_mul]
      omega
    have hbits : bitCapacity d m = 8 * (((ceilDiv m d).toNat + 7) / 8) := by
      rw [bitCapacity, ceilDiv_toNat (by omega) (by omega), h8]
      rfl
    obtain ⟨hcover, -⟩ := le_ceilDiv_mul (n := m) (d := d) (by
      rw [hcap]
      exact Nat.div_pos (by omega) (by omega))
    constructor
    · intro h
      have hmul : (ceilDiv m d).toNat * d.toNat ≤ bitCapacity d m * d.toNat :=
        Nat.mul_le_mul_right _ (by omega)
      refine Or.inl ⟨((ceilDiv m d).toNat + 7) / 8, ?_⟩
      rw [Nat.mul_right_comm, ← hbits]
      omega
    · rintro (⟨k, hk⟩ | hlt)
      · -- a multiple of eight blocks is not rounded at all
        have hexact : (ceilDiv m d).toNat = 8 * k := by
          have hmod : (8 * d.toNat * k + d.toNat - 1) / d.toNat = 8 * k := by
            rw [show 8 * d.toNat * k + d.toNat - 1 = d.toNat - 1 + d.toNat * (8 * k) by
              rw [show 8 * d.toNat * k = d.toNat * (8 * k) by ring]
              omega, Nat.add_mul_div_left _ _ (by omega), Nat.div_eq_of_lt (by omega),
              Nat.zero_add]
          rw [hcap, hk, hmod]
        rw [hbits, hexact, show (8 * k + 7) / 8 = k by omega, hk]
        exact Nat.le_of_eq (by ring)
      · exact absurd hlt hwrap

/-- In every state that writes and deletes reach from a new store, the used space is counted right
and within the total. -/
def UsageFits (sha256_32 : Bytes → UInt32) (diskBlockSize maxDataSize : UInt32) : Prop :=
  ∀ (junk : Junk) (keyLengthMax : UInt32) (ops : List Mutation) (ds : DiskStorage),
    ops.foldlM (Mutation.run sha256_32) (newStore junk diskBlockSize maxDataSize keyLengthMax)
      = some ds → ds.UsedInTotal

/-- Stored keys of equal sizes that exceed `maxDataSize` together break the bound. -/
theorem not_usageFits {total : Nat} (htotal : 4 ≤ total) (hlt : total < 2 ^ 32)
    (hpos : 0 < (ceilDiv (UInt32.ofNat total) d).toNat) (keys : List Bytes)
    (hkeys : (keys.map sha256_32).Nodup)
    (hroom : keys.length * (ceilDiv (UInt32.ofNat total) d).toNat ≤ bitCapacity d m)
    (hover : m.toNat < keys.length * total) : ¬ UsageFits sha256_32 d m := by
  intro h
  obtain ⟨ds, hrun, hfilled⟩ := fill_run default 50 htotal hlt hpos keys hkeys hroom
  have hle := (h _ _ _ _ hrun).2.1
  rw [usedBytes, hfilled.sizes, List.sum_replicate, Nat.nsmul_eq_mul,
    (steady_run hrun).total] at hle
  omega

/-- Where there are bits at all, there are at least eight. -/
theorem eight_le_bitCapacity (hpos : 0 < bitCapacity d m * d.toNat) : 8 ≤ bitCapacity d m := by
  rw [bitCapacity] at hpos ⊢
  rcases Nat.eq_zero_or_pos (ceilDiv (ceilDiv m d) 8).toNat with h0 | hpos'
  · rw [h0, Nat.mul_zero, Nat.zero_mul] at hpos
    omega
  · omega

/-- Two keys of `maxDataSize` bytes each exceed it, where one block holds that much. -/
theorem not_usageFits_of_two (hm : 4 ≤ m.toNat) (hm' : m.toNat ≤ d.toNat)
    (hedge : m.toNat + d.toNat = 2 ^ 32) (height : 8 ≤ bitCapacity d m) {key key' : Bytes}
    (hne : sha256_32 key ≠ sha256_32 key') : ¬ UsageFits sha256_32 d m := by
  have hofNat : UInt32.ofNat m.toNat = m := UInt32.ofNat_toNat
  have hN : (ceilDiv (UInt32.ofNat m.toNat) d).toNat = 1 := by
    rw [hofNat, ceilDiv_toNat (by omega) (by omega)]
    exact Nat.div_eq_of_lt_le (by omega) (by omega)
  refine not_usageFits hm m.toNat_lt (by omega) [key, key'] ?_ ?_ ?_
  · simpa using hne
  · rw [hN, List.length_cons, List.length_singleton]
    omega
  · rw [List.length_cons, List.length_singleton]
    omega

/-- One key of a byte more than `maxDataSize` exceeds it, where the bits have room for it. -/
theorem not_usageFits_of_one (hd : 1 ≤ d.toNat) (hfits : m.toNat + d.toNat < 2 ^ 32)
    (hsmall : d.toNat + 3 < 2 ^ 32) (height : 8 ≤ bitCapacity d m)
    (hover : m.toNat < bitCapacity d m * d.toNat) : ¬ UsageFits sha256_32 d m := by
  have htotal : 4 ≤ max (m.toNat + 1) 4 := Nat.le_max_right _ _
  have hlt : max (m.toNat + 1) 4 < 2 ^ 32 := by omega
  have hN : (ceilDiv (UInt32.ofNat (max (m.toNat + 1) 4)) d).toNat
      = (max (m.toNat + 1) 4 + d.toNat - 1) / d.toNat := by
    have htoNat : (UInt32.ofNat (max (m.toNat + 1) 4)).toNat = max (m.toNat + 1) 4 :=
      UInt32.toNat_ofNat_of_lt' hlt
    rw [ceilDiv_toNat (by omega) (by omega), htoNat]
  have hmul : 8 * d.toNat ≤ bitCapacity d m * d.toNat := Nat.mul_le_mul_right _ height
  refine not_usageFits htotal hlt ?_ [[]] (List.nodup_singleton _) ?_ ?_
  · rw [hN]
    exact Nat.div_pos (by omega) (by omega)
  · rw [hN, List.length_singleton, Nat.one_mul, ← Nat.lt_succ_iff,
      Nat.div_lt_iff_lt_mul (by omega), Nat.succ_mul]
    omega
  · rw [List.length_singleton]
    omega

/-- Where the numerator of the least size wraps, no entry can be written. -/
theorem Steady.table_eq_nil (hs : ds.Steady sha256_32 d m) (hsmall : 2 ^ 32 ≤ d.toNat + 3) :
    ds.bat.table = [] := by
  rw [List.eq_nil_iff_forall_not_mem]
  intro e he
  have h₁ := ceilDiv_fits (hs.entry he)
  have h₂ := (hs.entries e he).1
  omega

/-- Keys that share their hash share one entry, which is no larger than its blocks. -/
theorem Steady.usedBytes_le_of_shared (hs : ds.Steady sha256_32 d m)
    (hedge : m.toNat + d.toNat = 2 ^ 32)
    (hshared : ∀ key key', sha256_32 key = sha256_32 key') : ds.usedBytes ≤ m.toNat := by
  have hnodup := hs.sound.table.hashes
  rw [usedBytes]
  cases htable : ds.bat.table with
  | nil => exact Nat.zero_le _
  | cons e t =>
      cases t with
      | nil =>
          have hfits := ceilDiv_fits (hs.entry (e := e) (by rw [htable]; exact List.mem_cons_self))
          rw [List.map_singleton, List.sum_singleton]
          omega
      | cons e' t =>
          obtain ⟨-, key, hkey⟩ := hs.entries e (by rw [htable]; exact List.mem_cons_self)
          obtain ⟨-, key', hkey'⟩ := hs.entries e' (by simp [htable])
          rw [htable, List.map_cons, List.map_cons, List.nodup_cons, ← hkey, ← hkey',
            hshared key key'] at hnodup
          exact absurd List.mem_cons_self hnodup.1

/-- **When the used space stays within the total**: exactly when `maxDataSize` is a multiple of
eight disk blocks, or when no write can succeed because the numbers of blocks wrap to zero, or
when the largest write fills `maxDataSize` and all keys share one entry. -/
theorem usageFits_iff (sha256_32 : Bytes → UInt32) (hd : 1 ≤ d.toNat) {p : Nat} (hp : p ≤ 31) :
    UsageFits sha256_32 d (UInt32.ofNat (2 ^ p)) ↔
      8 * d.toNat ∣ 2 ^ p ∨ 2 ^ 32 < 2 ^ p + d.toNat ∨ 2 ^ 32 ≤ d.toNat + 3 ∨
        (2 ^ p + d.toNat = 2 ^ 32 ∧ ∀ key key', sha256_32 key = sha256_32 key') := by
  have hle : 2 ^ p ≤ 2 ^ 31 := Nat.pow_le_pow_right (by omega) hp
  have hone : 1 ≤ 2 ^ p := Nat.one_le_two_pow
  have hlt : 2 ^ p < 2 ^ 32 := by omega
  have hm : (UInt32.ofNat (2 ^ p)).toNat = 2 ^ p := UInt32.toNat_ofNat_of_lt' hlt
  have hd32 := d.toNat_lt
  generalize UInt32.ofNat (2 ^ p) = m at hm ⊢
  rw [← hm] at hle hone ⊢
  have hbits := bitCapacity_mul_le_iff hd hone hle
  constructor
  · intro hfits
    by_contra hnot
    rw [not_or, not_or, not_or] at hnot
    obtain ⟨hdvd, hwrap, hsmall, hshared⟩ := hnot
    have hover : m.toNat < bitCapacity d m * d.toNat := by
      by_contra hc
      rcases hbits.mp (Nat.le_of_not_lt hc) with h | h
      · exact hdvd h
      · exact hwrap h
    have height := eight_le_bitCapacity (Nat.lt_of_le_of_lt (Nat.zero_le _) hover)
    by_cases hedge : m.toNat + d.toNat = 2 ^ 32
    · -- one entry holds no more than `maxDataSize`, so it takes two of them
      have hkeys : ∃ key key', sha256_32 key ≠ sha256_32 key' := by
        by_contra hall
        refine hshared ⟨hedge, fun key key' => ?_⟩
        by_contra hne
        exact hall ⟨key, key', hne⟩
      obtain ⟨key, key', hne⟩ := hkeys
      exact not_usageFits_of_two (by omega) (by omega) hedge height hne hfits
    · exact not_usageFits_of_one hd (by omega) (by omega) height hover hfits
  · intro hcond junk keyLengthMax ops ds hrun
    have hs := steady_run hrun
    rw [usedInTotal_iff, hs.total]
    rcases hcond with hdvd | hwrap | hsmall | ⟨hedge, hshared⟩
    · exact Nat.le_trans hs.usedBytes_le (hbits.mpr (Or.inl hdvd))
    · exact Nat.le_trans hs.usedBytes_le (hbits.mpr (Or.inr hwrap))
    · rw [usedBytes, hs.table_eq_nil hsmall]
      exact Nat.zero_le _
    · exact hs.usedBytes_le_of_shared hedge hshared

private def keySum (key : Bytes) : UInt32 := key.foldl (fun n b => n + b.toUInt32) 0

theorem usageFits_iff_layout : UsageFits keySum 8 64 :=
  (usageFits_iff keySum (by decide) (p := 6) (by decide)).mpr (Or.inl (by decide))

/-- With four bytes for data, in blocks of four, a key with nine bytes is stored. -/
theorem usage_exceeds :
    (∃ ds, [Mutation.write [97] [⟨[97], 0, 5, [1, 2, 3, 4, 5]⟩]].foldlM (Mutation.run keySum)
        (newStore default 4 4 50) = some ds ∧ ds.dataUsedSize = 9 ∧ ds.dataTotalSize = 4 ∧
        ds.dataTotalSize - ds.dataUsedSize = 4294967291) ∧ ¬ UsageFits keySum 4 4 := by
  have hall : ([Mutation.write [97] [⟨[97], 0, 5, [1, 2, 3, 4, 5]⟩]].foldlM (Mutation.run keySum)
      (newStore default 4 4 50)).map (fun ds => (ds.dataUsedSize, ds.dataTotalSize))
        = some (9, 4) := by decide +kernel
  obtain ⟨ds, hrun, hsizes⟩ := Option.map_eq_some_iff.mp hall
  obtain ⟨hused, htotal⟩ := Prod.mk.inj hsizes
  refine ⟨⟨ds, hrun, hused, htotal, by rw [hused, htotal]; decide⟩, fun h => ?_⟩
  obtain ⟨heq, hle, -⟩ := h _ _ _ _ hrun
  rw [← heq, hused, htotal] at hle
  exact absurd hle (by decide)

/-! ## The room for the table -/

/-- In every state that writes and deletes reach from a new store, the table that is written ends
at or before the first disk block. -/
def TableFits (sha256_32 : Bytes → UInt32) (diskBlockSize maxDataSize : UInt32) : Prop :=
  ∀ (junk : Junk) (keyLengthMax : UInt32) (ops : List Mutation) (ds : DiskStorage),
    ops.foldlM (Mutation.run sha256_32) (newStore junk diskBlockSize maxDataSize keyLengthMax)
      = some ds → Header.size + ds.bat.bytes.length ≤ ds.header.blockStoreOffset.toNat

/-- The region of the table has room for one entry a disk block. -/
theorem Steady.table_le_iff (hs : ds.Steady sha256_32 d m)
    (hfits : 28 + 62 * (ceilDiv m d).toNat < 2 ^ 32) :
    Header.size + ds.bat.bytes.length ≤ ds.header.blockStoreOffset.toNat ↔
      ds.bat.table.length ≤ (ceilDiv m d).toNat := by
  have hoff : ds.header.blockStoreOffset.toNat = 28 + 62 * (ceilDiv m d).toNat := by
    rw [hs.header]
    simp only [initialiseHeader, UInt32.toNat_add, UInt32.toNat_mul, UInt32.reduceToNat]
    omega
  rw [hoff, BAT.bytes_length]
  simp only [Header.size, BATEntry.size]
  omega

/-- An entry owns at least the blocks that the number of a block takes. -/
theorem Steady.least_le (hs : ds.Steady sha256_32 d m) {e : BATEntry} (he : e ∈ ds.bat.table) :
    0 < (ceilDiv 4 d).toNat ∧ (ceilDiv 4 d).toNat ≤ (ceilDiv e.numBytes d).toNat := by
  have hpos := hs.entry he
  have hfits := ceilDiv_fits hpos
  have hfour := (hs.entries e he).1
  have hd : 0 < d.toNat := by
    rcases Nat.eq_zero_or_pos d.toNat with h0 | hd
    · rw [ceilDiv, UInt32.toNat_div, h0, Nat.div_zero] at hpos
      omega
    · exact hd
  have h4 : (4 : UInt32).toNat = 4 := rfl
  rw [ceilDiv_toNat hd (by rw [h4]; omega), ceilDiv_toNat hd hfits, h4]
  exact ⟨Nat.div_pos (by omega) hd, Nat.div_le_div_right (by omega)⟩

/-- **At most as many entries as extents of the least size fit in the bits.** -/
theorem Steady.length_le (hs : ds.Steady sha256_32 d m) :
    ds.bat.table.length ≤ bitCapacity d m / (ceilDiv 4 d).toNat := by
  cases htable : ds.bat.table with
  | nil => exact Nat.zero_le _
  | cons e t =>
      have hpos := (hs.least_le (e := e) (by rw [htable]; exact List.mem_cons_self)).1
      rw [Nat.le_div_iff_mul_le hpos, ← htable]
      calc ds.bat.table.length * (ceilDiv 4 d).toNat
          = (ds.bat.table.map fun _ => (ceilDiv 4 d).toNat).sum := by
            rw [List.map_const', List.sum_replicate, Nat.nsmul_eq_mul]
        _ ≤ (ds.bat.table.map fun e => (ceilDiv e.numBytes d).toNat).sum :=
            List.sum_le_sum fun e he => (hs.least_le he).2
        _ ≤ bitCapacity d m := hs.sum_blocks_le

/-- The hashes of the entries are the hashes of some keys. -/
theorem Steady.exists_keys (hs : ds.Steady sha256_32 d m) :
    ∃ keys : List Bytes, keys.map sha256_32 = ds.bat.table.map BATEntry.keyHash := by
  have hrange : ds.bat.table.map BATEntry.keyHash ∈ Set.range (List.map sha256_32) := by
    rw [Set.range_list_map]
    intro k hk
    obtain ⟨e, he, rfl⟩ := List.mem_map.mp hk
    exact (hs.entries e he).2
  exact hrange

/-- One key more than there are disk blocks, each with an empty block, breaks the bound where the
bits have room for them. -/
theorem not_tableFits (hfits : 28 + 62 * (ceilDiv m d).toNat < 2 ^ 32)
    (hroom : (ceilDiv m d).toNat < bitCapacity d m / (ceilDiv 4 d).toNat) {keys : List Bytes}
    (hnodup : (keys.map sha256_32).Nodup) (hlen : keys.length = (ceilDiv m d).toNat + 1) :
    ¬ TableFits sha256_32 d m := by
  intro h
  have hpos : 0 < (ceilDiv 4 d).toNat := by
    rcases Nat.eq_zero_or_pos (ceilDiv 4 d).toNat with h0 | hpos
    · rw [h0, Nat.div_zero] at hroom
      omega
    · exact hpos
  obtain ⟨ds, hrun, hfilled⟩ := fill_run default 50 (Nat.le_refl 4) (by omega) hpos keys hnodup (by
    rw [hlen]
    exact (Nat.le_div_iff_mul_le hpos).mp hroom)
  have hle := ((steady_run hrun).table_le_iff hfits).mp (h _ _ _ _ hrun)
  rw [← List.length_map (f := BATEntry.keyHash), hfilled.hashes, List.length_map, hlen] at hle
  omega

/-- **When the table stays inside its region**: exactly when no more entries of the least size fit
in the bits than there are disk blocks, or the hash does not take more values than that. -/
theorem tableFits_iff (sha256_32 : Bytes → UInt32)
    (hfits : 28 + 62 * (ceilDiv m d).toNat < 2 ^ 32) :
    TableFits sha256_32 d m ↔
      bitCapacity d m / (ceilDiv 4 d).toNat ≤ (ceilDiv m d).toNat ∨
        ∀ keys : List Bytes, (keys.map sha256_32).Nodup → keys.length ≤ (ceilDiv m d).toNat := by
  constructor
  · intro h
    by_contra hnot
    rw [not_or] at hnot
    obtain ⟨hroom, hkeys⟩ := hnot
    obtain ⟨keys, hnodup, hlen⟩ : ∃ keys : List Bytes, (keys.map sha256_32).Nodup ∧
        (ceilDiv m d).toNat < keys.length := by
      by_contra hc
      exact hkeys fun keys hn => Nat.le_of_not_lt fun hlt => hc ⟨keys, hn, hlt⟩
    have htake : (keys.take ((ceilDiv m d).toNat + 1)).length = (ceilDiv m d).toNat + 1 := by
      rw [List.length_take]
      omega
    exact not_tableFits hfits (Nat.lt_of_not_le hroom)
      (hnodup.sublist ((List.take_sublist _ _).map _)) htake h
  · intro hcond junk keyLengthMax ops ds hrun
    have hs := steady_run hrun
    rw [hs.table_le_iff hfits]
    rcases hcond with hroom | hkeys
    · exact Nat.le_trans hs.length_le hroom
    · obtain ⟨keys, hmap⟩ := hs.exists_keys
      have hle := hkeys keys (by rw [hmap]; exact hs.sound.table.hashes)
      rwa [← List.length_map (f := sha256_32), hmap, List.length_map] at hle

theorem tableFits_iff_layout : TableFits keySum 8 64 :=
  (tableFits_iff keySum (by decide)).mpr (Or.inl (by decide))

/-- One disk block of sixteen bytes: two keys are stored all the same, and the second record of
the table lies on the data of the first key. -/
theorem table_overruns :
    (∃ ds ds', (newStore default 16 16 50).writeBlocks keySum [97] [⟨[97], 0, 4, [1, 2, 3, 4]⟩]
          = (.ok (), ds) ∧
        ds.writeBlocks keySum [98] [⟨[98], 0, 4, [5, 6, 7, 8]⟩] = (.ok (), ds') ∧
        ds'.header.blockStoreOffset.toNat < Header.size + ds'.bat.bytes.length ∧
        (ds.readBlocks keySum [97] {0} 4).1 = .ok [⟨[97], 0, 4, [1, 2, 3, 4]⟩] ∧
        (ds'.readBlocks keySum [97] {0} 4).1 = .error .numBlocksRead) ∧
      ¬ TableFits keySum 16 16 := by
  set ds := ((newStore default 16 16 50).writeBlocks keySum [97]
    [⟨[97], 0, 4, [1, 2, 3, 4]⟩]).2 with hds
  set ds' := (ds.writeBlocks keySum [98] [⟨[98], 0, 4, [5, 6, 7, 8]⟩]).2 with hds'
  have hw : (newStore default 16 16 50).writeBlocks keySum [97] [⟨[97], 0, 4, [1, 2, 3, 4]⟩]
      = (.ok (), ds) := by decide +kernel
  have hw' : ds.writeBlocks keySum [98] [⟨[98], 0, 4, [5, 6, 7, 8]⟩] = (.ok (), ds') := by
    decide +kernel
  have hover : ds'.header.blockStoreOffset.toNat < Header.size + ds'.bat.bytes.length := by
    decide +kernel
  refine ⟨⟨ds, ds', hw, hw', hover, by decide +kernel, by decide +kernel⟩, fun h => ?_⟩
  have hle := h default 50 [.write [97] [⟨[97], 0, 4, [1, 2, 3, 4]⟩],
    .write [98] [⟨[98], 0, 4, [5, 6, 7, 8]⟩]] ds' (by
      simp only [List.foldlM_cons, List.foldlM_nil, Mutation.run, Option.bind_eq_bind, hw, hw',
        returned, Option.bind_some]
      rfl)
  omega

end DiskStorage

end RackKey
