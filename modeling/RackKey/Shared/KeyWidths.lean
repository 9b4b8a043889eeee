import RackKey.Shared.Payloads

set_option autoImplicit false

/-! # Keys of another width

The decoder of the sync payload takes 50 bytes for a key. `width_of_deserialize` says what keys
of another configured width come to: a payload of one key with one block is decoded to the key
only if the width is 50. There is one exception, the empty key. Its null bytes look like entries
without blocks, so that it is decoded from any payload of `54 * k + 50` null bytes
(`deserialize_zeros`).
-/

namespace RackKey

open Std Words

namespace StringUtils

variable {s : Bytes} {size : UInt32} {i : Nat}

theorem fixedSize_getElem?_of_lt (hi : i < s.length) (hsize : i < size.toNat) :
    (fixedSize s size)[i]? = s[i]? := by
  rw [fixedSize, List.getElem?_append_left (by rw [List.length_take]; omega),
    List.getElem?_take_of_lt hsize]

theorem fixedSize_getElem?_of_le (hi : s.length ≤ i) (hsize : i < size.toNat) :
    (fixedSize s size)[i]? = some 0 := by
  have hlen : (s.take size.toNat).length = s.length := by
    rw [List.length_take]
    omega
  rw [fixedSize, List.getElem?_append_right (by omega), hlen, List.getElem?_replicate,
    if_pos (by omega)]

/-- A wider field has the same bytes and more null bytes. -/
theorem fixedSize_append_replicate (hs : s.length ≤ 50) (hsize : 50 ≤ size.toNat) :
    fixedSize s size = fixedSize s 50 ++ List.replicate (size.toNat - 50) 0 := by
  have h50 : (50 : UInt32).toNat = 50 := rfl
  rw [fixedSize, fixedSize, h50, List.take_of_length_le (by omega), List.take_of_length_le hs,
    List.append_assoc, List.replicate_append_replicate]
  congr 2
  omega

end StringUtils

namespace Payloads

namespace SyncInfo

open StringUtils

/-- The fixed-size form of the empty key. -/
abbrev noKey : Bytes := List.replicate 50 0

/-! ## The loop of the decoder -/

variable {fuel : Nat} {buffer rest : Bytes} {m m' : ExtTreeMap Bytes (List UInt32)}

/-- A key is not taken out again. -/
theorem mem_deserializeEntries (h : deserializeEntries fuel buffer m = some (m', rest))
    {K : Bytes} (hK : K ∈ m) : K ∈ m' := by
  induction fuel generalizing buffer m with
  | zero =>
      simp only [deserializeEntries] at h
      split at h
      · cases h
      · obtain ⟨rfl, -⟩ := Prod.mk.inj (Option.some.inj h)
        exact hK
  | succ fuel ih =>
      simp only [deserializeEntries] at h
      split at h
      · simp only [Option.bind_eq_bind, Option.bind_eq_some_iff, Prod.exists] at h
        obtain ⟨key, bs, -, numBlocks, bs', -, blockNums, bs'', -, hrest⟩ := h
        exact ih hrest (ExtTreeMap.mem_insert.mpr (Or.inr hK))
      · obtain ⟨rfl, -⟩ := Prod.mk.inj (Option.some.inj h)
        exact hK

/-- As long as more than the size info is left, the next 50 bytes become a key. -/
theorem take_mem_deserializeEntries (h : deserializeEntries fuel buffer m = some (m', rest))
    (hlen : 8 < buffer.length) : 50 ≤ buffer.length ∧ buffer.take 50 ∈ m' := by
  cases fuel with
  | zero =>
      rw [deserializeEntries, if_pos hlen] at h
      cases h
  | succ fuel =>
      rw [deserializeEntries, if_pos hlen] at h
      simp only [Option.bind_eq_bind, Option.bind_eq_some_iff, Prod.exists] at h
      obtain ⟨key, bs, hkey, numBlocks, bs', -, blockNums, bs'', -, hrest⟩ := h
      obtain ⟨hbuffer, h50⟩ := Block.eq_append_of_takeBytes hkey
      have htake : buffer.take 50 = key := by rw [hbuffer, List.take_left' h50]
      refine ⟨?_, ?_⟩
      · rw [hbuffer, List.length_append]
        omega
      · rw [htake]
        exact mem_deserializeEntries hrest ExtTreeMap.mem_insert_self

theorem length_of_readWords {n : Nat} {bs rest : Bytes} {ws : List UInt32}
    (h : readWords n bs = some (ws, rest)) : bs.length = 4 * n + rest.length := by
  obtain ⟨rfl, rfl⟩ := eq_of_readWords h
  rw [List.length_append, length_blockNumBytes]

/-- An entry with a number of blocks that is too large for what is left. -/
theorem deserializeEntries_eq_none {key tail : Bytes} (hkey : key.length = 50) {w : UInt32}
    (htail : tail.length < 4 * w.toNat) :
    deserializeEntries (fuel + 1) (key ++ (le32 w ++ tail)) m = none := by
  have hlen : 8 < (key ++ (le32 w ++ tail)).length := by
    rw [List.length_append]
    omega
  rw [deserializeEntries, if_pos hlen]
  simp only [Block.takeBytes_append hkey, Option.bind_eq_bind, Option.bind_some, readLe32_append]
  cases hws : readWords w.toNat tail with
  | none => rfl
  | some p =>
      obtain ⟨ws, rest⟩ := p
      have hlen := length_of_readWords hws
      omega

/-! ## Null bytes -/

theorem deserializeEntries_zeros (n : Nat) (rest : Bytes) :
    deserializeEntries (fuel + 1) (List.replicate (54 + n) 0 ++ rest) m
      = deserializeEntries fuel (List.replicate n 0 ++ rest) (m.insert noKey []) := by
  have hentry : List.replicate (54 + n) 0 ++ rest
      = entryBytes (noKey, []) ++ (List.replicate n 0 ++ rest) := by
    rw [← List.replicate_append_replicate, List.append_assoc]
    rfl
  rw [hentry]
  exact deserializeEntries_cons (by simp) (by simp) _ _ _

/-- The entry of the empty key, in a field of `50 + 54 * k` bytes. -/
theorem deserializeEntries_zeros_append {nums : List UInt32} (hnums : nums.length < 2 ^ 32)
    (hrest : rest.length = 8) :
    ∀ (k : Nat) (m : ExtTreeMap Bytes (List UInt32)) (fuel : Nat),
      let buffer := entryBytes (List.replicate (50 + 54 * k) 0, nums) ++ rest
      buffer.length ≤ fuel → ∃ m', deserializeEntries fuel buffer m = some (m', rest) ∧
        ∀ K, m'[K]? = if K = noKey then some nums else m[K]?
  | 0, m, fuel, hfuel => by
      have hentry : ∀ p ∈ [(noKey, nums)], p.1.length = 50 ∧ p.2.length < 2 ^ 32 := by
        intro p hp
        obtain rfl := List.mem_singleton.mp hp
        exact ⟨List.length_replicate, hnums⟩
      have hflat : [(noKey, nums)].flatMap entryBytes = entryBytes (noKey, nums) := by
        rw [List.flatMap_cons, List.flatMap_nil, List.append_nil]
      have hloop := deserializeEntries_append rest hrest [(noKey, nums)] m fuel hentry
      rw [hflat] at hloop
      refine ⟨m.insert noKey nums, hloop hfuel, fun K => ?_⟩
      rw [getElem?_insert_eq]
      simp only [eq_comm]
  | k + 1, m, fuel, hfuel => by
      have hsplit : entryBytes (List.replicate (50 + 54 * (k + 1)) 0, nums) ++ rest
          = List.replicate (54 + (50 + 54 * k)) 0
            ++ (le32 (UInt32.ofNat nums.length) ++ (blockNumBytes nums ++ rest)) := by
        have hlen : 50 + 54 * (k + 1) = 54 + (50 + 54 * k) := by omega
        simp only [entryBytes, hlen, List.append_assoc]
      rw [hsplit] at hfuel ⊢
      cases fuel with
      | zero => simp at hfuel
      | succ fuel =>
          rw [deserializeEntries_zeros]
          have hbuffer : List.replicate (50 + 54 * k) 0
              ++ (le32 (UInt32.ofNat nums.length) ++ (blockNumBytes nums ++ rest))
                = entryBytes (List.replicate (50 + 54 * k) 0, nums) ++ rest := by
            simp only [entryBytes, List.append_assoc]
          rw [List.replicate_add, List.append_assoc, hbuffer, List.length_append,
            List.length_replicate] at hfuel
          rw [hbuffer]
          obtain ⟨m', hloop, hget⟩ := deserializeEntries_zeros_append hnums hrest k
            (m.insert noKey []) fuel (by omega)
          refine ⟨m', hloop, fun K => ?_⟩
          rw [hget, getElem?_insert_eq]
          by_cases hK : K = noKey
          · rw [if_pos hK, if_pos hK]
          · rw [if_neg hK, if_neg hK, if_neg fun h => hK h.symm]

/-- **The empty key is decoded** when the configured width leaves 50 divided by 54. -/
theorem deserialize_zeros {L : Nat} (hL : L % 54 = 50) {nums : List UInt32}
    (hnums : nums.length < 2 ^ 32) (s : SizeInfo) :
    ∃ info, deserialize (entryBytes (List.replicate L 0, nums) ++ s.serialize) = some info ∧
      ∀ K nums', info.keyBlockNumMap[K]? = some nums' ↔ K = noKey ∧ nums' = nums := by
  obtain ⟨k, rfl⟩ : ∃ k, L = 50 + 54 * k := ⟨L / 54, by omega⟩
  obtain ⟨m', hloop, hget⟩ := deserializeEntries_zeros_append hnums s.serialize_length k ∅ _
    (Nat.le_refl _)
  refine ⟨⟨m', s⟩, ?_, fun K nums' => ?_⟩
  · unfold deserialize
    rw [hloop]
    simp only [Option.bind_eq_bind, Option.bind_some, SizeInfo.deserialize_serialize]
  · rw [hget]
    by_cases hK : K = noKey
    · simp [hK, eq_comm]
    · simp [hK]

/-! ## One key with one block -/

/-- The payload of a map with one key. -/
theorem serialize_single {s : SyncInfo} {K : Bytes} {nums : List UInt32}
    (h : ∀ K' nums', s.keyBlockNumMap[K']? = some nums' ↔ K' = K ∧ nums' = nums) :
    s.serialize = entryBytes (K, nums) ++ s.sizeInfo.serialize := by
  have hmem : ∀ p, p ∈ s.keyBlockNumMap.toList ↔ p ∈ [(K, nums)] := by
    rintro ⟨K', nums'⟩
    rw [ExtTreeMap.mem_toList_iff_getElem?_eq_some, h, List.mem_singleton, Prod.mk.injEq]
  have hnodup : s.keyBlockNumMap.toList.Nodup :=
    ExtTreeMap.distinct_keys_toList.imp fun hne heq => by simp [heq] at hne
  have hlist : s.keyBlockNumMap.toList = [(K, nums)] :=
    List.perm_singleton.mp ((List.perm_ext_iff_of_nodup hnodup (by simp)).mpr hmem)
  rw [serialize, hlist, List.flatMap_cons, List.flatMap_nil, List.append_nil]

/-- What follows the key in the payload of one key with block `0`. -/
abbrev oneBlock (sizes : Bytes) : Bytes := le32 1 ++ (le32 0 ++ sizes)

section OneBlock

variable {sizes : Bytes}

/-- One to three null bytes after a key make the number of blocks a multiple of 256. -/
theorem deserializeEntries_shifted (hsizes : sizes.length = 8) {key : Bytes}
    (hkey : key.length = 50) {n : Nat} (hpos : 1 ≤ n) (hn : n ≤ 3) :
    deserializeEntries (fuel + 1) (key ++ (List.replicate n (0 : UInt8) ++ oneBlock sizes)) m
      = none := by
  obtain ⟨w, hw, tail, htail, heq⟩ : ∃ w : UInt32, 256 ≤ w.toNat ∧ ∃ tail : Bytes,
      tail.length = n + 12 ∧ List.replicate n 0 ++ oneBlock sizes = le32 w ++ tail := by
    obtain rfl | rfl | rfl : n = 1 ∨ n = 2 ∨ n = 3 := by omega
    · exact ⟨256, by decide, 0 :: (le32 0 ++ sizes), by simp [hsizes], rfl⟩
    · exact ⟨65536, by decide, 0 :: 0 :: (le32 0 ++ sizes), by simp [hsizes], rfl⟩
    · exact ⟨16777216, by decide, 0 :: 0 :: 0 :: (le32 0 ++ sizes), by simp [hsizes], rfl⟩
  rw [heq]
  exact deserializeEntries_eq_none hkey (by omega)

/-- A field of null bytes that is decoded to the empty key only. -/
theorem width_of_zeros (hsizes : sizes.length = 8) (n : Nat) :
    ∀ {fuel : Nat} {m : ExtTreeMap Bytes (List UInt32)},
      deserializeEntries fuel (List.replicate n (0 : UInt8) ++ oneBlock sizes) m = some (m', rest) →
      (∀ K ∈ m', K = noKey) → n % 54 = 50 := by
  induction n using Nat.strong_induction_on with
  | _ n ih =>
    intro fuel m h hkeys
    have hlen : (List.replicate n (0 : UInt8) ++ oneBlock sizes).length = n + 16 := by
      simp [hsizes]
    obtain ⟨h50, hfirst⟩ := take_mem_deserializeEntries h (by omega)
    cases fuel with
    | zero =>
        rw [deserializeEntries, if_pos (by omega)] at h
        cases h
    | succ fuel =>
        by_cases hlt : n < 50
        · -- the number of blocks would be part of the key
          have hat := congrArg (fun l : Bytes => l[n]?) (hkeys _ hfirst)
          have hleft : ((List.replicate n (0 : UInt8) ++ oneBlock sizes).take 50)[n]? = some 1 := by
            rw [List.getElem?_take_of_lt hlt, List.getElem?_append_right (by simp)]
            simp [le32]
          have hright : noKey[n]? = some 0 := by
            rw [List.getElem?_replicate, if_pos hlt]
          rw [hleft, hright] at hat
          cases hat
        · obtain ⟨k, rfl⟩ := Nat.exists_eq_add_of_le (Nat.le_of_not_lt hlt)
          rw [List.replicate_add, List.append_assoc] at h
          by_cases hk : 4 ≤ k
          · obtain ⟨j, rfl⟩ := Nat.exists_eq_add_of_le hk
            rw [← List.append_assoc, ← List.replicate_add,
              show 50 + (4 + j) = 54 + j by omega, deserializeEntries_zeros] at h
            have hj := ih j (by omega) h hkeys
            omega
          · by_cases hk0 : k = 0
            · omega
            · rw [deserializeEntries_shifted hsizes List.length_replicate (by omega)
                (by omega)] at h
              cases h

/-- A key decoded from a field wider than 50 bytes is followed by a second one: the null bytes
that pad the field are read as the number of its blocks. -/
theorem width_of_cons (hsizes : sizes.length = 8) {c : UInt8} {key : Bytes}
    (hnul : (0 : UInt8) ∉ c :: key) {n fuel : Nat} {m : ExtTreeMap Bytes (List UInt32)}
    (h : deserializeEntries (fuel + 1) (fixedSize (c :: key) 50
      ++ (List.replicate n (0 : UInt8) ++ oneBlock sizes)) m = some (m', rest))
    (hkeys : ∀ K ∈ m', K = fixedSize (c :: key) 50) : n = 0 := by
  by_contra hne
  by_cases hn : n ≤ 3
  · rw [deserializeEntries_shifted hsizes (fixedSize_length _ _) (by omega) hn] at h
    cases h
  · obtain ⟨j, rfl⟩ := Nat.exists_eq_add_of_le (Nat.lt_of_not_le hn)
    have hentry : fixedSize (c :: key) 50 ++ (List.replicate (3 + 1 + j) 0 ++ oneBlock sizes)
        = entryBytes (fixedSize (c :: key) 50, []) ++ (List.replicate j 0 ++ oneBlock sizes) := by
      rw [List.replicate_add]
      simp only [entryBytes, List.append_assoc]
      rfl
    rw [hentry, deserializeEntries_cons (fixedSize_length _ _) (by simp)] at h
    obtain ⟨h50, hsecond⟩ := take_mem_deserializeEntries h (by simp [hsizes])
    -- the second key starts with a null byte, and the key it would be does not
    have hzero := congrArg (fun l : Bytes => l[0]?) (hkeys _ hsecond)
    rw [List.length_append, List.length_replicate] at h50
    rw [List.getElem?_take_of_lt (by omega),
      List.getElem?_append_left (by simp [hsizes] at h50 ⊢; omega),
      fixedSize_getElem?_of_lt (by simp) (by decide), List.getElem?_replicate,
      if_pos (by simp [hsizes] at h50 ⊢; omega)] at hzero
    exact hnul (List.mem_of_getElem? hzero.symm)

/-- **What a configured width has to be**: a payload of one key, cut to 49 bytes, with one block
is decoded to nothing but the key only if the key is not cut and its field has 50 bytes, or it is
the empty key. -/
theorem width_of_deserialize (hsizes : sizes.length = 8) {key : Bytes} (hnul : (0 : UInt8) ∉ key)
    {L : UInt32} (hle : key.length ≤ L.toNat) (info : SyncInfo)
    (h : deserialize (fixedSize (key.take 49) L ++ oneBlock sizes) = some info)
    (hkeys : ∀ K ∈ info.keyBlockNumMap, K = fixedSize key 50) :
    key.length ≤ 49 ∧ (L.toNat = 50 ∨ (key = [] ∧ L.toNat % 54 = 50)) := by
  have hcut := List.length_take_le 49 key
  have hlen : (fixedSize (key.take 49) L ++ oneBlock sizes).length = L.toNat + 16 := by
    rw [List.length_append, fixedSize_length]
    simp [hsizes]
  simp only [deserialize, Option.bind_eq_bind, Option.bind_eq_some_iff, Option.some.injEq,
    Prod.exists] at h
  obtain ⟨m', rest, hloop, sizeInfo, -, rfl⟩ := h
  dsimp only at hkeys
  obtain ⟨h50, hfirst⟩ := take_mem_deserializeEntries hloop (by omega)
  -- the bytes of the first key decoded
  have hat : ∀ i, i < 50 →
      (fixedSize (key.take 49) L ++ oneBlock sizes)[i]? = (fixedSize key 50)[i]? := by
    intro i hi
    rw [← hkeys _ hfirst, List.getElem?_take_of_lt hi]
  have hwide : 50 ≤ L.toNat := by
    by_contra hlt
    have hlt : L.toNat < 50 := Nat.lt_of_not_le hlt
    -- the number of blocks would be part of the key
    have hnum := hat L.toNat hlt
    rw [List.getElem?_append_right (by rw [fixedSize_length]), fixedSize_length,
      fixedSize_getElem?_of_le hle (show L.toNat < (50 : UInt32).toNat from hlt)] at hnum
    simp [le32] at hnum
  have hshort : key.length ≤ 49 := by
    by_contra hlong
    have hlast := hat 49 (by omega)
    rw [List.getElem?_append_left (by rw [fixedSize_length]; omega),
      fixedSize_getElem?_of_le hcut (by omega),
      fixedSize_getElem?_of_lt (by omega) (by decide)] at hlast
    exact hnul (List.mem_of_getElem? hlast.symm)
  refine ⟨hshort, ?_⟩
  rw [List.take_of_length_le hshort] at hloop hlen
  cases key with
  | nil =>
      have hnull : fixedSize [] L = List.replicate L.toNat 0 := by
        rw [fixedSize, List.take_nil, List.nil_append, List.length_nil, Nat.sub_zero]
      rw [hnull] at hloop
      exact Or.inr ⟨rfl, width_of_zeros hsizes L.toNat hloop hkeys⟩
  | cons c key =>
      refine Or.inl ?_
      rw [fixedSize_append_replicate (by omega) hwide, List.append_assoc] at hloop
      have hfuel : (fixedSize (c :: key) 50 ++ (List.replicate (L.toNat - 50) 0
          ++ oneBlock sizes)).length = (L.toNat + 15) + 1 := by
        rw [List.length_append, fixedSize_length]
        simp [hsizes]
        omega
      rw [hfuel] at hloop
      have hn := width_of_cons hsizes hnul hloop hkeys
      omega

end OneBlock

end SyncInfo

end Payloads

end RackKey
