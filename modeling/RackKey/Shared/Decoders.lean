import Mathlib.Data.Finset.Dedup
import RackKey.Shared.Payloads

set_option autoImplicit false

/-! # The decoders on arbitrary bytes

None of the decoders compares a length with what is left of its buffer: their loops end when the
cursor meets the end, and a cursor that jumps over it goes on through whatever lies behind. Only
`SyncInfo::deserialize` has assertions, and they come after its loop.

`Safe` is what a server that decodes bytes from the network has to rely on. The main result,
`safe_iff`, says for each of the three decoders on which buffers it holds.
-/

namespace RackKey

open Std Words Chunks Payloads

namespace Decoders

/-- How the run of a decoder ends. -/
inductive Decoded (α : Type) where
  | value (a : α)
  /-- A failed assertion. -/
  | assertion
  /-- The cursor leaves the buffer, or a counter its type. -/
  | undefined

/-- The decoder ends, inside of the buffer, in an error or in a value that encodes to it. The
rounds a decoder is given are no bound as soon as they are as many as the bytes. -/
def Safe {α : Type} (decode : Nat → Bytes → Decoded α) (encodes : α → Bytes → Prop)
    (buffer : Bytes) : Prop :=
  ∃ d, (∀ fuel, buffer.length ≤ fuel → decode fuel buffer = d) ∧
    (d = .assertion ∨ ∃ a, d = .value a ∧ encodes a buffer)

theorem not_safe_of_undefined {α : Type} {decode : Nat → Bytes → Decoded α}
    {encodes : α → Bytes → Prop} {buffer : Bytes}
    (h : decode buffer.length buffer = .undefined) : ¬ Safe decode encodes buffer := by
  rintro ⟨d, hd, hsafe⟩
  rw [hd _ (Nat.le_refl _)] at h
  subst h
  rcases hsafe with h | ⟨a, h, -⟩ <;> cases h

theorem Safe.encodes {α : Type} {decode : Nat → Bytes → Decoded α} {encodes : α → Bytes → Prop}
    {buffer : Bytes} (h : Safe decode encodes buffer) {a : α}
    (ha : decode buffer.length buffer = .value a) : encodes a buffer := by
  obtain ⟨d, hd, hsafe⟩ := h
  rw [hd _ (Nat.le_refl _)] at ha
  subst ha
  rcases hsafe with h | ⟨b, h, hb⟩
  · cases h
  · obtain rfl := Decoded.value.inj h
    exact hb

/-! ## Blocks -/

/-- `Block::deserialize`, for `StorageServer::putHandler` and the master. -/
def decodeBlocks (fuel : Nat) (buffer : Bytes) : Decoded (List Block) :=
  match Block.deserializeLoop fuel buffer with
  | none => .undefined
  | some blocks => .value blocks

/-- Records up to the end: four fields each, the key and the data as long as their sizes say. -/
inductive Records : Bytes → Prop
  | nil : Records []
  | cons {keySize blockNum dataSize : UInt32} {key data rest : Bytes}
      (key_size : key.length = keySize.toNat) (data_size : data.length = dataSize.toNat)
      (records : Records rest) :
      Records (le32 keySize ++ key ++ le32 blockNum ++ le32 dataSize ++ data ++ rest)

theorem records_serializeAll {blocks : List Block} (h : ∀ b ∈ blocks, b.Framed) :
    Records (Block.serializeAll blocks) := by
  induction blocks with
  | nil => exact Records.nil
  | cons b blocks ih =>
      have hb := h b List.mem_cons_self
      have hcons : Block.serializeAll (b :: blocks) = b.serialize ++ Block.serializeAll blocks :=
        List.flatMap_cons
      rw [hcons]
      exact Records.cons (UInt32.toNat_ofNat_of_lt' hb.key).symm hb.data
        (ih fun b' hb' => h b' (List.mem_cons_of_mem b hb'))

theorem Records.exists_blocks {buffer : Bytes} (h : Records buffer) :
    ∃ blocks : List Block, Block.serializeAll blocks = buffer ∧ ∀ b ∈ blocks, b.Framed := by
  induction h with
  | nil => exact ⟨[], rfl, by simp⟩
  | @cons keySize blockNum dataSize key data rest key_size data_size _ ih =>
      obtain ⟨blocks, rfl, hframed⟩ := ih
      refine ⟨⟨key, blockNum, dataSize, data⟩ :: blocks, ?_, ?_⟩
      · have hsize : UInt32.ofNat key.length = keySize := by rw [key_size, UInt32.ofNat_toNat]
        rw [Block.serializeAll, List.flatMap_cons]
        simp only [Block.serialize, hsize]
        rfl
      · rintro b hb
        rcases List.mem_cons.mp hb with rfl | hb
        · exact ⟨by rw [key_size]; exact keySize.toNat_lt, data_size⟩
        · exact hframed b hb

theorem decodeBlocks_safe_iff (buffer : Bytes) :
    Safe decodeBlocks (fun blocks bs => Block.serializeAll blocks = bs) buffer ↔
      Records buffer := by
  constructor
  · intro h
    cases hloop : Block.deserializeLoop buffer.length buffer with
    | none =>
        have hrun : decodeBlocks buffer.length buffer = .undefined := by rw [decodeBlocks, hloop]
        exact absurd h (not_safe_of_undefined hrun)
    | some blocks =>
        obtain ⟨rfl, hframed⟩ := (Block.decodes_of_loop hloop).eq_serializeAll
        exact records_serializeAll hframed
  · intro h
    obtain ⟨blocks, rfl, hframed⟩ := h.exists_blocks
    refine ⟨.value blocks, fun fuel hfuel => ?_, Or.inr ⟨blocks, rfl, rfl⟩⟩
    rw [decodeBlocks, Block.deserializeLoop_serializeAll hframed fuel hfuel]

/-! ## Block numbers -/

/-- The loop of `StorageServer::getHandler`; the numbers go into an unordered set. -/
def decodeBlockNums (fuel : Nat) (buffer : Bytes) : Decoded (Finset UInt32) :=
  match readBlockNums fuel buffer with
  | none => .undefined
  | some blockNums => .value blockNums.toFinset

theorem le32_injective : Function.Injective le32 := by
  intro x y h
  have hx := readLe32_append x []
  rw [h, readLe32_append] at hx
  exact (congrArg Prod.fst (Option.some.inj hx)).symm

theorem exists_blockNumBytes :
    ∀ {n : Nat} {buffer : Bytes}, buffer.length = 4 * n →
      ∃ blockNums, blockNumBytes blockNums = buffer
  | 0, buffer, h => ⟨[], (List.eq_nil_of_length_eq_zero h).symm⟩
  | n + 1, buffer, h => by
      obtain ⟨x, hx⟩ := exists_le32 buffer (by omega)
      have hdrop : (buffer.drop 4).length = 4 * n := by
        rw [List.length_drop]
        omega
      obtain ⟨ns, hns⟩ := exists_blockNumBytes hdrop
      refine ⟨x :: ns, ?_⟩
      rw [hx, ← hns]
      exact List.flatMap_cons

theorem chunk_blockNumBytes {blockNums : List UInt32} {i : Nat} (hi : i < blockNums.length) :
    chunk 4 (blockNumBytes blockNums) i = le32 blockNums[i] :=
  chunk_flatMap le32_length hi

/-- The words at different places of a payload differ. -/
def DistinctWords (buffer : Bytes) : Prop :=
  ∀ i j, i < j → j * 4 < buffer.length → chunk 4 buffer i ≠ chunk 4 buffer j

theorem distinctWords_iff (blockNums : List UInt32) :
    DistinctWords (blockNumBytes blockNums) ↔ blockNums.Nodup := by
  unfold DistinctWords
  rw [List.nodup_iff_pairwise_ne, List.pairwise_iff_getElem, length_blockNumBytes]
  constructor
  · intro h i j hi hj hij heq
    refine h i j hij (by omega) ?_
    rw [chunk_blockNumBytes hi, chunk_blockNumBytes hj, heq]
  · intro h i j hij hj heq
    have hj' : j < blockNums.length := by omega
    have hi' : i < blockNums.length := by omega
    rw [chunk_blockNumBytes hi', chunk_blockNumBytes hj'] at heq
    exact h i j hi' hj' hij (le32_injective heq)

/-- The set is sent as its elements in some order. -/
def EncodesBlockNums (blockNums : Finset UInt32) (buffer : Bytes) : Prop :=
  ∃ l : List UInt32, l.Nodup ∧ l.toFinset = blockNums ∧ blockNumBytes l = buffer

theorem decodeBlockNums_safe_iff (buffer : Bytes) :
    Safe decodeBlockNums EncodesBlockNums buffer ↔
      4 ∣ buffer.length ∧ DistinctWords buffer := by
  constructor
  · rintro ⟨d, hd, hsafe⟩
    obtain ⟨ns, hn, rfl⟩ : ∃ ns : List UInt32, ns.Nodup ∧ blockNumBytes ns = buffer := by
      rcases hsafe with rfl | ⟨s, -, l, hn, -, hl⟩
      · have hrun := hd _ (Nat.le_refl _)
        unfold decodeBlockNums at hrun
        split at hrun <;> cases hrun
      · exact ⟨l, hn, hl⟩
    rw [length_blockNumBytes, distinctWords_iff]
    exact ⟨⟨_, rfl⟩, hn⟩
  · rintro ⟨⟨n, hn⟩, hdistinct⟩
    obtain ⟨ns, rfl⟩ := exists_blockNumBytes hn
    rw [distinctWords_iff] at hdistinct
    refine ⟨.value ns.toFinset, fun fuel hfuel => ?_,
      Or.inr ⟨_, rfl, ns, hdistinct, rfl, rfl⟩⟩
    rw [decodeBlockNums, readBlockNums_blockNumBytes ns fuel hfuel]

/-! ## Sync -/

/-- The loop of `SyncInfo::deserialize` over the entries, with the counter of its inner loop as
it is declared: an `int`, which overflows before it comes to a number of blocks from 2^31 on. -/
def decodeEntries : Nat → Bytes → ExtTreeMap Bytes (List UInt32) →
    Option (ExtTreeMap Bytes (List UInt32) × Bytes)
  | 0, bs, keyBlockNumMap => if 8 < bs.length then none else some (keyBlockNumMap, bs)
  | fuel + 1, bs, keyBlockNumMap =>
      if 8 < bs.length then do
        let (key, bs) ← Block.takeBytes 50 bs
        let (numBlocks, bs) ← readLe32 bs
        let (blockNums, bs) ← SyncInfo.readWords numBlocks.toNat bs
        if numBlocks.toNat < 2 ^ 31 then
          decodeEntries fuel bs (keyBlockNumMap.insert key blockNums)
        else none
      else some (keyBlockNumMap, bs)

/-- `SyncInfo::deserialize`. The end of its loop, eight bytes before the end of the buffer, is
outside of a shorter one. -/
def decodeSyncInfo (fuel : Nat) (buffer : Bytes) : Decoded SyncInfo :=
  if buffer.length < 8 then .undefined
  else
    match decodeEntries fuel buffer ∅ with
    | none => .undefined
    | some (keyBlockNumMap, bs) =>
        if bs.length = 8 then
          match SizeInfo.deserialize bs with
          | none => .assertion
          | some sizeInfo => .value ⟨keyBlockNumMap, sizeInfo⟩
        else .assertion

/-- An entry that the loop takes in one round. -/
structure Readable (p : Bytes × List UInt32) : Prop where
  key : p.1.length = 50
  nums : p.2.length < 2 ^ 31

/-- One round of the loop. -/
theorem decodeEntries_cons {p : Bytes × List UInt32} (hp : Readable p) (rest : Bytes)
    (m : ExtTreeMap Bytes (List UInt32)) (fuel : Nat) :
    decodeEntries (fuel + 1) (SyncInfo.entryBytes p ++ rest) m
      = decodeEntries fuel rest (m.insert p.1 p.2) := by
  obtain ⟨key, nums⟩ := p
  obtain ⟨hkey, hnums⟩ := hp
  have hlen : (UInt32.ofNat nums.length).toNat = nums.length :=
    UInt32.toNat_ofNat_of_lt' (by
      dsimp only at hnums
      have hpow : UInt32.size = 2 ^ 32 := rfl
      omega)
  have hbuffer : SyncInfo.entryBytes (key, nums) ++ rest
      = key ++ (le32 (UInt32.ofNat nums.length) ++ (blockNumBytes nums ++ rest)) := by
    simp only [SyncInfo.entryBytes, List.append_assoc]
  have hmore : 8 < (key ++ (le32 (UInt32.ofNat nums.length)
      ++ (blockNumBytes nums ++ rest))).length := by
    simp only [List.length_append, le32_length]
    dsimp only at hkey
    omega
  rw [hbuffer, decodeEntries, if_pos hmore]
  simp only [Block.takeBytes_append hkey, Option.bind_eq_bind, Option.bind_some,
    readLe32_append, hlen, SyncInfo.readWords_append, if_pos hnums]

/-- The loop over entries, with less than another entry behind them. -/
theorem decodeEntries_append {rest : Bytes} (hrest : rest.length ≤ 8) :
    ∀ {l : List (Bytes × List UInt32)} (m : ExtTreeMap Bytes (List UInt32)) (fuel : Nat),
      (∀ p ∈ l, Readable p) → (l.flatMap SyncInfo.entryBytes ++ rest).length ≤ fuel →
      decodeEntries fuel (l.flatMap SyncInfo.entryBytes ++ rest) m
        = some (l.foldl (fun m p => m.insert p.1 p.2) m, rest)
  | [], m, fuel, _, _ => by
      have h8 : ¬ 8 < rest.length := by omega
      cases fuel <;> simp only [List.flatMap_nil, List.nil_append, decodeEntries, if_neg h8,
        List.foldl_nil]
  | p :: l, m, fuel, hl, hfuel => by
      have hp := hl p List.mem_cons_self
      rw [List.flatMap_cons, List.append_assoc] at hfuel ⊢
      -- each entry takes bytes, so the length of the buffer is fuel enough
      have hentry : 50 ≤ (SyncInfo.entryBytes p).length := by
        have hkey := hp.key
        simp only [SyncInfo.entryBytes, List.length_append, le32_length]
        omega
      rw [List.length_append] at hfuel
      cases fuel with
      | zero => omega
      | succ fuel =>
          rw [decodeEntries_cons hp]
          exact decodeEntries_append hrest (m.insert p.1 p.2) fuel
            (fun q hq => hl q (List.mem_cons_of_mem p hq)) (by omega)

/-- The bytes that the loop takes are those of the entries it inserts. -/
theorem eq_of_decodeEntries {fuel : Nat} {bs rest : Bytes}
    {m m' : ExtTreeMap Bytes (List UInt32)} (h : decodeEntries fuel bs m = some (m', rest)) :
    rest.length ≤ 8 ∧ ∃ l : List (Bytes × List UInt32), (∀ p ∈ l, Readable p) ∧
      bs = l.flatMap SyncInfo.entryBytes ++ rest ∧
        m' = l.foldl (fun m p => m.insert p.1 p.2) m := by
  induction fuel generalizing bs m with
  | zero =>
      unfold decodeEntries at h
      split at h
      · cases h
      · rename_i hmore
        obtain ⟨rfl, rfl⟩ := Prod.mk.inj (Option.some.inj h)
        exact ⟨by omega, [], by simp, rfl, rfl⟩
  | succ fuel ih =>
      unfold decodeEntries at h
      split at h
      · simp only [Option.bind_eq_bind, Option.bind_eq_some_iff, Prod.exists] at h
        obtain ⟨key, bs₁, h₁, numBlocks, bs₂, h₂, nums, bs₃, h₃, hnext⟩ := h
        split at hnext
        · rename_i hnum
          obtain ⟨hrest, l, hl, hbs, hm⟩ := ih hnext
          obtain ⟨hkey, hkeyLen⟩ := Block.eq_append_of_takeBytes h₁
          obtain ⟨hlen, hnums⟩ := SyncInfo.eq_of_readWords h₃
          have hsize : UInt32.ofNat nums.length = numBlocks := by rw [hlen, UInt32.ofNat_toNat]
          refine ⟨hrest, (key, nums) :: l, ?_, ?_, hm⟩
          · rintro p hp
            rcases List.mem_cons.mp hp with rfl | hp
            · exact ⟨hkeyLen, by rw [hlen]; exact hnum⟩
            · exact hl p hp
          · rw [hkey, eq_of_readLe32 h₂, hnums, hbs, List.flatMap_cons]
            simp only [SyncInfo.entryBytes, hsize, List.append_assoc]
        · cases hnext
      · rename_i hmore
        obtain ⟨rfl, rfl⟩ := Prod.mk.inj (Option.some.inj h)
        exact ⟨by omega, [], by simp, rfl, rfl⟩

/-- Entries of 50 byte keys and less than another entry behind them; where exactly the sizes are
left behind them, the keys ascend. -/
structure Entries (buffer : Bytes) (l : List (Bytes × List UInt32)) (rest : Bytes) : Prop where
  bytes : buffer = l.flatMap SyncInfo.entryBytes ++ rest
  readable : ∀ p ∈ l, Readable p
  left : rest.length ≤ 8
  ascending : rest.length = 8 → l.Pairwise fun p q => compare p.1 q.1 = .lt

theorem decodeSyncInfo_eq {fuel : Nat} {buffer rest : Bytes}
    {m : ExtTreeMap Bytes (List UInt32)} (hlen : ¬ buffer.length < 8)
    (hloop : decodeEntries fuel buffer ∅ = some (m, rest)) :
    decodeSyncInfo fuel buffer =
      if rest.length = 8 then
        match SizeInfo.deserialize rest with
        | none => .assertion
        | some sizeInfo => .value ⟨m, sizeInfo⟩
      else .assertion := by
  rw [decodeSyncInfo, if_neg hlen, hloop]

/-- Eight bytes are sizes. -/
theorem exists_sizeInfo {bs : Bytes} (h : bs.length = 8) :
    ∃ sizeInfo : SizeInfo, SizeInfo.deserialize bs = some sizeInfo ∧ sizeInfo.serialize = bs := by
  obtain ⟨x, y, hbs⟩ := exists_two_le32 bs h
  exact ⟨⟨x, y⟩, hbs ▸ SizeInfo.deserialize_serialize ⟨x, y⟩, hbs.symm⟩

/-- The table a value was decoded into, taken as the entries of the buffer. -/
theorem entries_of_serialize {buffer : Bytes} {l : List (Bytes × List UInt32)}
    {sizeInfo : SizeInfo} (hl : ∀ p ∈ l, Readable p)
    (hbytes : SyncInfo.serialize ⟨l.foldl (fun m p => m.insert p.1 p.2) ∅, sizeInfo⟩ = buffer) :
    Entries buffer (l.foldl (fun m p => m.insert p.1 p.2)
      (∅ : ExtTreeMap Bytes (List UInt32))).toList sizeInfo.serialize := by
  refine ⟨hbytes.symm, ?_, by rw [SizeInfo.serialize_length], fun _ => ?_⟩
  · rintro ⟨key, nums⟩ hp
    rw [ExtTreeMap.mem_toList_iff_getElem?_eq_some] at hp
    rcases mem_of_getElem?_foldl_insert hp with hmem | hnone
    · exact hl _ hmem
    · simp at hnone
  · exact ExtTreeMap.ordered_keys_toList

theorem decodeSyncInfo_safe_iff (buffer : Bytes) :
    Safe decodeSyncInfo (fun s bs => s.serialize = bs) buffer ↔
      8 ≤ buffer.length ∧ ∃ l rest, Entries buffer l rest := by
  constructor
  · intro h
    by_cases hlen : buffer.length < 8
    · have hrun : decodeSyncInfo buffer.length buffer = .undefined := by
        rw [decodeSyncInfo, if_pos hlen]
      exact absurd h (not_safe_of_undefined hrun)
    · refine ⟨by omega, ?_⟩
      cases hloop : decodeEntries buffer.length buffer ∅ with
      | none =>
          have hrun : decodeSyncInfo buffer.length buffer = .undefined := by
            rw [decodeSyncInfo, if_neg hlen, hloop]
          exact absurd h (not_safe_of_undefined hrun)
      | some p =>
          obtain ⟨m, rest⟩ := p
          obtain ⟨hrest, l, hl, hbytes, rfl⟩ := eq_of_decodeEntries hloop
          by_cases h8 : rest.length = 8
          · obtain ⟨sizeInfo, hsizes, -⟩ := exists_sizeInfo h8
            have hrun := decodeSyncInfo_eq hlen hloop
            rw [if_pos h8, hsizes] at hrun
            exact ⟨_, _, entries_of_serialize hl (h.encodes hrun)⟩
          · exact ⟨l, rest, hbytes, hl, hrest, fun h => absurd h h8⟩
  · rintro ⟨hlen, l, rest, h⟩
    have hbytes := h.bytes
    have hrun := fun fuel (hfuel : buffer.length ≤ fuel) => decodeSyncInfo_eq
      (Nat.not_lt.mpr hlen)
      (hbytes ▸ decodeEntries_append h.left ∅ fuel h.readable (hbytes ▸ hfuel))
    refine ⟨_, hrun, ?_⟩
    by_cases h8 : rest.length = 8
    · obtain ⟨sizeInfo, hsizes, hrest⟩ := exists_sizeInfo h8
      rw [if_pos h8, hsizes]
      refine Or.inr ⟨_, rfl, ?_⟩
      dsimp only [SyncInfo.serialize]
      rw [toList_foldl_insert (h.ascending h8), hrest]
      exact h.bytes.symm
    · rw [if_neg h8]
      exact Or.inl rfl

/-! ## All three -/

/-- **When the decoders are safe**: the block decoder on sequences of whole records and on no
other buffer, the loop over block numbers on whole words that are pairwise different, the sync
decoder on entries of 50 byte keys with less than an entry behind them, ascending where the
sizes follow. -/
theorem safe_iff (buffer : Bytes) :
    (Safe decodeBlocks (fun blocks bs => Block.serializeAll blocks = bs) buffer ↔
      Records buffer) ∧
    (Safe decodeBlockNums EncodesBlockNums buffer ↔ 4 ∣ buffer.length ∧ DistinctWords buffer) ∧
    (Safe decodeSyncInfo (fun s bs => s.serialize = bs) buffer ↔
      8 ≤ buffer.length ∧ ∃ l rest, Entries buffer l rest) :=
  ⟨decodeBlocks_safe_iff buffer, decodeBlockNums_safe_iff buffer, decodeSyncInfo_safe_iff buffer⟩

/-- Nine null bytes, which all three read past: the size of a block's data and the third word
have one byte left, a key of the sync payload has nine. -/
theorem nine_bytes_unsafe :
    ¬ Safe decodeBlocks (fun blocks bs => Block.serializeAll blocks = bs) (List.replicate 9 0) ∧
      ¬ Safe decodeBlockNums EncodesBlockNums (List.replicate 9 0) ∧
      ¬ Safe decodeSyncInfo (fun s bs => s.serialize = bs) (List.replicate 9 0) :=
  ⟨not_safe_of_undefined rfl, not_safe_of_undefined rfl, not_safe_of_undefined rfl⟩

end Decoders

end RackKey
