import Std.Data.ExtTreeMap
import RackKey.Lib.Chunks
import RackKey.Lib.Multimap
import RackKey.Shared.Block

set_option autoImplicit false

/-! # Payloads between master and storage nodes

`SizeInfo`, the list of block numbers of a read request, and `SyncInfo`, the table of a node
that a starting master asks for. `SyncInfo.deserialize_serialize` is the round trip; the
decoder takes 50 bytes for a key whatever the configured key length.
-/

namespace RackKey

open Std Words

namespace Payloads

/-! ## Sizes -/

structure SizeInfo where
  dataUsedSize : UInt32
  dataTotalSize : UInt32
  deriving DecidableEq, Repr

namespace SizeInfo

def serialize (s : SizeInfo) : Bytes := le32 s.dataUsedSize ++ le32 s.dataTotalSize

/-- `deserialize`; `none` when an assertion fails or the buffer is too short. -/
def deserialize (buffer : Bytes) : Option SizeInfo := do
  let (dataUsedSize, buffer) ← readLe32 buffer
  let (dataTotalSize, buffer) ← readLe32 buffer
  if buffer = [] then some ⟨dataUsedSize, dataTotalSize⟩ else none

theorem deserialize_serialize (s : SizeInfo) : deserialize s.serialize = some s := by
  unfold deserialize serialize
  have h := readLe32_append s.dataTotalSize []
  rw [List.append_nil] at h
  simp only [readLe32_append, Option.bind_eq_bind, Option.bind_some, h, if_true]

theorem serialize_length (s : SizeInfo) : s.serialize.length = 8 := rfl

end SizeInfo

/-! ## Block numbers -/

/-- The loop of `StorageServer::getHandler` over the request payload: words until the end of
the buffer. `none` when the last word is cut off. -/
def readBlockNums : Nat → Bytes → Option (List UInt32)
  | _, [] => some []
  | 0, _ :: _ => none
  | fuel + 1, bs => do
      let (blockNum, bs) ← readLe32 bs
      let blockNums ← readBlockNums fuel bs
      some (blockNum :: blockNums)

/-- The request payload of `getBlocks`. -/
def blockNumBytes (blockNums : List UInt32) : Bytes := blockNums.flatMap le32

theorem readBlockNums_blockNumBytes (blockNums : List UInt32) :
    ∀ fuel, (blockNumBytes blockNums).length ≤ fuel →
      readBlockNums fuel (blockNumBytes blockNums) = some blockNums := by
  induction blockNums with
  | nil => intro fuel _; cases fuel <;> rfl
  | cons n ns ih =>
      intro fuel hfuel
      have hcons : blockNumBytes (n :: ns) = le32 n ++ blockNumBytes ns := List.flatMap_cons
      rw [hcons, List.length_append, le32_length] at hfuel
      have hread := readLe32_append n (blockNumBytes ns)
      rw [hcons]
      cases fuel with
      | zero => omega
      | succ fuel =>
          obtain ⟨x, xs, hx⟩ : ∃ x xs, le32 n ++ blockNumBytes ns = x :: xs := ⟨_, _, rfl⟩
          rw [hx] at hread ⊢
          simp only [readBlockNums, hread, Option.bind_eq_bind, Option.bind_some,
            ih fuel (by omega)]

theorem length_blockNumBytes (blockNums : List UInt32) :
    (blockNumBytes blockNums).length = 4 * blockNums.length :=
  Chunks.length_flatMap le32_length blockNums

/-! ## Sync -/

structure SyncInfo where
  keyBlockNumMap : ExtTreeMap Bytes (List UInt32)
  sizeInfo : SizeInfo

namespace SyncInfo

/-- One entry of the table: the key without its length, the number of blocks, the blocks. -/
def entryBytes (p : Bytes × List UInt32) : Bytes :=
  p.1 ++ le32 (UInt32.ofNat p.2.length) ++ blockNumBytes p.2

def serialize (s : SyncInfo) : Bytes :=
  s.keyBlockNumMap.toList.flatMap entryBytes ++ s.sizeInfo.serialize

/-- `numBlocks` words. -/
def readWords : Nat → Bytes → Option (List UInt32 × Bytes)
  | 0, bs => some ([], bs)
  | n + 1, bs => do
      let (w, bs) ← readLe32 bs
      let (ws, bs) ← readWords n bs
      some (w :: ws, bs)

/-- The loop of `deserialize` over the entries: it runs while more than the size info is left. -/
def deserializeEntries : Nat → Bytes → ExtTreeMap Bytes (List UInt32) →
    Option (ExtTreeMap Bytes (List UInt32) × Bytes)
  | 0, bs, keyBlockNumMap => if 8 < bs.length then none else some (keyBlockNumMap, bs)
  | fuel + 1, bs, keyBlockNumMap =>
      if 8 < bs.length then do
        let (key, bs) ← Block.takeBytes 50 bs
        let (numBlocks, bs) ← readLe32 bs
        let (blockNums, bs) ← readWords numBlocks.toNat bs
        deserializeEntries fuel bs (keyBlockNumMap.insert key blockNums)
      else some (keyBlockNumMap, bs)

/-- `deserialize`; `none` when an assertion fails or the buffer is too short. -/
def deserialize (buffer : Bytes) : Option SyncInfo := do
  let (keyBlockNumMap, bs) ← deserializeEntries buffer.length buffer ∅
  let sizeInfo ← SizeInfo.deserialize bs
  some ⟨keyBlockNumMap, sizeInfo⟩

theorem readWords_append (ws : List UInt32) (rest : Bytes) :
    readWords ws.length (blockNumBytes ws ++ rest) = some (ws, rest) := by
  induction ws with
  | nil => rfl
  | cons w ws ih =>
      have hcons : blockNumBytes (w :: ws) = le32 w ++ blockNumBytes ws := List.flatMap_cons
      rw [hcons, List.append_assoc, List.length_cons]
      simp only [readWords, readLe32_append, Option.bind_eq_bind, Option.bind_some, ih]

/-- What `readWords` takes off the front are the bytes of the words it returns. -/
theorem eq_of_readWords :
    ∀ {n : Nat} {bs rest : Bytes} {ws : List UInt32}, readWords n bs = some (ws, rest) →
      ws.length = n ∧ bs = blockNumBytes ws ++ rest
  | 0, bs, rest, ws, h => by
      obtain ⟨rfl, rfl⟩ := Prod.mk.inj (Option.some.inj h)
      exact ⟨rfl, rfl⟩
  | n + 1, bs, rest, ws, h => by
      simp only [readWords, Option.bind_eq_bind, Option.bind_eq_some_iff, Prod.exists] at h
      obtain ⟨w, bs', hw, ws', rest', hws, heq⟩ := h
      obtain ⟨rfl, rfl⟩ := Prod.mk.inj (Option.some.inj heq)
      obtain ⟨hlen, hbs'⟩ := eq_of_readWords hws
      have hcons : blockNumBytes (w :: ws') = le32 w ++ blockNumBytes ws' := List.flatMap_cons
      refine ⟨by rw [List.length_cons, hlen], ?_⟩
      rw [eq_of_readLe32 hw, hbs', hcons, List.append_assoc]

/-- One round of the loop. -/
theorem deserializeEntries_cons {key : Bytes} (hkey : key.length = 50) {nums : List UInt32}
    (hnums : nums.length < 2 ^ 32) (rest : Bytes) (m : ExtTreeMap Bytes (List UInt32))
    (fuel : Nat) :
    deserializeEntries (fuel + 1) (entryBytes (key, nums) ++ rest) m
      = deserializeEntries fuel rest (m.insert key nums) := by
  have hlen : (UInt32.ofNat nums.length).toNat = nums.length :=
    UInt32.toNat_ofNat_of_lt' hnums
  have hbuffer : entryBytes (key, nums) ++ rest
      = key ++ (le32 (UInt32.ofNat nums.length) ++ (blockNumBytes nums ++ rest)) := by
    simp only [entryBytes, List.append_assoc]
  have hmore : 8 < (key ++ (le32 (UInt32.ofNat nums.length)
      ++ (blockNumBytes nums ++ rest))).length := by
    simp only [List.length_append, le32_length]
    omega
  rw [hbuffer, deserializeEntries, if_pos hmore]
  simp only [Block.takeBytes_append hkey, Option.bind_eq_bind, Option.bind_some,
    readLe32_append, hlen, readWords_append]

theorem deserializeEntries_append (rest : Bytes) (hrest : rest.length = 8) :
    ∀ (l : List (Bytes × List UInt32)) (m : ExtTreeMap Bytes (List UInt32)) (fuel : Nat),
      (∀ p ∈ l, p.1.length = 50 ∧ p.2.length < 2 ^ 32) →
      (l.flatMap entryBytes ++ rest).length ≤ fuel →
      deserializeEntries fuel (l.flatMap entryBytes ++ rest) m
        = some (l.foldl (fun m p => m.insert p.1 p.2) m, rest)
  | [], m, fuel, _, _ => by
      -- only the sizes are left, so the loop ends here
      have h8 : ¬ 8 < rest.length := by omega
      cases fuel with
      | zero => simp only [List.flatMap_nil, List.nil_append, deserializeEntries, if_neg h8,
          List.foldl_nil]
      | succ fuel => simp only [List.flatMap_nil, List.nil_append, deserializeEntries, if_neg h8,
          List.foldl_nil]
  | (key, nums) :: l, m, fuel, hl, hfuel => by
      obtain ⟨hkey, hnums⟩ := hl (key, nums) (by simp)
      rw [List.flatMap_cons, List.append_assoc] at hfuel ⊢
      -- each entry takes bytes, so the length of the buffer is fuel enough
      have hentry : 54 ≤ (entryBytes (key, nums)).length := by
        simp only [entryBytes, List.length_append, le32_length]
        dsimp only at hkey
        omega
      rw [List.length_append] at hfuel
      cases fuel with
      | zero => omega
      | succ fuel =>
          rw [deserializeEntries_cons hkey hnums]
          exact deserializeEntries_append rest hrest l (m.insert key nums) fuel
            (fun p hp => hl p (by simp [hp])) (by omega)

/-- The loop over the entries ends at the size info. -/
theorem deserializeEntries_serialize (s : SyncInfo)
    (hkeys : ∀ p ∈ s.keyBlockNumMap.toList, p.1.length = 50 ∧ p.2.length < 2 ^ 32) :
    deserializeEntries s.serialize.length s.serialize ∅
      = some (s.keyBlockNumMap, s.sizeInfo.serialize) := by
  have hloop := deserializeEntries_append s.sizeInfo.serialize s.sizeInfo.serialize_length
    s.keyBlockNumMap.toList ∅ s.serialize.length hkeys (Nat.le_refl _)
  rwa [foldl_insert_toList] at hloop

/-- **The master reads the table the node sent**, for keys of 50 bytes. -/
theorem deserialize_serialize (s : SyncInfo)
    (hkeys : ∀ p ∈ s.keyBlockNumMap.toList, p.1.length = 50 ∧ p.2.length < 2 ^ 32) :
    deserialize s.serialize = some s := by
  unfold deserialize
  rw [deserializeEntries_serialize s hkeys]
  simp only [Option.bind_eq_bind, Option.bind_some, SizeInfo.deserialize_serialize]

/-- **The sync payload**: the loop over the entries stops eight bytes before the end of the
buffer, what is left are the sizes, and the decoder returns the map and the sizes sent. -/
theorem syncInfo_codec (s : SyncInfo)
    (hkeys : ∀ p ∈ s.keyBlockNumMap.toList, p.1.length = 50 ∧ p.2.length < 2 ^ 31) :
    (∃ rest, deserializeEntries s.serialize.length s.serialize ∅ = some (s.keyBlockNumMap, rest) ∧
      rest.length = 8 ∧ SizeInfo.deserialize rest = some s.sizeInfo) ∧
      deserialize s.serialize = some s := by
  have hkeys' : ∀ p ∈ s.keyBlockNumMap.toList, p.1.length = 50 ∧ p.2.length < 2 ^ 32 := by
    intro p hp
    obtain ⟨hkey, hnums⟩ := hkeys p hp
    exact ⟨hkey, by omega⟩
  refine ⟨⟨s.sizeInfo.serialize, ?_, ?_, ?_⟩, ?_⟩
  · exact deserializeEntries_serialize s hkeys'
  · exact s.sizeInfo.serialize_length
  · exact SizeInfo.deserialize_serialize s.sizeInfo
  · exact deserialize_serialize s hkeys'

/-- A key with two blocks and a key with none. -/
private def sampleInfo : SyncInfo :=
  ⟨((∅ : ExtTreeMap Bytes (List UInt32)).insert (List.replicate 50 97) [7, 256]).insert
    (List.replicate 50 0) [], ⟨1, 2⟩⟩

theorem syncInfo_codec_sample : deserialize sampleInfo.serialize = some sampleInfo :=
  (syncInfo_codec sampleInfo (by decide +kernel)).2

end SyncInfo

end Payloads

end RackKey
