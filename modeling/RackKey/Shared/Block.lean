import RackKey.Shared.Utils

set_option autoImplicit false

/-! # Data transmission blocks

`Block` and its wire format: a list of blocks travels as the concatenation of
`keySize, key, blockNum, dataSize, data` records. `deserialize_eq_some_iff` says that decoding
and encoding are inverse to each other: what a buffer decodes to are exactly the blocks whose
records it is the concatenation of.
-/

namespace RackKey

open Words

/-- `Block`. The iterator pair [dataStart, dataEnd) is the list of the bytes between; its
length is independent of `dataSize`, as in the source. -/
structure Block where
  key : Bytes
  blockNum : UInt32
  dataSize : UInt32
  data : Bytes
  deriving DecidableEq, Repr

namespace Block

/-- `serialize`: the bytes it appends to the output buffer. -/
def serialize (b : Block) : Bytes :=
  le32 (UInt32.ofNat b.key.length) ++ b.key ++ le32 b.blockNum ++ le32 b.dataSize ++ b.data

/-- The next `n` bytes of a buffer and the rest; `none` when the buffer is shorter. -/
def takeBytes (n : Nat) (bs : Bytes) : Option (Bytes × Bytes) :=
  if n ≤ bs.length then some (bs.take n, bs.drop n) else none

/-- One round of the loop of `deserialize`. -/
def deserializeOne (bs : Bytes) : Option (Block × Bytes) := do
  let (keySize, bs) ← readLe32 bs
  let (key, bs) ← takeBytes keySize.toNat bs
  let (blockNum, bs) ← readLe32 bs
  let (dataSize, bs) ← readLe32 bs
  let (data, bs) ← takeBytes dataSize.toNat bs
  some (⟨key, blockNum, dataSize, data⟩, bs)

/-- The loop of `deserialize`. A round consumes at least 12 bytes, so the length of the buffer
bounds the number of rounds. -/
def deserializeLoop : Nat → Bytes → Option (List Block)
  | _, [] => some []
  | 0, _ :: _ => none
  | fuel + 1, bs => do
      let (block, rest) ← deserializeOne bs
      let blocks ← deserializeLoop fuel rest
      some (block :: blocks)

/-- `deserialize`; `none` when the cursor would step past the end of the buffer, which is
undefined behaviour in the source. -/
def deserialize (inputBuffer : Bytes) : Option (List Block) :=
  deserializeLoop inputBuffer.length inputBuffer

/-- The buffer a list of blocks is sent as. -/
def serializeAll (blocks : List Block) : Bytes := blocks.flatMap serialize

/-- The lengths of the two counted fields are what their size fields say. -/
structure Framed (b : Block) : Prop where
  key : b.key.length < 2 ^ 32
  data : b.data.length = b.dataSize.toNat

theorem takeBytes_append {n : Nat} {as : Bytes} (h : as.length = n) (rest : Bytes) :
    takeBytes n (as ++ rest) = some (as, rest) := by
  unfold takeBytes
  rw [if_pos (by rw [List.length_append]; omega), List.take_left' h, List.drop_left' h]

theorem deserializeOne_append {b : Block} (h : b.Framed) (rest : Bytes) :
    deserializeOne (b.serialize ++ rest) = some (b, rest) := by
  have hkey : (UInt32.ofNat b.key.length).toNat = b.key.length :=
    UInt32.toNat_ofNat_of_lt' h.key
  unfold deserializeOne serialize
  simp only [List.append_assoc, readLe32_append, Option.bind_eq_bind, Option.bind_some, hkey,
    takeBytes_append rfl, takeBytes_append h.data]

theorem serialize_length (b : Block) :
    b.serialize.length = 12 + b.key.length + b.data.length := by
  simp only [serialize, List.length_append, le32_length]
  omega

theorem deserializeLoop_serializeAll {blocks : List Block} (h : ∀ b ∈ blocks, b.Framed) :
    ∀ fuel, (serializeAll blocks).length ≤ fuel →
      deserializeLoop fuel (serializeAll blocks) = some blocks := by
  induction blocks with
  | nil => intro fuel _; cases fuel <;> rfl
  | cons b blocks ih =>
      intro fuel hfuel
      have hcons : serializeAll (b :: blocks) = b.serialize ++ serializeAll blocks :=
        List.flatMap_cons
      have hlen := serialize_length b
      rw [hcons, List.length_append] at hfuel
      have hne : b.serialize ++ serializeAll blocks ≠ [] := by
        intro h0
        have := congrArg List.length h0
        rw [List.length_append, List.length_nil] at this
        omega
      rw [hcons]
      cases fuel with
      | zero => omega
      | succ fuel =>
          obtain ⟨x, xs, hx⟩ := List.exists_cons_of_ne_nil hne
          have hone := deserializeOne_append (h b (by simp)) (serializeAll blocks)
          rw [hx] at hone ⊢
          simp only [deserializeLoop, hone, Option.bind_eq_bind, Option.bind_some,
            ih (fun b' hb' => h b' (by simp [hb'])) fuel (by omega)]

/-- Decoding the concatenated encodings of a list of blocks returns the list. -/
theorem deserialize_serialize {blocks : List Block} (h : ∀ b ∈ blocks, b.Framed) :
    deserialize (serializeAll blocks) = some blocks :=
  deserializeLoop_serializeAll h _ (Nat.le_refl _)

/-! ## Buffers that are decoded -/

theorem eq_append_of_takeBytes {n : Nat} {bs as rest : Bytes}
    (h : takeBytes n bs = some (as, rest)) : bs = as ++ rest ∧ as.length = n := by
  unfold takeBytes at h
  split at h
  · rename_i hle
    obtain ⟨rfl, rfl⟩ := Prod.mk.inj (Option.some.inj h)
    exact ⟨(List.take_append_drop n bs).symm, List.length_take_of_le hle⟩
  · cases h

/-- A round takes the record of the block it returns off the buffer. -/
theorem eq_append_of_deserializeOne {bs rest : Bytes} {b : Block}
    (h : deserializeOne bs = some (b, rest)) : bs = b.serialize ++ rest ∧ b.Framed := by
  unfold deserializeOne at h
  simp only [Option.bind_eq_bind, Option.bind_eq_some_iff, Prod.exists] at h
  obtain ⟨keySize, bs₁, h₁, key, bs₂, h₂, blockNum, bs₃, h₃, hrest⟩ := h
  obtain ⟨dataSize, bs₄, h₄, data, bs₅, h₅, hb⟩ := hrest
  obtain ⟨rfl, rfl⟩ := Prod.mk.inj (Option.some.inj hb)
  obtain ⟨hkey, hkeyLen⟩ := eq_append_of_takeBytes h₂
  obtain ⟨hdata, hdataLen⟩ := eq_append_of_takeBytes h₅
  have hsize : UInt32.ofNat key.length = keySize := by
    rw [hkeyLen, UInt32.ofNat_toNat]
  refine ⟨?_, ?_, hdataLen⟩
  · rw [eq_of_readLe32 h₁, hkey, eq_of_readLe32 h₃, eq_of_readLe32 h₄, hdata]
    simp only [serialize, hsize, List.append_assoc]
  · rw [hkeyLen]
    exact keySize.toNat_lt

/-- The rounds of `deserialize` over a buffer they come to the end of. -/
inductive Decodes : Bytes → List Block → Prop
  | nil : Decodes [] []
  | cons {bs rest : Bytes} {b : Block} {blocks : List Block}
      (round : deserializeOne bs = some (b, rest)) (rounds : Decodes rest blocks) :
      Decodes bs (b :: blocks)

theorem decodes_of_loop :
    ∀ {fuel : Nat} {bs : Bytes} {blocks : List Block},
      deserializeLoop fuel bs = some blocks → Decodes bs blocks
  | fuel, [], blocks, h => by
      cases fuel <;> obtain rfl := Option.some.inj h <;> exact Decodes.nil
  | 0, x :: bs, blocks, h => by cases h
  | fuel + 1, x :: bs, blocks, h => by
      simp only [deserializeLoop, Option.bind_eq_bind, Option.bind_eq_some_iff, Prod.exists] at h
      obtain ⟨b, rest, hround, blocks', hrest, hb⟩ := h
      obtain rfl := Option.some.inj hb
      exact Decodes.cons hround (decodes_of_loop hrest)

/-- The rounds put together are the encoding of the blocks. -/
theorem Decodes.eq_serializeAll {buffer : Bytes} {blocks : List Block} (h : Decodes buffer blocks) :
    buffer = serializeAll blocks ∧ ∀ b ∈ blocks, b.Framed := by
  induction h with
  | nil => exact ⟨rfl, by simp⟩
  | @cons bs rest b blocks hround _ ih =>
      obtain ⟨hbs, hframed⟩ := eq_append_of_deserializeOne hround
      refine ⟨?_, ?_⟩
      · rw [hbs, ih.1]
        exact List.flatMap_cons.symm
      · rintro b' hb'
        rcases List.mem_cons.mp hb' with rfl | hb'
        · exact hframed
        · exact ih.2 b' hb'

/-- **Decoding inverts encoding**, and accepts nothing else. -/
theorem deserialize_eq_some_iff {buffer : Bytes} {blocks : List Block} :
    deserialize buffer = some blocks ↔
      buffer = serializeAll blocks ∧ ∀ b ∈ blocks, b.Framed := by
  constructor
  · exact fun h => (decodes_of_loop h).eq_serializeAll
  · rintro ⟨rfl, hframed⟩
    exact deserialize_serialize hframed

/-- **The wire format of block lists**: lists of blocks with sizes that fit are decoded from
their encoding, and a buffer that the rounds of the decoder come to the end of is the encoding
of the blocks returned. -/
theorem blockList_codec :
    (∀ blocks : List Block,
      (∀ b ∈ blocks, b.key.length < 2 ^ 31 ∧ b.data.length = b.dataSize.toNat) →
        deserialize (serializeAll blocks) = some blocks) ∧
      ∀ (buffer : Bytes) (blocks : List Block), Decodes buffer blocks →
        deserialize buffer = some blocks ∧ serializeAll blocks = buffer := by
  refine ⟨fun blocks h => deserialize_serialize fun b hb => ?_, fun buffer blocks h => ?_⟩
  · obtain ⟨hkey, hdata⟩ := h b hb
    exact ⟨by omega, hdata⟩
  · obtain ⟨hbuffer, hframed⟩ := h.eq_serializeAll
    exact ⟨deserialize_eq_some_iff.mpr ⟨hbuffer, hframed⟩, hbuffer.symm⟩

/-- Two blocks, one of them of a key without bytes, there and back. -/
theorem blockList_codec_sample :
    deserialize (serializeAll [⟨[97, 0], 3, 2, [1, 2]⟩, ⟨[], 0, 0, []⟩])
      = some [⟨[97, 0], 3, 2, [1, 2]⟩, ⟨[], 0, 0, []⟩] :=
  blockList_codec.1 _ (by decide)

end Block

end RackKey
