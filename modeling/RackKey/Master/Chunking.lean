import RackKey.Master.Blocks

set_option autoImplicit false

/-! # When cutting a payload loses nothing

The cutting loop of `putHandler` adds the block size to a 32-bit position until it has passed the
end of the payload. The end of the last block is the payload's length rounded up to whole blocks,
so the loop cuts the payload up exactly when that number is a 32-bit word (`cutsPayload_iff`).
When it is not, the position wraps on the way, and the block cut there has no data
(`data_cutBlock_of_wrap`).
-/

namespace RackKey

open Words Chunks

/-- The payload cut up: the blocks are numbered from zero, all of them but the last are full, none
is empty, and together they are the payload. -/
structure CutUp (dataBlockSize : UInt32) (payload : Bytes) (blocks : List Block) : Prop where
  numbers : blocks.map (fun b => b.blockNum.toNat) = List.range (numBlocks dataBlockSize payload)
  framed : ∀ b ∈ blocks, b.dataSize.toNat = b.data.length
  full : ∀ b ∈ blocks.dropLast, b.data.length = dataBlockSize.toNat
  sizes : ∀ b ∈ blocks, 1 ≤ b.data.length ∧ b.data.length ≤ dataBlockSize.toNat
  data : blocks.flatMap Block.data = payload

namespace MasterServer

/-- The cutting loop ends, and has cut the payload up. -/
def CutsPayload (m : MasterServer) (key payload : Bytes) : Prop :=
  ∃ blocks, (∃ fuel₀, ∀ fuel ≥ fuel₀,
      m.buildBlocks key payload (UInt32.ofNat payload.length) fuel 0 0 = some blocks) ∧
    CutUp m.config.dataBlockSize payload blocks

end MasterServer

theorem cutUp_payloadBlocks {d : UInt32} {payload : Bytes} (h : FitsPayload d payload)
    (key : Bytes) : CutUp d payload (payloadBlocks key d payload) := by
  have hchunked := chunked_payloadBlocks h key
  refine ⟨?_, ?_, ?_, ?_, flatMap_data_payloadBlocks h key⟩
  · rw [payloadBlocks, List.map_map]
    conv_rhs => rw [← List.map_id (List.range (numBlocks d payload))]
    refine List.map_congr_left fun b hb => ?_
    exact h.toNat_blockNum (List.mem_range.mp hb)
  · intro b hb
    exact (hchunked.framed b hb).symm
  · intro b hb
    rw [hchunked.framed b (List.mem_of_mem_dropLast hb), hchunked.full b hb]
  · intro b hb
    refine ⟨?_, ?_⟩
    · -- a block starts before the end of the payload
      obtain ⟨n, hn, rfl⟩ := List.mem_map.mp hb
      have hstart := (lt_numChunks_iff h.pos _ _).mp (List.mem_range.mp hn)
      have hpos := h.pos
      show 1 ≤ (chunk d.toNat payload n).length
      rw [chunk, List.length_take, List.length_drop]
      omega
    · rw [hchunked.framed b hb]
      exact hchunked.le b hb

namespace MasterServer

variable {m : MasterServer} {key payload : Bytes}

/-- A block whose end wraps has no data. -/
theorem data_cutBlock_of_wrap (payloadSize : UInt32) {i : UInt32}
    (hi : 2 ^ 32 ≤ i.toNat + m.config.dataBlockSize.toNat) (blockNum : UInt32) :
    (m.cutBlock key payload payloadSize i blockNum).data = [] := by
  have hd := m.config.dataBlockSize.toNat_lt
  have hlen : (min (i + m.config.dataBlockSize) payloadSize).toNat - i.toNat = 0 := by
    have hi' := i.toNat_lt
    rw [toNat_min, UInt32.toNat_add]
    omega
  rw [cutBlock]
  dsimp only
  rw [hlen, List.take_zero]

/-- A payload whose length, in whole blocks, is no 32-bit word is not cut up: the position wraps
before the end, and leaves an empty block. -/
theorem not_cutsPayload (hd : 1 ≤ m.config.dataBlockSize.toNat)
    (hlong : 2 ^ 32 ≤ numBlocks m.config.dataBlockSize payload * m.config.dataBlockSize.toNat) :
    ¬ m.CutsPayload key payload := by
  rintro ⟨blocks, ⟨fuel, hfuel⟩, hcut⟩
  obtain ⟨-, -, hblocks⟩ := buildBlocks_positions fuel 0 0 (hfuel fuel (Nat.le_refl _))
  have hlen : blocks.length = numBlocks m.config.dataBlockSize payload := by
    rw [← List.length_map, hcut.numbers, List.length_range]
  -- the last position that is reached without wrapping
  set k := (2 ^ 32 - 1) / m.config.dataBlockSize.toNat with hk
  have hle : k * m.config.dataBlockSize.toNat ≤ 2 ^ 32 - 1 := Nat.div_mul_le_self _ _
  have hlt : 2 ^ 32 - 1 < k * m.config.dataBlockSize.toNat + m.config.dataBlockSize.toNat :=
    Nat.lt_div_mul_add hd
  have hkk : k ≤ k * m.config.dataBlockSize.toNat := Nat.le_mul_of_pos_right _ hd
  have hpos : (0 + UInt32.ofNat k * m.config.dataBlockSize).toNat
      = k * m.config.dataBlockSize.toNat := by
    have hk32 : k < 2 ^ 32 := by omega
    rw [UInt32.zero_add, UInt32.toNat_mul, UInt32.toNat_ofNat_of_lt' hk32,
      Nat.mod_eq_of_lt (by omega)]
  have hmore : k < blocks.length := by
    rw [hlen]
    by_contra hc
    have hmul := Nat.mul_le_mul_right m.config.dataBlockSize.toNat (Nat.le_of_not_lt hc)
    omega
  have hmem : m.cutBlock key payload (UInt32.ofNat payload.length)
      (0 + UInt32.ofNat k * m.config.dataBlockSize) (0 + UInt32.ofNat k) ∈ blocks := by
    rw [hblocks]
    exact List.mem_map.mpr ⟨k, List.mem_range.mpr hmore, rfl⟩
  have hsize := (hcut.sizes _ hmem).1
  rw [data_cutBlock_of_wrap _ (by omega), List.length_nil] at hsize
  omega

/-- **When cutting a payload loses nothing**: exactly when the length of the payload, rounded up
to whole blocks, is below `2^32`. -/
theorem cutsPayload_iff (hd : 1 ≤ m.config.dataBlockSize.toNat) (key payload : Bytes) :
    m.CutsPayload key payload ↔
      numBlocks m.config.dataBlockSize payload * m.config.dataBlockSize.toNat < 2 ^ 32 := by
  constructor
  · intro h
    by_contra hlong
    exact not_cutsPayload hd (Nat.le_of_not_lt hlong) h
  · intro hsize
    have hfits : FitsPayload m.config.dataBlockSize payload := ⟨hd, hsize⟩
    refine ⟨_, ⟨numBlocks m.config.dataBlockSize payload, fun fuel hfuel => ?_⟩,
      cutUp_payloadBlocks hfits key⟩
    rw [buildBlocks_eq hfits rfl, if_pos hfuel]

/-! ## The end of the 32-bit range -/

private def masterOf (dataBlockSize : UInt32) : MasterServer :=
  ⟨HashRing.empty, ∅, ∅, ⟨[], 1, 1, dataBlockSize⟩⟩

theorem cutsPayload_iff_small : (masterOf 2).CutsPayload [97] [1, 2, 3, 4, 5] :=
  (cutsPayload_iff (m := masterOf 2) (by decide) [97] [1, 2, 3, 4, 5]).mpr (by decide)

/-- A payload of `2^32 - 1` bytes in blocks of 4096 bytes: the end of the last block wraps to the
start of the payload, and the loop never ends. -/
theorem cutting_never_ends :
    let payload : Bytes := List.replicate (2 ^ 32 - 1) 0
    (∀ fuel, (masterOf 4096).buildBlocks [97] payload (UInt32.ofNat payload.length) fuel 0 0
      = none) ∧
      ¬ (masterOf 4096).CutsPayload [97] payload := by
  intro payload
  have hnone : ∀ fuel, (masterOf 4096).buildBlocks [97] payload (UInt32.ofNat payload.length)
      fuel 0 0 = none := by
    intro fuel
    rw [Option.eq_none_iff_forall_ne_some]
    intro blocks h
    obtain ⟨-, hend, -⟩ := buildBlocks_positions fuel 0 0 h
    -- every position is a multiple of 4096, and so below the payload's length
    refine hend ?_
    rw [UInt32.lt_iff_toNat_lt, List.length_replicate, UInt32.zero_add, UInt32.toNat_mul]
    show (UInt32.ofNat blocks.length).toNat * 4096 % 2 ^ 32 < 4294967295
    omega
  refine ⟨hnone, ?_⟩
  rintro ⟨blocks, ⟨fuel, hfuel⟩, -⟩
  have h := hfuel fuel (Nat.le_refl _)
  rw [hnone] at h
  cases h

end MasterServer

end RackKey
