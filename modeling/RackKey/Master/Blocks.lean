import Mathlib.Data.Finset.Card
import RackKey.Lib.Chunks
import RackKey.Master.Server

set_option autoImplicit false

/-! # The blocks of a payload

`payloadBlocks` is what the cutting loop of `putHandler` computes when its 32-bit position does
not wrap (`buildBlocks_eq`): blocks numbered from zero, all but the last full, whose data is
the payload. Whether it wraps or not, the blocks have distinct numbers (`nodup_buildBlocks`).
-/

namespace RackKey

open Words Chunks

/-- Block `b` of a payload. -/
def blockOf (key : Bytes) (dataBlockSize : UInt32) (payload : Bytes) (b : Nat) : Block :=
  let data := chunk dataBlockSize.toNat payload b
  ⟨key, UInt32.ofNat b, UInt32.ofNat data.length, data⟩

def numBlocks (dataBlockSize : UInt32) (payload : Bytes) : Nat :=
  numChunks dataBlockSize.toNat payload.length

def payloadBlocks (key : Bytes) (dataBlockSize : UInt32) (payload : Bytes) : List Block :=
  (List.range (numBlocks dataBlockSize payload)).map (blockOf key dataBlockSize payload)

/-- The sizes at which the positions of the cutting loop do not wrap. -/
structure FitsPayload (dataBlockSize : UInt32) (payload : Bytes) : Prop where
  pos : 1 ≤ dataBlockSize.toNat
  size : numBlocks dataBlockSize payload * dataBlockSize.toNat < 2 ^ 32

theorem FitsPayload.of_le {d : UInt32} {payload : Bytes} (hpos : 1 ≤ d.toNat)
    (hsize : payload.length + d.toNat ≤ 2 ^ 32) : FitsPayload d payload := by
  refine ⟨hpos, ?_⟩
  have hdiv := Nat.div_mul_le_self (payload.length + d.toNat - 1) d.toNat
  show (payload.length + d.toNat - 1) / d.toNat * d.toNat < 2 ^ 32
  omega

section Blocks

variable {d : UInt32} {payload : Bytes} (h : FitsPayload d payload)

include h

theorem FitsPayload.numBlocks_lt : numBlocks d payload < 2 ^ 32 :=
  Nat.lt_of_le_of_lt (Nat.le_mul_of_pos_right _ h.pos) h.size

theorem FitsPayload.length_lt : payload.length < 2 ^ 32 :=
  Nat.lt_of_le_of_lt (le_numChunks_mul h.pos payload.length) h.size

/-- The end of a block is a 32-bit position. -/
theorem FitsPayload.end_lt {b : Nat} (hb : b < numBlocks d payload) : (b + 1) * d.toNat < 2 ^ 32 :=
  Nat.lt_of_le_of_lt (Nat.mul_le_mul_right _ hb) h.size

theorem FitsPayload.toNat_blockNum {b : Nat} (hb : b < numBlocks d payload) :
    (UInt32.ofNat b).toNat = b :=
  UInt32.toNat_ofNat_of_lt' (Nat.lt_trans hb h.numBlocks_lt)

/-- A position at which block `b` would start lies in the payload exactly when there is such a
block. -/
theorem FitsPayload.start_lt_iff {b : Nat} {i : UInt32} (hi : i.toNat = b * d.toNat) :
    i < UInt32.ofNat payload.length ↔ b < numBlocks d payload := by
  rw [UInt32.lt_iff_toNat_lt, hi, UInt32.toNat_ofNat_of_lt' h.length_lt, numBlocks,
    lt_numChunks_iff h.pos]

/-- **One round of the cutting loop**: the next position does not wrap, and the block ends with
the payload at the latest. -/
theorem FitsPayload.round {b : Nat} {i : UInt32} (hi : i.toNat = b * d.toNat)
    (hb : b < numBlocks d payload) (key : Bytes) :
    let blockEnd := min (i + d) (UInt32.ofNat payload.length)
    (i + d).toNat = (b + 1) * d.toNat ∧
      (⟨key, UInt32.ofNat b, blockEnd - i,
          (payload.drop i.toNat).take (blockEnd.toNat - i.toNat)⟩ : Block)
        = blockOf key d payload b := by
  have hstart : b * d.toNat < payload.length := (lt_numChunks_iff h.pos _ _).mp hb
  have hwrap := h.end_lt hb
  rw [Nat.succ_mul] at hwrap
  have hnext : (i + d).toNat = (b + 1) * d.toNat := by
    rw [UInt32.toNat_add, hi, Nat.succ_mul]
    omega
  dsimp only
  set blockEnd := min (i + d) (UInt32.ofNat payload.length) with hend
  have hblockEnd : blockEnd.toNat = min ((b + 1) * d.toNat) payload.length := by
    rw [hend, toNat_min_ofNat _ h.length_lt, hnext]
  have hle : i ≤ blockEnd := by
    rw [UInt32.le_iff_toNat_le, hi, hblockEnd, Nat.succ_mul]
    omega
  have hsize : (blockEnd - i).toNat = (chunk d.toNat payload b).length := by
    rw [UInt32.toNat_sub_of_le _ _ hle, hblockEnd, hi, chunk, List.length_take, List.length_drop,
      Nat.succ_mul]
    omega
  have hdata : (payload.drop i.toNat).take (blockEnd.toNat - i.toNat)
      = chunk d.toNat payload b := by
    rw [← UInt32.toNat_sub_of_le _ _ hle, hsize, hi, chunk, List.length_take,
      List.take_eq_take_iff, List.length_drop]
    omega
  refine ⟨hnext, ?_⟩
  rw [hdata, blockOf, ← hsize, UInt32.ofNat_toNat]

/-- The cutting loop, from the start of block `b` on. -/
theorem buildBlocks_from {m : MasterServer} (hm : m.config.dataBlockSize = d) (key : Bytes) :
    ∀ (fuel b : Nat) (i : UInt32), i.toNat = b * d.toNat → b ≤ numBlocks d payload →
      m.buildBlocks key payload (UInt32.ofNat payload.length) fuel i (UInt32.ofNat b)
        = if numBlocks d payload - b ≤ fuel then
            some ((List.range' b (numBlocks d payload - b)).map (blockOf key d payload))
          else none := by
  -- the loop ends when there is no block left
  have hdone : ∀ (fuel b : Nat) (i : UInt32), ¬ i < UInt32.ofNat payload.length →
      numBlocks d payload ≤ b →
      m.buildBlocks key payload (UInt32.ofNat payload.length) fuel i (UInt32.ofNat b)
        = if numBlocks d payload - b ≤ fuel then
            some ((List.range' b (numBlocks d payload - b)).map (blockOf key d payload))
          else none := by
    intro fuel b i hi hb
    rw [Nat.sub_eq_zero_of_le hb, if_pos (Nat.zero_le _)]
    cases fuel with
    | zero => rw [MasterServer.buildBlocks, if_neg hi]; rfl
    | succ fuel => rw [MasterServer.buildBlocks, if_neg hi]; rfl
  intro fuel
  induction fuel with
  | zero =>
      intro b i hi hb
      have hlt := h.start_lt_iff hi
      by_cases hmore : b < numBlocks d payload
      · rw [MasterServer.buildBlocks, if_pos (hlt.mpr hmore), if_neg (by omega)]
      · exact hdone 0 b i (fun hc => hmore (hlt.mp hc)) (by omega)
  | succ fuel ih =>
      intro b i hi hb
      have hlt := h.start_lt_iff hi
      by_cases hmore : b < numBlocks d payload
      · obtain ⟨hnext, hblock⟩ := h.round hi hmore key
        have hcnt : UInt32.ofNat b + 1 = UInt32.ofNat (b + 1) := by
          rw [UInt32.ofNat_add]
          rfl
        have hrange : List.range' b (numBlocks d payload - b)
            = b :: List.range' (b + 1) (numBlocks d payload - (b + 1)) := by
          rw [show numBlocks d payload - b = numBlocks d payload - (b + 1) + 1 by omega,
            List.range'_succ]
        rw [MasterServer.buildBlocks, if_pos (hlt.mpr hmore), hm]
        dsimp only
        rw [hblock, hcnt, ih (b + 1) (i + d) hnext hmore, hrange, List.map_cons]
        by_cases hfuel : numBlocks d payload - b ≤ fuel + 1
        · rw [if_pos hfuel, if_pos (by omega)]
          rfl
        · rw [if_neg hfuel, if_neg (by omega)]
          rfl
      · exact hdone (fuel + 1) b i (fun hc => hmore (hlt.mp hc)) (by omega)

/-- **The cutting loop computes the blocks of the payload**, given a round for each of them. -/
theorem buildBlocks_eq {m : MasterServer} (hm : m.config.dataBlockSize = d) (key : Bytes)
    (fuel : Nat) :
    m.buildBlocks key payload (UInt32.ofNat payload.length) fuel 0 0
      = if numBlocks d payload ≤ fuel then some (payloadBlocks key d payload) else none := by
  have hloop := buildBlocks_from h hm key fuel 0 0 (by simp) (Nat.zero_le _)
  rw [Nat.sub_zero, ← List.range_eq_range'] at hloop
  exact hloop

theorem mem_payloadBlocks {key : Bytes} {block : Block} (hb : block ∈ payloadBlocks key d payload) :
    block.blockNum.toNat < numBlocks d payload ∧
      block = blockOf key d payload block.blockNum.toNat := by
  obtain ⟨b, hr, rfl⟩ := List.mem_map.mp hb
  have hnum : (blockOf key d payload b).blockNum.toNat = b :=
    h.toNat_blockNum (List.mem_range.mp hr)
  rw [hnum]
  exact ⟨List.mem_range.mp hr, rfl⟩

omit h in
theorem map_blockNum_payloadBlocks (key : Bytes) :
    (payloadBlocks key d payload).map Block.blockNum
      = (List.range (numBlocks d payload)).map UInt32.ofNat := by
  rw [payloadBlocks, List.map_map]
  rfl

theorem nodup_payloadBlocks (key : Bytes) :
    ((payloadBlocks key d payload).map Block.blockNum).Nodup := by
  rw [map_blockNum_payloadBlocks]
  refine List.nodup_range.map_on fun b hb b' hb' he => ?_
  rw [← h.toNat_blockNum (List.mem_range.mp hb), he, h.toNat_blockNum (List.mem_range.mp hb')]

/-- **The blocks put together are the payload.** -/
theorem flatMap_data_payloadBlocks (key : Bytes) :
    (payloadBlocks key d payload).flatMap Block.data = payload := by
  rw [payloadBlocks, List.flatMap_map]
  exact flatMap_chunk h.pos payload

/-- All blocks but the last are full. -/
theorem chunked_payloadBlocks (key : Bytes) : Chunked d (payloadBlocks key d payload) := by
  have hsize : ∀ b, (blockOf key d payload b).dataSize.toNat
      = (chunk d.toNat payload b).length := by
    intro b
    have hle := length_chunk_le d.toNat payload b
    exact UInt32.toNat_ofNat_of_lt' (Nat.lt_of_le_of_lt hle (UInt32.toNat_lt d))
  refine ⟨?_, ?_, ?_⟩
  · intro block hb
    obtain ⟨b, -, rfl⟩ := List.mem_map.mp hb
    exact (hsize b).symm
  · intro block hb
    rw [payloadBlocks, ← List.map_dropLast] at hb
    obtain ⟨b, hr, rfl⟩ := List.mem_map.mp hb
    have hlast : b + 1 < numBlocks d payload := by
      obtain ⟨i, hi, rfl⟩ := List.getElem_of_mem hr
      simp only [List.length_dropLast, List.length_range] at hi
      simp only [List.getElem_dropLast, List.getElem_range]
      omega
    apply UInt32.toNat_inj.mp
    rw [hsize, length_chunk h.pos hlast]
  · intro block hb
    obtain ⟨b, -, rfl⟩ := List.mem_map.mp hb
    rw [hsize]
    exact length_chunk_le _ _ _

end Blocks

/-! ## Any sizes -/

namespace MasterServer

variable {m : MasterServer} {key payload : Bytes} {payloadSize : UInt32}

/-- The block that the cutting loop makes at position `i`. -/
def cutBlock (m : MasterServer) (key payload : Bytes) (payloadSize i blockNum : UInt32) : Block :=
  let blockEnd := min (i + m.config.dataBlockSize) payloadSize
  ⟨key, blockNum, blockEnd - i, (payload.drop i.toNat).take (blockEnd.toNat - i.toNat)⟩

/-- The positions of the cutting loop are below the payload size until it ends, and a block is
made at each of them. -/
theorem buildBlocks_positions :
    ∀ (fuel : Nat) (i blockCnt : UInt32) {blocks : List Block},
      m.buildBlocks key payload payloadSize fuel i blockCnt = some blocks →
      (∀ k < blocks.length, i + UInt32.ofNat k * m.config.dataBlockSize < payloadSize) ∧
        ¬ i + UInt32.ofNat blocks.length * m.config.dataBlockSize < payloadSize ∧
        blocks = (List.range blocks.length).map fun k => m.cutBlock key payload payloadSize
          (i + UInt32.ofNat k * m.config.dataBlockSize) (blockCnt + UInt32.ofNat k) := by
  have hdone : ∀ {i blockCnt : UInt32} {blocks : List Block}, ¬ i < payloadSize →
      some [] = some blocks →
      (∀ k < blocks.length, i + UInt32.ofNat k * m.config.dataBlockSize < payloadSize) ∧
        ¬ i + UInt32.ofNat blocks.length * m.config.dataBlockSize < payloadSize ∧
        blocks = (List.range blocks.length).map fun k => m.cutBlock key payload payloadSize
          (i + UInt32.ofNat k * m.config.dataBlockSize) (blockCnt + UInt32.ofNat k) := by
    intro i blockCnt blocks hi h
    obtain rfl := Option.some.inj h
    refine ⟨fun k hk => absurd hk (Nat.not_lt_zero k), ?_, rfl⟩
    have hzero : i + UInt32.ofNat 0 * m.config.dataBlockSize = i := by simp
    rw [List.length_nil, hzero]
    exact hi
  intro fuel
  induction fuel with
  | zero =>
      intro i blockCnt blocks h
      rw [buildBlocks] at h
      split at h
      · cases h
      · exact hdone ‹_› h
  | succ fuel ih =>
      intro i blockCnt blocks h
      rw [buildBlocks] at h
      split at h
      · rename_i hi
        simp only [Option.bind_eq_bind, Option.bind_eq_some_iff] at h
        obtain ⟨rest, hrest, hcons⟩ := h
        obtain rfl := Option.some.inj hcons
        obtain ⟨hlt, hend, hblocks⟩ := ih _ _ hrest
        have hnext : ∀ k, i + UInt32.ofNat (k + 1) * m.config.dataBlockSize
            = i + m.config.dataBlockSize + UInt32.ofNat k * m.config.dataBlockSize := by
          intro k
          rw [UInt32.ofNat_add, UInt32.add_mul, show UInt32.ofNat 1 = 1 from rfl, UInt32.one_mul]
          ac_rfl
        have hcnt : ∀ k, blockCnt + UInt32.ofNat (k + 1) = blockCnt + 1 + UInt32.ofNat k := by
          intro k
          rw [UInt32.ofNat_add]
          ac_rfl
        refine ⟨fun k hk => ?_, ?_, ?_⟩
        · cases k with
          | zero => simpa using hi
          | succ k =>
              rw [hnext]
              exact hlt k (by simpa using hk)
        · rw [List.length_cons, hnext]
          exact hend
        · rw [List.length_cons, List.range_succ_eq_map, List.map_cons, List.map_map]
          congr 1
          · simp [cutBlock]
          · refine hblocks.trans (List.map_congr_left fun k _ => ?_)
            rw [Function.comp_apply, hnext, hcnt]
      · exact hdone ‹_› h

/-- **The cutting loop makes at most as many blocks as the payload has bytes**: a position that
comes back would come back for ever. -/
theorem length_buildBlocks_le {fuel : Nat} {i blockCnt : UInt32} {blocks : List Block}
    (h : m.buildBlocks key payload payloadSize fuel i blockCnt = some blocks) :
    blocks.length ≤ payloadSize.toNat := by
  obtain ⟨hlt, hend, -⟩ := buildBlocks_positions fuel i blockCnt h
  have hinj : Set.InjOn (fun k => (i + UInt32.ofNat k * m.config.dataBlockSize).toNat)
      (Finset.range blocks.length) := by
    -- the loop would end early, as far before its end as the two positions are apart
    have hne : ∀ j k, j < k → k < blocks.length →
        i + UInt32.ofNat j * m.config.dataBlockSize
          ≠ i + UInt32.ofNat k * m.config.dataBlockSize := by
      intro j k hjk hk heq
      refine hend ?_
      have hearly := hlt (j + (blocks.length - k)) (by omega)
      have hsplit : blocks.length = k + (blocks.length - k) := by omega
      rw [UInt32.ofNat_add, UInt32.add_mul, ← UInt32.add_assoc, heq] at hearly
      rw [hsplit, UInt32.ofNat_add, UInt32.add_mul, ← UInt32.add_assoc]
      exact hearly
    intro j hj k hk heq
    rw [Finset.mem_coe, Finset.mem_range] at hj hk
    have heq := UInt32.toNat_inj.mp heq
    rcases Nat.lt_trichotomy j k with hjk | hjk | hjk
    · exact absurd heq (hne j k hjk hk)
    · exact hjk
    · exact absurd heq.symm (hne k j hjk hj)
  have hmaps : Set.MapsTo (fun k => (i + UInt32.ofNat k * m.config.dataBlockSize).toNat)
      (Finset.range blocks.length) (Finset.range payloadSize.toNat) := by
    intro k hk
    rw [Finset.mem_coe, Finset.mem_range] at hk ⊢
    exact UInt32.lt_iff_toNat_lt.mp (hlt k hk)
  have hcard := Finset.card_le_card_of_injOn _ hmaps hinj
  rwa [Finset.card_range, Finset.card_range] at hcard

/-- **The blocks of a payload have distinct numbers.** -/
theorem nodup_buildBlocks {fuel : Nat} {i blockCnt : UInt32} {blocks : List Block}
    (h : m.buildBlocks key payload payloadSize fuel i blockCnt = some blocks) :
    (blocks.map Block.blockNum).Nodup := by
  have hnums : blocks.map Block.blockNum
      = (List.range blocks.length).map fun k => blockCnt + UInt32.ofNat k := by
    conv_lhs => rw [(buildBlocks_positions fuel i blockCnt h).2.2, List.map_map]
    rfl
  rw [hnums]
  have hle := length_buildBlocks_le h
  have hlt := payloadSize.toNat_lt
  refine List.nodup_range.map_on fun j hj k hk heq => ?_
  rw [List.mem_range] at hj hk
  have heq := congrArg UInt32.toNat ((UInt32.add_right_inj blockCnt).mp heq)
  rw [UInt32.toNat_ofNat_of_lt' (show j < 2 ^ 32 by omega),
    UInt32.toNat_ofNat_of_lt' (show k < 2 ^ 32 by omega)] at heq
  exact heq

end MasterServer

/-- What holds of a chunked list holds of every list made from it by leaving blocks out. -/
theorem Chunked.sublist {d : UInt32} {blocks blocks' : List Block} (h : Chunked d blocks)
    (hs : List.Sublist blocks' blocks) : Chunked d blocks' where
  framed := fun b hb => h.framed b (hs.subset hb)
  full := fun b hb => h.full b ((sublist_dropLast hs).subset hb)
  le := fun b hb => h.le b (hs.subset hb)

end RackKey
