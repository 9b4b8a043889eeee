import Mathlib.Data.List.Nodup
import RackKey.Master.Blocks

set_option autoImplicit false

/-! # Where blocks are placed

The placement loop selects `R` distinct healthy nodes for a block (`selectNodes_spec`), and the
list of a node has the blocks that are placed on it, in the order of the payload
(`placeBlocks_spec`).
-/

namespace RackKey

open Std Words

namespace MasterServer

variable {env : Env} {m : MasterServer}

/-- A node the master knows, up according to its flag. -/
def Healthy (m : MasterServer) (nodeId : Nat) : Prop :=
  ∃ sn ∈ m.storageNodes[nodeId]?, sn.isHealthy = true

/-- The nodes of one block. -/
def placement (env : Env) (m : MasterServer) (fuel : Nat) (key : Bytes) (blockNum : UInt32) :
    List Nat :=
  (m.placeBlock env fuel key blockNum).getD []

/-- What the placement loop has selected at any time. -/
structure Selected (m : MasterServer) (nodeIds : List Nat) : Prop where
  nodup : nodeIds.Nodup
  length_le : nodeIds.length ≤ m.R.toNat
  healthy : ∀ n ∈ nodeIds, m.Healthy n

theorem selectNodes_spec :
    ∀ (fuel : Nat) (hash : UInt32) (used : List Nat) {nodeIds : List Nat}, m.Selected used →
      m.selectNodes env fuel hash used = some nodeIds →
      m.Selected nodeIds ∧ nodeIds.length = m.R.toNat := by
  intro fuel
  induction fuel with
  | zero =>
      intro hash used nodeIds hu h
      have hle := hu.length_le
      by_cases hlt : used.length < m.R.toNat
      · rw [selectNodes, if_pos hlt] at h
        cases h
      · rw [selectNodes, if_neg hlt] at h
        obtain rfl := Option.some.inj h
        exact ⟨hu, by omega⟩
  | succ fuel ih =>
      intro hash used nodeIds hu h
      have hle := hu.length_le
      by_cases hlt : used.length < m.R.toNat
      · rw [selectNodes, if_pos hlt] at h
        simp only [Option.bind_eq_bind, Option.bind_eq_some_iff] at h
        obtain ⟨vn, -, sn, hsn, hrest⟩ := h
        refine ih _ _ ?_ hrest
        -- the node found is taken if it is healthy and new
        by_cases hnew : vn.physicalNodeId ∉ used ∧ sn.isHealthy = true
        · rw [if_pos hnew]
          refine ⟨?_, ?_, ?_⟩
          · rw [List.nodup_append]
            refine ⟨hu.nodup, List.nodup_singleton _, fun a ha b hb hab => ?_⟩
            rw [List.mem_singleton] at hb
            exact hnew.1 (by rw [← hb, ← hab]; exact ha)
          · rw [List.length_append, List.length_singleton]
            omega
          · intro n hn
            rcases List.mem_append.mp hn with hn | hn
            · exact hu.healthy n hn
            · rw [List.mem_singleton] at hn
              exact hn ▸ ⟨sn, hsn, hnew.2⟩
        · rw [if_neg hnew]
          exact hu
      · rw [selectNodes, if_neg hlt] at h
        obtain rfl := Option.some.inj h
        exact ⟨hu, by omega⟩

/-- **A block that is placed has `R` distinct healthy nodes.** -/
theorem placeBlock_spec {fuel : Nat} {key : Bytes} {blockNum : UInt32} {nodeIds : List Nat}
    (h : m.placeBlock env fuel key blockNum = some nodeIds) :
    m.Selected nodeIds ∧ nodeIds.length = m.R.toNat :=
  selectNodes_spec fuel _ [] ⟨List.nodup_nil, Nat.zero_le _, by simp⟩ h

theorem selected_placement (fuel : Nat) (key : Bytes) (blockNum : UInt32) :
    m.Selected (m.placement env fuel key blockNum) := by
  unfold placement
  cases h : m.placeBlock env fuel key blockNum with
  | none => exact ⟨List.nodup_nil, Nat.zero_le _, by simp⟩
  | some nodeIds => exact (placeBlock_spec h).1

/-- The blocks of a list that go to node `n`. -/
def assigned (env : Env) (m : MasterServer) (fuel : Nat) (key : Bytes) (blocks : List Block)
    (n : Nat) : List Block :=
  blocks.filter fun block => decide (n ∈ m.placement env fuel key block.blockNum)

theorem items_map_pair {nodeIds : List Nat} (hn : nodeIds.Nodup) (block : Block) (n : Nat) :
    Groups.items (nodeIds.map fun nodeId => (nodeId, block)) n
      = if n ∈ nodeIds then [block] else [] := by
  unfold Groups.items
  rw [List.filter_map, List.map_map]
  have hfilter : nodeIds.filter ((fun p : Nat × Block => decide (p.1 = n)) ∘ fun x => (x, block))
      = nodeIds.filter (fun x => x == n) := List.filter_congr fun x _ => rfl
  rw [hfilter, List.filter_beq, List.map_replicate]
  by_cases hmem : n ∈ nodeIds
  · rw [List.count_eq_one_of_mem hn hmem, if_pos hmem]
    rfl
  · rw [List.count_eq_zero_of_not_mem hmem, if_neg hmem]
    rfl

/-- **Each node gets the blocks placed on it, in order.** -/
theorem placeBlocks_spec {fuel : Nat} {key : Bytes} :
    ∀ {blocks : List Block} {placed : List (Nat × Block)},
      m.placeBlocks env fuel key blocks = some placed →
      (∀ b ∈ blocks, (m.placement env fuel key b.blockNum).length = m.R.toNat) ∧
        ∀ n, Groups.items placed n = m.assigned env fuel key blocks n
  | [], placed, h => by
      obtain rfl : [] = placed := Option.some.inj h
      exact ⟨by simp, fun n => rfl⟩
  | block :: blocks, placed, h => by
      simp only [placeBlocks, Option.bind_eq_bind, Option.bind_eq_some_iff] at h
      obtain ⟨nodeIds, hnodes, rest, hrest, hp⟩ := h
      obtain rfl := Option.some.inj hp
      obtain ⟨hlen, hitems⟩ := placeBlocks_spec hrest
      obtain ⟨hsel, hR⟩ := placeBlock_spec hnodes
      have hplace : m.placement env fuel key block.blockNum = nodeIds := by
        rw [placement, hnodes]
        rfl
      refine ⟨fun b hb => ?_, fun n => ?_⟩
      · rcases List.mem_cons.mp hb with rfl | hb
        · rw [hplace]
          exact hR
        · exact hlen b hb
      · have happend : Groups.items (nodeIds.map (fun nodeId => (nodeId, block)) ++ rest) n
            = Groups.items (nodeIds.map fun nodeId => (nodeId, block)) n
              ++ Groups.items rest n := by
          simp only [Groups.items, List.filter_append, List.map_append]
        rw [happend, items_map_pair hsel.nodup, hitems, assigned, assigned, List.filter_cons,
          hplace]
        by_cases hmem : n ∈ nodeIds
        · rw [if_pos hmem, if_pos (decide_eq_true hmem)]
          rfl
        · rw [if_neg hmem, if_neg (by simpa using hmem)]
          rfl

end MasterServer

end RackKey
