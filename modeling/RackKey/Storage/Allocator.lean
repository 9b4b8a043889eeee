import Mathlib.Logic.Relation
import RackKey.Storage.FreeSpace

set_option autoImplicit false

/-! # The free space map as an allocator

The search for free blocks is a first-fit search over all bits of the map
(`findNFreeBlocks_exact`). The bits are the capacity rounded up to whole bytes, so that the blocks
found lie inside the capacity, in every state the allocator can reach, exactly when nothing is
rounded up (`insideCapacity_iff`).
-/

namespace RackKey

open Bitmap MathUtils

namespace FreeSpaceMap

/-- Every bitmap below `2^29` bytes is the bitmap of a map, and no other is. -/
theorem exists_bitMap (bitMap : List (BitVec 8)) :
    (∃ fsm : FreeSpaceMap, fsm.bitMap = bitMap) ↔ bitMap.length < 2 ^ 29 := by
  constructor
  · rintro ⟨fsm, rfl⟩
    have hlt := fsm.numBits_lt
    unfold numBits at hlt
    omega
  · intro hlen
    have hlt : 8 * bitMap.length < 2 ^ 32 := by omega
    have hcap : (UInt32.ofNat (8 * bitMap.length)).toNat = 8 * bitMap.length :=
      UInt32.toNat_ofNat_of_lt' hlt
    have hdiv := ceilDiv_eight (n := UInt32.ofNat (8 * bitMap.length)) (by omega)
    exact ⟨⟨UInt32.ofNat (8 * bitMap.length), bitMap, by omega⟩, rfl⟩

/-- **The search is exact**: over any bits, it finds the first run of `N` clear bits of the
bitmap, and nothing when there is none. -/
theorem findNFreeBlocks_exact (fsm : FreeSpaceMap) {N : UInt32} (hN : 1 ≤ N.toNat) :
    (∀ s : UInt32, fsm.findNFreeBlocks N = some s ↔
      fsm.FreeRun N.toNat s.toNat ∧ ∀ s' < s.toNat, ¬ fsm.FreeRun N.toNat s') ∧
    (fsm.findNFreeBlocks N = none ↔ ∀ s, ¬ fsm.FreeRun N.toNat s) :=
  ⟨fun _ => findNFreeBlocks_eq_some_iff hN, findNFreeBlocks_eq_none_iff hN⟩

/-- Bit 3 is clear between set bits, and bits 8 to 12 are clear. -/
theorem findNFreeBlocks_exact_bytes :
    (⟨16, [0xF7#8, 0xE0#8], by decide⟩ : FreeSpaceMap).findNFreeBlocks 2 = some 8 := by
  refine ((findNFreeBlocks_exact _ (by decide)).1 8).mpr ⟨⟨by decide, by decide⟩, ?_⟩
  rintro s' hs' ⟨-, hclear⟩
  -- of two bits in a row, one of which is below 8, one is set
  have hset : ∀ s' < 8, ∃ b ∈ Finset.Ico s' (s' + 2),
      (⟨16, [0xF7#8, 0xE0#8], by decide⟩ : FreeSpaceMap).Mapped b := by decide
  obtain ⟨b, hb, hmapped⟩ := hset s' hs'
  exact hclear b hb hmapped

/-- A run found lies inside the capacity exactly when some free run of that length does. -/
theorem found_le_iff {fsm : FreeSpaceMap} {N s : UInt32} (hN : 1 ≤ N.toNat)
    (h : fsm.findNFreeBlocks N = some s) :
    s.toNat + N.toNat ≤ fsm.blockCapacity.toNat ↔
      ∃ s', fsm.FreeRun N.toNat s' ∧ s' + N.toNat ≤ fsm.blockCapacity.toNat := by
  obtain ⟨hrun, hleast⟩ := (findNFreeBlocks_eq_some_iff hN).mp h
  constructor
  · exact fun hle => ⟨s.toNat, hrun, hle⟩
  · rintro ⟨s', hrun', hle⟩
    by_contra hgt
    exact hleast s' (by omega) hrun'

end FreeSpaceMap

/-! ## Runs of the allocator -/

/-- A map, and the runs that were allocated in it so far. -/
structure Allocator where
  map : FreeSpaceMap
  runs : List (UInt32 × UInt32)

namespace Allocator

inductive Step : Allocator → Allocator → Prop
  | allocate {a : Allocator} {N s : UInt32} (found : a.map.findNFreeBlocks N = some s) :
      Step a ⟨(a.map.allocateNBlocks s N).2, (s, N) :: a.runs⟩
  | free {a : Allocator} {N s : UInt32} (run : (s, N) ∈ a.runs) :
      Step a ⟨a.map.freeNBlocks s N, a.runs⟩

def Reachable (blockCapacity : UInt32) : Allocator → Prop :=
  Relation.ReflTransGen Step ⟨FreeSpaceMap.initialise blockCapacity, []⟩

theorem Step.blockCapacity {a a' : Allocator} (h : Step a a') :
    a'.map.blockCapacity = a.map.blockCapacity := by
  cases h with
  | allocate => rfl
  | free => rfl

theorem Reachable.blockCapacity {c : UInt32} {a : Allocator} (h : Reachable c a) :
    a.map.blockCapacity = c := by
  induction h with
  | refl => rfl
  | tail _ hstep ih => rw [hstep.blockCapacity, ih]

/-- In every state reached, every run found lies inside the capacity. -/
def InsideCapacity (blockCapacity : UInt32) : Prop :=
  ∀ a, Reachable blockCapacity a → ∀ N s : UInt32, 1 ≤ N.toNat →
    a.map.findNFreeBlocks N = some s → s.toNat + N.toNat ≤ blockCapacity.toNat

/-- A new map has a free run of all its bits. -/
theorem findNFreeBlocks_all {c : UInt32} (hpos : 0 < (FreeSpaceMap.initialise c).numBits) :
    (FreeSpaceMap.initialise c).findNFreeBlocks
      (UInt32.ofNat (FreeSpaceMap.initialise c).numBits) = some 0 := by
  have hN : (UInt32.ofNat (FreeSpaceMap.initialise c).numBits).toNat
      = (FreeSpaceMap.initialise c).numBits :=
    UInt32.toNat_ofNat_of_lt' (FreeSpaceMap.numBits_lt _)
  refine (FreeSpaceMap.findNFreeBlocks_eq_some_iff (by omega)).mpr ⟨⟨?_, ?_⟩, ?_⟩
  · rw [hN, UInt32.toNat_zero, Nat.zero_add]
  · intro b _
    exact FreeSpaceMap.mapped_initialise c b
  · intro s' hs'
    exact absurd hs' (Nat.not_lt_zero s')

/-- **When allocation stays inside the capacity**: in all states, exactly when the capacity is a
multiple of 8 (or so large that the bitmap is empty); in one state, exactly when the capacity has
room. -/
theorem insideCapacity_iff (c : UInt32) :
    (InsideCapacity c ↔ c.toNat % 8 = 0 ∨ 2 ^ 32 ≤ c.toNat + 7) ∧
    ∀ a, Reachable c a → ∀ N s : UInt32, 1 ≤ N.toNat → a.map.findNFreeBlocks N = some s →
      (s.toNat + N.toNat ≤ c.toNat ↔
        ∃ s', a.map.FreeRun N.toNat s' ∧ s' + N.toNat ≤ c.toNat) := by
  refine ⟨?_, ?_⟩
  · rw [← ceilDiv_eight_le_iff]
    constructor
    · intro h
      have hbits : (FreeSpaceMap.initialise c).numBits = 8 * (ceilDiv c 8).toNat := by
        rw [FreeSpaceMap.numBits, FreeSpaceMap.size_eq]
        rfl
      rw [← hbits]
      by_contra hgt
      -- a new map hands out all its bits at once
      have hlt := (FreeSpaceMap.initialise c).numBits_lt
      have hle := h _ Relation.ReflTransGen.refl _ 0 (by
        rw [UInt32.toNat_ofNat_of_lt' hlt]
        omega) (findNFreeBlocks_all (by omega))
      rw [UInt32.toNat_ofNat_of_lt' hlt, UInt32.toNat_zero] at hle
      omega
    · intro hle a ha N s hN hfound
      obtain ⟨⟨hin, -⟩, -⟩ := (FreeSpaceMap.findNFreeBlocks_eq_some_iff hN).mp hfound
      rw [FreeSpaceMap.numBits, a.map.size_eq, ha.blockCapacity] at hin
      omega
  · intro a ha N s hN hfound
    have hiff := FreeSpaceMap.found_le_iff hN hfound
    rwa [ha.blockCapacity] at hiff

/-- A map for ten blocks: once all ten are allocated, block 10 is free. -/
theorem outside_capacity :
    ∃ a, Reachable 10 a ∧ a.map.findNFreeBlocks 1 = some 10 ∧ ¬ InsideCapacity 10 := by
  have hreach : Reachable 10 ⟨((FreeSpaceMap.initialise 10).allocateNBlocks 0 10).2, [(0, 10)]⟩ :=
    Relation.ReflTransGen.single (Step.allocate (by decide))
  have hfound : ((FreeSpaceMap.initialise 10).allocateNBlocks 0 10).2.findNFreeBlocks 1
      = some 10 := by decide
  exact ⟨_, hreach, hfound, fun h => absurd (h _ hreach 1 10 (by decide) hfound) (by decide)⟩

end Allocator

end RackKey
