import Mathlib.Data.List.Basic
import Mathlib.Data.Nat.Bitwise

set_option autoImplicit false

/-! # Bitmaps in byte cells, and the search for a free run

Bit `i` of a bitmap is bit `i % 8` of cell `i / 8`. `bit_modify` says what updating one cell
does to every bit, `getLsbD_runMask` which bits a shifted mask covers, and `ext_bit` that a
bitmap is its bits.

`scan` is the one-pass search for the first `n` consecutive free positions: it keeps the
start and the length of the free run that ends at the cursor. `scan_eq_some_iff` and
`scan_eq_none_iff` characterise its result with no reference to the pass.
-/

namespace Bitmap

/-- Bit `i` of a bitmap; bits past the end are clear. -/
def bit (m : List (BitVec 8)) (i : Nat) : Bool := (m[i / 8]?.getD 0#8).getLsbD (i % 8)

theorem bit_of_le {m : List (BitVec 8)} {i : Nat} (h : 8 * m.length ≤ i) : bit m i = false := by
  unfold bit
  rw [List.getElem?_eq_none (by omega)]
  simp

theorem lt_of_bit {m : List (BitVec 8)} {i : Nat} (h : bit m i = true) : i < 8 * m.length := by
  by_contra hc
  rw [bit_of_le (by omega)] at h
  exact Bool.false_ne_true h

@[simp] theorem bit_replicate_zero (n i : Nat) : bit (List.replicate n 0#8) i = false := by
  unfold bit
  rw [List.getElem?_replicate]
  split <;> simp

/-- A bitmap of a given length is determined by its bits. -/
theorem ext_bit {m m' : List (BitVec 8)} (hlen : m.length = m'.length)
    (h : ∀ i, bit m i = bit m' i) : m = m' := by
  apply List.ext_getElem hlen
  intro k hk hk'
  apply BitVec.eq_of_getLsbD_eq
  intro j hj
  have hi := h (8 * k + j)
  unfold bit at hi
  rw [show (8 * k + j) / 8 = k by omega, show (8 * k + j) % 8 = j by omega,
    List.getElem?_eq_getElem hk, List.getElem?_eq_getElem hk'] at hi
  simpa using hi

/-- The effect of updating one cell on the bits. -/
theorem bit_modify (m : List (BitVec 8)) (k : Nat) (g : BitVec 8 → BitVec 8) (i : Nat) :
    bit (m.modify k g) i
      = if i / 8 = k ∧ k < m.length then (g (m[k]?.getD 0#8)).getLsbD (i % 8) else bit m i := by
  unfold bit
  rw [List.getElem?_modify]
  by_cases hk : i / 8 = k
  · rw [hk]
    by_cases hl : k < m.length
    · simp [hl]
    · simp [hl]
  · have hk' : ¬ k = i / 8 := fun h => hk h.symm
    simp [hk, hk']

/-- `count` ones, starting at position `pos` of a cell. -/
def runMask (pos count : Nat) : BitVec 8 := BitVec.ofNat 8 (((1 <<< count) - 1) <<< pos)

theorem getLsbD_runMask (pos count : Nat) {i : Nat} (hi : i < 8) :
    (runMask pos count).getLsbD i = decide (pos ≤ i ∧ i < pos + count) := by
  unfold runMask
  rw [BitVec.getLsbD_ofNat, Nat.testBit_shiftLeft, Nat.one_shiftLeft, Nat.testBit_two_pow_sub_one]
  by_cases hp : pos ≤ i
  · simp only [hi, hp, decide_true, Bool.true_and, true_and, decide_eq_decide]
    omega
  · simp [hp]

/-! ## The search for a free run -/

/-- The positions `s, …, s + n - 1` are free and lie below `bound`. -/
def FreeRun (free : Nat → Bool) (bound n s : Nat) : Prop :=
  s + n ≤ bound ∧ ∀ b, s ≤ b → b < s + n → free b = true

/-- One pass over the next `steps` positions from `i` on. `count` is the length of the run of
free positions that ends before `i`, and `start` where it began. -/
def scan (free : Nat → Bool) (n : Nat) : Nat → Nat → Nat → Nat → Option Nat
  | 0, _, _, _ => none
  | steps + 1, i, start, count =>
      if free i then
        let start := if count = 0 then i else start
        if count + 1 = n then some start else scan free n steps (i + 1) start (count + 1)
      else scan free n steps (i + 1) start 0

theorem scan_free {free : Nat → Bool} {n steps i start count : Nat} (hf : free i = true) :
    scan free n (steps + 1) i start count
      = if count + 1 = n then some (if count = 0 then i else start)
        else scan free n steps (i + 1) (if count = 0 then i else start) (count + 1) := by
  rw [scan, if_pos hf]

theorem scan_used {free : Nat → Bool} {n steps i start count : Nat} (hf : free i = false) :
    scan free n (steps + 1) i start count = scan free n steps (i + 1) start 0 := by
  rw [scan, if_neg (by rw [hf]; exact Bool.false_ne_true)]

/-- What the pass knows at position `i`: the run that ends there is the maximal one, it is
too short, and no run of `n` free positions ends at or before `i`. -/
private structure ScanInv (free : Nat → Bool) (n i start count : Nat) : Prop where
  short : count < n
  fits : count ≤ i
  begins : count = 0 ∨ start = i - count
  run : ∀ b, i - count ≤ b → b < i → free b = true
  maximal : count < i → free (i - count - 1) = false
  noRun : ∀ s, ¬ FreeRun free i n s

private theorem ScanInv.next_free {free : Nat → Bool} {n i start count : Nat}
    (h : ScanInv free n i start count) (hf : free i = true) (hn : count + 1 ≠ n) :
    ScanInv free n (i + 1) (if count = 0 then i else start) (count + 1) where
  short := by have := h.short; omega
  fits := by have := h.fits; omega
  begins := by
    have hb := h.begins
    have := h.fits
    split <;> omega
  run := by
    intro b hb hbi
    by_cases hlast : b = i
    · rw [hlast]; exact hf
    · exact h.run b (by omega) (by omega)
  maximal := by
    intro hlt
    rw [show i + 1 - (count + 1) - 1 = i - count - 1 by omega]
    exact h.maximal (by omega)
  noRun := by
    rintro s ⟨hle, hfree⟩
    have hshort := h.short
    by_cases hend : s + n ≤ i
    · exact h.noRun s ⟨hend, hfree⟩
    · -- the run would contain the position before the maximal run
      have hblock := h.maximal (by omega)
      have := hfree (i - count - 1) (by omega) (by omega)
      rw [hblock] at this
      exact Bool.false_ne_true this

private theorem ScanInv.next_used {free : Nat → Bool} {n i start count : Nat}
    (h : ScanInv free n i start count) (hf : free i = false) :
    ScanInv free n (i + 1) start 0 where
  short := by have := h.short; omega
  fits := by omega
  begins := Or.inl rfl
  run := by intro b hb hbi; omega
  maximal := by intro _; simpa using hf
  noRun := by
    rintro s ⟨hle, hfree⟩
    have hshort := h.short
    by_cases hend : s + n ≤ i
    · exact h.noRun s ⟨hend, hfree⟩
    · have := hfree i (by omega) (by omega)
      rw [hf] at this
      exact Bool.false_ne_true this

private theorem scan_spec {free : Nat → Bool} {n : Nat} :
    ∀ (steps i start count : Nat), ScanInv free n i start count →
      match scan free n steps i start count with
      | some s => FreeRun free (i + steps) n s ∧ ∀ s', s' < s → ¬ FreeRun free (i + steps) n s'
      | none => ∀ s, ¬ FreeRun free (i + steps) n s
  | 0, i, start, count, h => h.noRun
  | steps + 1, i, start, count, h => by
      rw [show i + (steps + 1) = i + 1 + steps by omega]
      by_cases hf : free i = true
      · rw [scan_free hf]
        by_cases hn : count + 1 = n
        · rw [if_pos hn]
          have hb := h.begins
          have hfit := h.fits
          have hstart : (if count = 0 then i else start) = i + 1 - n := by split <;> omega
          rw [hstart]
          refine ⟨⟨by omega, ?_⟩, ?_⟩
          · intro b hb hbi
            by_cases hlast : b = i
            · rw [hlast]; exact hf
            · exact h.run b (by omega) (by omega)
          · rintro s' hs' ⟨-, hfree⟩
            exact h.noRun s' ⟨by omega, hfree⟩
        · rw [if_neg hn]
          exact scan_spec steps (i + 1) _ (count + 1) (h.next_free hf hn)
      · have hused : free i = false := by simpa using hf
        rw [scan_used hused]
        exact scan_spec steps (i + 1) start 0 (h.next_used hused)

/-- The state before the first position. -/
private theorem scanInv_zero (free : Nat → Bool) {n : Nat} (hn : 0 < n) :
    ScanInv free n 0 0 0 where
  short := hn
  fits := Nat.le_refl 0
  begins := Or.inl rfl
  run := by intro b _ hb; omega
  maximal := by intro h; omega
  noRun := by rintro s ⟨hle, -⟩; omega

/-- The pass finds the least start of a run of `n` free positions below `bound`. -/
theorem scan_eq_some_iff {free : Nat → Bool} {n bound s : Nat} (hn : 0 < n) :
    scan free n bound 0 0 0 = some s ↔
      FreeRun free bound n s ∧ ∀ s', s' < s → ¬ FreeRun free bound n s' := by
  have hspec := scan_spec bound 0 0 0 (scanInv_zero free hn)
  rw [Nat.zero_add] at hspec
  cases hscan : scan free n bound 0 0 0 with
  | none =>
      rw [hscan] at hspec
      constructor
      · intro h; cases h
      · intro h; exact absurd h.1 (hspec s)
  | some s₀ =>
      rw [hscan] at hspec
      constructor
      · intro h
        obtain rfl := Option.some.inj h
        exact hspec
      · rintro ⟨hrun, hleast⟩
        rcases Nat.lt_trichotomy s s₀ with hlt | heq | hgt
        · exact absurd hrun (hspec.2 s hlt)
        · rw [heq]
        · exact absurd hspec.1 (hleast s₀ hgt)

/-- The pass finds nothing exactly when there is no such run. -/
theorem scan_eq_none_iff {free : Nat → Bool} {n bound : Nat} (hn : 0 < n) :
    scan free n bound 0 0 0 = none ↔ ∀ s, ¬ FreeRun free bound n s := by
  have hspec := scan_spec bound 0 0 0 (scanInv_zero free hn)
  rw [Nat.zero_add] at hspec
  cases hscan : scan free n bound 0 0 0 with
  | none =>
      rw [hscan] at hspec
      exact ⟨fun _ => hspec, fun _ => rfl⟩
  | some s₀ =>
      rw [hscan] at hspec
      constructor
      · intro h; cases h
      · intro h; exact absurd hspec.1 (h s₀)

/-- A run of no positions is never reported. -/
theorem scan_zero (free : Nat → Bool) :
    ∀ (steps i start count : Nat), scan free 0 steps i start count = none
  | 0, _, _, _ => rfl
  | steps + 1, i, start, count => by
      by_cases hf : free i = true
      · rw [scan_free hf, if_neg (Nat.succ_ne_zero count)]
        exact scan_zero free steps _ _ _
      · rw [scan_used (by simpa using hf)]
        exact scan_zero free steps _ _ _

end Bitmap
