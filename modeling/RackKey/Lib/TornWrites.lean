import RackKey.Lib.ByteFile

set_option autoImplicit false

/-! # Writes that stop half way

A list of writes to a file, made one after another, may stop after any number of cells:
`torn z ws p f` is `f` after the first `p` cells of the writes `ws`. A stop behind all of them
leaves the file that the writes make (`torn_of_size_le`). Inside a write over a range of the same
length, the range reads the new cells up to the stop and the old ones behind it (`splice`,
`readAt_writeAt_take`). Writing what is there already changes nothing (`writeAt_readAt`), which
locates the stops that cannot be told from an earlier or a later one.
-/

namespace ByteFile

variable {α : Type}

/-- The file after the first `p` cells of a list of writes. -/
def torn (z : α) : List (Nat × List α) → Nat → List α → List α
  | [], _, f => f
  | (off, bs) :: ws, p, f => torn z ws (p - bs.length) (writeAt z f off (bs.take p))

/-- The number of cells of a list of writes. -/
def size : List (Nat × List α) → Nat
  | [] => 0
  | (_, bs) :: ws => bs.length + size ws

/-- The file after a list of writes. -/
def written (z : α) (ws : List (Nat × List α)) (f : List α) : List α :=
  ws.foldl (fun f w => writeAt z f w.1 w.2) f

theorem torn_of_size_le (z : α) :
    ∀ (ws : List (Nat × List α)) {p : Nat} (f : List α), size ws ≤ p →
      torn z ws p f = written z ws f
  | [], _, _, _ => rfl
  | (off, bs) :: ws, p, f, h => by
      rw [size] at h
      rw [torn, List.take_of_length_le (by omega), torn_of_size_le z ws _ (by omega)]
      rfl

/-- Writing what is there already. -/
theorem writeAt_readAt (z : α) {f bs : List α} {off : Nat} (h : readAt f off bs.length = bs) :
    writeAt z f off bs = f := by
  by_cases hbs : bs = []
  · rw [hbs, writeAt_nil]
  have hle := le_length_of_readAt f bs h hbs
  apply List.ext_getElem?
  intro i
  by_cases hi : i < off
  · exact getElem?_writeAt_before z hi (by omega)
  · by_cases hi' : i < off + bs.length
    · rw [getElem?_writeAt_inside z (by omega) hi']
      have hat := getElem?_readAt f off bs.length (i - off)
      rw [h, if_pos (by omega), Nat.add_sub_cancel' (by omega)] at hat
      exact hat
    · exact getElem?_writeAt_after z (by omega)

/-- A write that stops where the rest is there already. -/
theorem writeAt_take (z : α) {f bs : List α} {off q : Nat} (hq : q ≤ bs.length)
    (h : readAt (writeAt z f off (bs.take q)) (off + q) (bs.drop q).length = bs.drop q) :
    writeAt z f off (bs.take q) = writeAt z f off bs := by
  have hwhole := writeAt_writeAt_append z f off (bs.take q) (bs.drop q)
  rw [List.take_append_drop, List.length_take, Nat.min_eq_left hq, writeAt_readAt z h] at hwhole
  exact hwhole

/-! ## A range that is written over up to a stop -/

/-- The new cells up to `q`, the old ones behind. -/
def splice (q : Nat) (new old : List α) : List α := new.take q ++ old.drop q

@[simp] theorem splice_self (q : Nat) (bs : List α) : splice q bs bs = bs :=
  List.take_append_drop q bs

@[simp] theorem splice_zero (new old : List α) : splice 0 new old = old := rfl

theorem splice_length {new old : List α} (q : Nat) (h : new.length = old.length) :
    (splice q new old).length = old.length := by
  simp only [splice, List.length_append, List.length_take, List.length_drop]
  omega

theorem splice_of_length_le {new old : List α} {q : Nat} (h : new.length = old.length)
    (hq : old.length ≤ q) : splice q new old = new := by
  rw [splice, List.take_of_length_le (by omega), List.drop_of_length_le hq, List.append_nil]

theorem splice_append {as as' : List α} (q : Nat) (h : as'.length = as.length)
    (bs bs' : List α) :
    splice q (as' ++ bs') (as ++ bs) = splice q as' as ++ splice (q - as.length) bs' bs := by
  by_cases hq : q ≤ as.length
  · rw [Nat.sub_eq_zero_of_le hq, splice_zero, splice, splice,
      List.take_append_of_le_length (by omega), List.drop_append_of_le_length hq,
      List.append_assoc]
  · rw [splice_of_length_le h (by omega), splice, splice, List.take_append, List.drop_append, h,
      List.take_of_length_le (by omega), List.drop_of_length_le (by omega), List.nil_append,
      List.append_assoc]

/-- Behind a front part of the same length, two lists end alike. -/
theorem drop_append_congr {as as' : List α} {q : Nat} (h : as'.length = as.length)
    (hq : as.length ≤ q) (bs : List α) : (as' ++ bs).drop q = (as ++ bs).drop q := by
  rw [List.drop_append, List.drop_append, List.drop_of_length_le (h ▸ hq),
    List.drop_of_length_le hq, h]

/-- The range reads the new cells up to the stop, and the old ones behind. -/
theorem readAt_writeAt_take (z : α) {f old new : List α} {off : Nat} (q : Nat)
    (hlen : new.length = old.length) (h : readAt f off old.length = old) :
    readAt (writeAt z f off (new.take q)) off old.length = splice q new old := by
  have hq : (new.take q).length = (old.take q).length := by
    rw [List.length_take, List.length_take, hlen]
  rw [← splice_length q hlen, splice, readAt_append_iff]
  refine ⟨readAt_writeAt_self z f off _, ?_⟩
  rw [readAt_writeAt_after z f _ (Nat.le_refl _), hq]
  rw [← List.take_append_drop q old, readAt_append_iff] at h
  exact h.2

/-- What is read in front of a write was there, or fills the gap. -/
theorem mem_readAt_writeAt_before (z : α) {f bs : List α} {off off' n : Nat} (h : off' + n ≤ off)
    {x : α} (hx : x ∈ readAt (writeAt z f off bs) off' n) : x ∈ readAt f off' n ∨ x = z := by
  by_cases hbs : bs = []
  · rw [hbs, writeAt_nil] at hx
    exact Or.inl hx
  obtain ⟨i, hi⟩ := List.mem_iff_getElem?.mp hx
  rw [getElem?_readAt] at hi
  split at hi
  · rename_i hin
    by_cases hf : off' + i < f.length
    · rw [getElem?_writeAt_before z (by omega) hf] at hi
      refine Or.inl (List.mem_iff_getElem?.mpr ⟨i, ?_⟩)
      rw [getElem?_readAt, if_pos hin, hi]
    · refine Or.inr ?_
      rw [writeAt_of_ne_nil z f off hbs, List.append_assoc, List.append_assoc,
        List.take_of_length_le (by omega), List.getElem?_append_right (by omega),
        List.getElem?_append_left (by rw [List.length_replicate]; omega),
        List.getElem?_replicate] at hi
      split at hi
      · exact (Option.some.inj hi).symm
      · cases hi
  · cases hi

end ByteFile
