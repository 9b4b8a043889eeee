import Mathlib.Data.List.Basic
import Mathlib.Data.List.Dedup
import Mathlib.Data.List.Rotate
import Mathlib.Data.Finset.Card
import Mathlib.Order.Basic

set_option autoImplicit false

/-! # Walking a sorted list in a circle

A list sorted by strictly increasing keys, read as a circle. `next` is the element that follows a
position, which may lie between two elements, and `around` lists all elements from that position
on. Going to the next element turns the circle by one (`around_next`), so that the elements met by
walking on and on are those of `around`, in that order and again and again (`walk_eq`). The next
element is the one that lies before all others when one looks from the position
(`next_eq_some_iff`).

`collect` takes the first `R` distinct acceptable values off a list.
-/

namespace Circular

variable {α κ : Type} [LinearOrder κ] (key : α → κ)

/-- The elements from a position on, once around. -/
def around (l : List α) (k : κ) : List α :=
  l.filter (fun a => decide (k < key a)) ++ l.filter (fun a => decide (key a ≤ k))

/-- The element that follows a position. -/
def next (l : List α) (k : κ) : Option α :=
  match l.find? (fun a => decide (k < key a)) with
  | some a => some a
  | none => l.head?

variable {key}

theorem next_eq_head (l : List α) (k : κ) : next key l k = (around key l k).head? := by
  unfold next around
  rw [List.head?_append, ← List.head?_filter]
  cases h : (l.filter fun a => decide (k < key a)).head? with
  | some a => rfl
  | none =>
      -- nothing lies above the position, so that the walk starts over
      have hnone : l.filter (fun a => decide (k < key a)) = [] := List.head?_eq_none_iff.mp h
      have hall : l.filter (fun a => decide (key a ≤ k)) = l := by
        rw [List.filter_eq_self]
        intro a ha
        have hnot := List.filter_eq_nil_iff.mp hnone a ha
        simpa using hnot
      rw [hall]
      rfl

theorem mem_around {l : List α} {k : κ} {a : α} : a ∈ around key l k ↔ a ∈ l := by
  unfold around
  rw [List.mem_append, List.mem_filter, List.mem_filter, decide_eq_true_iff, decide_eq_true_iff]
  constructor
  · rintro (h | h)
    · exact h.1
    · exact h.1
  · intro ha
    rcases lt_or_ge k (key a) with h | h
    · exact Or.inl ⟨ha, h⟩
    · exact Or.inr ⟨ha, h⟩

theorem length_around (l : List α) (k : κ) : (around key l k).length = l.length := by
  have hperm := List.filter_append_perm (fun a => decide (k < key a)) l
  have hnot : (fun a => !decide (k < key a)) = fun a => decide (key a ≤ k) := by
    funext a
    rw [← decide_not, decide_eq_decide, not_lt]
  rw [hnot] at hperm
  exact hperm.length_eq

/-- Leaving elements out does not change the order in which the others are met. -/
theorem filter_around (keep : α → Bool) (l : List α) (k : κ) :
    (around key l k).filter keep = around key (l.filter keep) k := by
  unfold around
  rw [List.filter_append, List.filter_filter, List.filter_filter, List.filter_filter,
    List.filter_filter]
  simp only [Bool.and_comm]

/-- The elements up to a position come first in a sorted list. -/
theorem eq_filter_append {l : List α} (hl : l.Pairwise fun a b => key a < key b) (k : κ) :
    l = l.filter (fun a => decide (key a ≤ k)) ++ l.filter (fun a => decide (k < key a)) := by
  induction l with
  | nil => rfl
  | cons a l ih =>
      rw [List.pairwise_cons] at hl
      rcases le_or_gt (key a) k with h | h
      · rw [List.filter_cons_of_pos (by simpa using h), List.filter_cons_of_neg (by simpa using h),
          List.cons_append, ← ih hl.2]
      · -- the first element above the position: all that follow are above it as well
        have hle : l.filter (fun b => decide (key b ≤ k)) = [] := by
          rw [List.filter_eq_nil_iff]
          intro b hb
          have := h.trans (hl.1 b hb)
          simpa using this
        have hlt : l.filter (fun b => decide (k < key b)) = l := by
          rw [List.filter_eq_self]
          intro b hb
          have := h.trans (hl.1 b hb)
          simpa using this
        rw [List.filter_cons_of_neg (by simpa using h), List.filter_cons_of_pos (by simpa using h),
          hle, hlt]
        rfl

/-- From an element of a sorted list on: what follows it, what comes before it, and itself. -/
theorem around_split {p q : List α} {a : α}
    (hl : (p ++ a :: q).Pairwise fun a b => key a < key b) :
    around key (p ++ a :: q) (key a) = q ++ p ++ [a] := by
  obtain ⟨-, hq, hpq⟩ := List.pairwise_append.mp hl
  rw [List.pairwise_cons] at hq
  have hbefore : ∀ b ∈ p, key b ≤ key a := fun b hb => (hpq b hb a (by simp)).le
  have hlt : (p ++ a :: q).filter (fun b => decide (key a < key b)) = q := by
    rw [List.filter_append, List.filter_cons_of_neg (by simp), List.filter_eq_nil_iff.mpr
      (fun b hb => by simpa using hbefore b hb), List.nil_append, List.filter_eq_self]
    intro b hb
    simpa using hq.1 b hb
  have hle : (p ++ a :: q).filter (fun b => decide (key b ≤ key a)) = p ++ [a] := by
    rw [List.filter_append, List.filter_cons_of_pos (by simp), List.filter_eq_self.mpr
      (fun b hb => by simpa using hbefore b hb), List.filter_eq_nil_iff.mpr]
    intro b hb
    simpa using hq.1 b hb
  rw [around, hlt, hle, List.append_assoc]

/-- **Going on to the next element turns the circle by one.** -/
theorem around_next {l : List α} (hl : l.Pairwise fun a b => key a < key b) {k : κ} {a : α}
    {t : List α} (h : around key l k = a :: t) : around key l (key a) = t ++ [a] := by
  have hsplit := eq_filter_append hl k
  unfold around at h
  generalize l.filter (fun a => decide (key a ≤ k)) = p at h hsplit
  generalize l.filter (fun a => decide (k < key a)) = q at h hsplit
  cases q with
  | nil =>
      -- the walk has passed the last element and takes the first one
      rw [List.nil_append] at h
      rw [h, List.append_nil] at hsplit
      subst hsplit
      exact (around_split (p := []) hl).trans (by rw [List.append_nil])
  | cons b q =>
      -- the next element lies above the position
      rw [List.cons_append, List.cons.injEq] at h
      obtain ⟨rfl, rfl⟩ := h
      subst hsplit
      exact around_split hl

/-! ## Looking from a position -/

/-- Going on from `k`, one comes to `a` before `b`. -/
def Before (k a b : κ) : Prop := (k < a ∧ b ≤ k) ∨ ((k < a ↔ k < b) ∧ a < b)

theorem Before.asymm {k a b : κ} (h : Before k a b) : ¬ Before k b a := by
  rintro (⟨hb, ha⟩ | ⟨hiff, hlt⟩)
  · rcases h with ⟨ha', -⟩ | ⟨hiff, -⟩
    · exact absurd ha' (not_lt.mpr ha)
    · exact absurd (hiff.mpr hb) (not_lt.mpr ha)
  · rcases h with ⟨ha, hb⟩ | ⟨-, hlt'⟩
    · exact absurd (hiff.mpr ha) (not_lt.mpr hb)
    · exact absurd hlt (not_lt.mpr hlt'.le)

/-- The elements of a sorted list are met one before the other. -/
theorem pairwise_around {l : List α} (hl : l.Pairwise fun a b => key a < key b) (k : κ) :
    (around key l k).Pairwise fun a b => Before k (key a) (key b) := by
  unfold around
  rw [List.pairwise_append]
  refine ⟨?_, ?_, fun a ha b hb => ?_⟩
  · refine (hl.filter _).imp_of_mem fun {a b} ha hb hlt => ?_
    rw [List.mem_filter, decide_eq_true_iff] at ha hb
    exact Or.inr ⟨iff_of_true ha.2 hb.2, hlt⟩
  · refine (hl.filter _).imp_of_mem fun {a b} ha hb hlt => ?_
    rw [List.mem_filter, decide_eq_true_iff] at ha hb
    exact Or.inr ⟨iff_of_false (not_lt.mpr ha.2) (not_lt.mpr hb.2), hlt⟩
  · rw [List.mem_filter, decide_eq_true_iff] at ha hb
    exact Or.inl ⟨ha.2, hb.2⟩

/-- **The next element is the one met before all others.** -/
theorem next_eq_some_iff {l : List α} (hl : l.Pairwise fun a b => key a < key b) {k : κ} {a : α} :
    next key l k = some a ↔ a ∈ l ∧ ∀ b ∈ l, b = a ∨ Before k (key a) (key b) := by
  have hpair := pairwise_around hl k
  rw [next_eq_head]
  constructor
  · intro h
    obtain ⟨t, ht⟩ := List.head?_eq_some_iff.mp h
    rw [ht, List.pairwise_cons] at hpair
    refine ⟨mem_around.mp (List.mem_of_mem_head? h), fun b hb => ?_⟩
    rw [← mem_around (k := k), ht, List.mem_cons] at hb
    exact hb.imp_right (hpair.1 b)
  · rintro ⟨ha, hmin⟩
    cases hw : around key l k with
    | nil =>
        rw [← mem_around (k := k), hw] at ha
        cases ha
    | cons b t =>
        rw [hw, List.pairwise_cons] at hpair
        have hb : b ∈ l := by
          rw [← mem_around (k := k), hw]
          exact List.mem_cons_self
        rcases hmin b hb with rfl | hbefore
        · rfl
        · -- the head is met before `a`, if it is not `a` itself
          rw [← mem_around (k := k), hw, List.mem_cons] at ha
          rcases ha with rfl | ha
          · rfl
          · exact absurd hbefore (hpair.1 a ha).asymm

/-! ## Walking on and on -/

/-- The element met at a step, when each step goes on to the next element. -/
def walk (key : α → κ) (l : List α) (k : κ) : Nat → Option α
  | 0 => next key l k
  | i + 1 => (walk key l k i).bind fun a => next key l (key a)

/-- After step `i` the circle is turned by `i + 1`. -/
theorem around_walk {l : List α} (hl : l.Pairwise fun a b => key a < key b) (hne : l ≠ [])
    (k : κ) (i : Nat) :
    ∃ a, walk key l k i = some a ∧ ((around key l k).rotate i).head? = some a ∧
      around key l (key a) = (around key l k).rotate (i + 1) := by
  have hcons : ∀ (k : κ) (j : Nat), ∃ a t, (around key l k).rotate j = a :: t := fun k j => by
    refine List.exists_cons_of_ne_nil fun h => hne ?_
    have hlength : (around key l k).length = l.length := length_around l k
    rw [List.rotate_eq_nil_iff] at h
    rw [← List.length_eq_zero_iff, ← hlength, h, List.length_nil]
  induction i with
  | zero =>
      obtain ⟨a, t, ht⟩ := hcons k 0
      rw [List.rotate_zero] at ht ⊢
      refine ⟨a, ?_, by rw [ht, List.head?_cons], ?_⟩
      · rw [walk, next_eq_head, ht, List.head?_cons]
      · rw [around_next hl ht, ht, List.rotate_cons_succ, List.rotate_zero]
  | succ i ih =>
      obtain ⟨a, hwalk, -, hturn⟩ := ih
      obtain ⟨b, t, ht⟩ := hcons k (i + 1)
      rw [ht] at hturn
      refine ⟨b, ?_, by rw [ht, List.head?_cons], ?_⟩
      · rw [walk, hwalk, Option.bind_some, next_eq_head, hturn, List.head?_cons]
      · rw [around_next hl hturn, ← List.rotate_rotate _ (i + 1) 1, ht, List.rotate_cons_succ,
          List.rotate_zero]

/-- **Walking on and on** meets the elements of `around` in their order, again and again. -/
theorem walk_eq {l : List α} (hl : l.Pairwise fun a b => key a < key b) (k : κ) (i : Nat) :
    walk key l k i = (around key l k)[i % l.length]? := by
  cases l with
  | nil =>
      have hnone : ∀ i, walk key ([] : List α) k i = none := by
        intro i
        induction i with
        | zero => rfl
        | succ i ih => rw [walk, ih, Option.bind_none]
      rw [hnone]
      rfl
  | cons a l =>
      obtain ⟨b, hwalk, hhead, -⟩ := around_walk hl (List.cons_ne_nil a l) k i
      have hpos : 0 < (around key (a :: l) k).length := by
        rw [length_around, List.length_cons]
        omega
      rw [hwalk, ← hhead, List.head?_eq_getElem?, List.getElem?_rotate hpos, Nat.zero_add,
        length_around]

section Collect

variable {ν : Type} [DecidableEq ν]

theorem nodup_eraseDups : ∀ l : List ν, l.eraseDups.Nodup
  | [] => by
      rw [List.eraseDups_nil]
      exact List.nodup_nil
  | n :: l => by
      rw [List.eraseDups_cons, List.nodup_cons]
      refine ⟨fun h => ?_, nodup_eraseDups _⟩
      rw [List.mem_eraseDups, List.mem_filter] at h
      simp at h
  termination_by l => l.length
  decreasing_by
    have := List.length_filter_le (fun m => !m == n) l
    rw [List.length_cons]
    omega

theorem length_eraseDups (l : List ν) : l.eraseDups.length = l.toFinset.card := by
  rw [← List.toFinset_card_of_nodup (nodup_eraseDups l)]
  congr 1
  ext n
  rw [List.mem_toFinset, List.mem_toFinset, List.mem_eraseDups]

theorem filter_eraseDups (ok : ν → Bool) :
    ∀ l : List ν, (l.filter ok).eraseDups = l.eraseDups.filter ok
  | [] => by
      rw [List.filter_nil, List.eraseDups_nil, List.filter_nil]
  | n :: l => by
      have ih := filter_eraseDups ok (l.filter fun m => !m == n)
      by_cases hok : ok n = true
      · rw [List.filter_cons_of_pos hok, List.eraseDups_cons, List.eraseDups_cons,
          List.filter_cons_of_pos hok, ← ih]
        simp only [List.filter_filter, Bool.and_comm]
      · -- a value that is not acceptable is left out of both
        have hall : (l.filter fun m => !m == n).filter ok = l.filter ok := by
          rw [List.filter_filter]
          refine List.filter_congr fun m _ => ?_
          by_cases hm : m = n
          · rw [hm, Bool.eq_false_iff.mpr hok, Bool.false_and]
          · rw [beq_false_of_ne hm, Bool.not_false, Bool.and_true]
        rw [List.filter_cons_of_neg hok, List.eraseDups_cons, List.filter_cons_of_neg hok, ← ih,
          hall]
  termination_by l => l.length
  decreasing_by
    have := List.length_filter_le (fun m => !m == n) l
    rw [List.length_cons]
    omega

/-- A value that is not among the first `R` leaves them as they are. -/
theorem take_erase_of_notMem {x : ν} :
    ∀ {l : List ν} {R : Nat}, x ∉ l.take R → (l.erase x).take R = l.take R
  | [], _, _ => rfl
  | _ :: _, 0, _ => rfl
  | n :: l, R + 1, h => by
      rw [List.take_succ_cons, List.mem_cons, not_or] at h
      rw [List.erase_cons_tail (by simpa using Ne.symm h.1), List.take_succ_cons,
        List.take_succ_cons, take_erase_of_notMem h.2]

/-- When one of the first `R` leaves, the others close up and the next value follows them. -/
theorem take_erase_of_mem {x : ν} :
    ∀ {l : List ν} {R : Nat}, x ∈ l.take R → ∀ hR : R < l.length,
      (l.erase x).take R = (l.take R).erase x ++ [l[R]]
  | [], _, h, _ => by
      rw [List.take_nil] at h
      cases h
  | _ :: _, 0, h, _ => by cases h
  | n :: l, R + 1, h, hR => by
      have hR : R < l.length := Nat.lt_of_succ_lt_succ hR
      rw [List.take_succ_cons, List.mem_cons] at h
      rw [List.take_succ_cons, List.getElem_cons_succ]
      by_cases hx : n = x
      · rw [hx, List.erase_cons_head, List.erase_cons_head, List.take_succ_eq_append_getElem hR]
      · have htail : x ∈ l.take R := h.resolve_left (Ne.symm hx)
        rw [List.erase_cons_tail (by simpa using hx), List.erase_cons_tail (by simpa using hx),
          List.take_succ_cons, take_erase_of_mem htail hR, List.cons_append]

/-- Take values off a list until `R` distinct acceptable ones are selected. -/
def collect (R : Nat) (ok : ν → Bool) : List ν → List ν → List ν
  | [], used => used
  | n :: rest, used =>
      if used.length < R then
        collect R ok rest (if n ∉ used ∧ ok n = true then used ++ [n] else used)
      else used

/-- What `collect` selects is the first `R` distinct acceptable values. -/
theorem collect_eq (R : Nat) (ok : ν → Bool) :
    ∀ (l used : List ν), used.length ≤ R →
      collect R ok l used
        = (used ++ ((l.filter ok).filter fun n => decide (n ∉ used)).eraseDups).take R
  | [], used, h => by
      rw [collect, List.filter_nil, List.filter_nil, List.eraseDups_nil, List.append_nil,
        List.take_of_length_le h]
  | n :: rest, used, h => by
      rw [collect]
      by_cases hlt : used.length < R
      · rw [if_pos hlt]
        by_cases hok : ok n = true
        · by_cases hmem : n ∈ used
          · rw [if_neg (fun hn => hn.1 hmem), collect_eq R ok rest used h,
              List.filter_cons_of_pos hok, List.filter_cons_of_neg (by simpa using hmem)]
          · -- a new value: what is skipped from now on are the values selected and this one
            have hfilter : ∀ m : ν, decide (m ∉ used ++ [n])
                = (decide (m ∉ used) && !(m == n)) := by
              intro m
              rw [Bool.eq_iff_iff]
              simp
            rw [if_pos ⟨hmem, hok⟩, collect_eq R ok rest _ (by
                rw [List.length_append, List.length_singleton]
                omega),
              List.filter_cons_of_pos hok, List.filter_cons_of_pos (by simpa using hmem),
              List.eraseDups_cons, List.filter_filter, List.append_assoc, List.singleton_append]
            simp only [hfilter, List.filter_filter, Bool.and_comm, Bool.and_left_comm]
        · rw [if_neg (fun hn => hok hn.2), collect_eq R ok rest used h,
            List.filter_cons_of_neg hok]
      · rw [if_neg hlt, List.take_append_of_le_length (by omega), List.take_of_length_le h]

end Collect

end Circular
