import Mathlib.Data.List.Nodup
import Mathlib.Logic.Function.Basic

set_option autoImplicit false

/-! # Folds of updates at distinct points

`UpdatesAt` says that a step of a fold changes a function at one point, by what it finds there.
Over a list of distinct points every step finds what was there before the fold, so the function
after the fold is known point by point (`foldl_view`), and so is what the steps record about the
values they find: that all of them are fine (`foldl_forall`), or that one of them says something
(`foldl_exists`).
-/

namespace Updates

variable {σ ι β : Type} [DecidableEq ι]

/-- The step changes the function at `i` only, if the value there meets `Pre`. -/
def UpdatesAt (Pre : β → Prop) (view : σ → ι → β) (g : ι → β → β) (step : σ → ι → σ) : Prop :=
  ∀ s i, Pre (view s i) → view (step s i) = Function.update (view s) i (g i (view s i))

section Fold

variable {Pre : β → Prop} {view : σ → ι → β} {g : ι → β → β} {step : σ → ι → σ}
variable (hstep : UpdatesAt Pre view g step)

include hstep

/-- The points of the rest of the list are as they were before the first step. -/
theorem UpdatesAt.view_step_of_mem {i : ι} {l : List ι} (hn : (i :: l).Nodup) {s : σ}
    (hpre : ∀ j ∈ i :: l, Pre (view s j)) : ∀ j ∈ l, view (step s i) j = view s j := by
  intro j hj
  have hne : j ≠ i := fun he => (List.nodup_cons.mp hn).1 (he ▸ hj)
  rw [hstep s i (hpre i List.mem_cons_self), Function.update_of_ne hne]

theorem UpdatesAt.pre_step {i : ι} {l : List ι} (hn : (i :: l).Nodup) {s : σ}
    (hpre : ∀ j ∈ i :: l, Pre (view s j)) : ∀ j ∈ l, Pre (view (step s i) j) := by
  intro j hj
  rw [hstep.view_step_of_mem hn hpre j hj]
  exact hpre j (List.mem_cons_of_mem i hj)

/-- **The function after the fold**, point by point. -/
theorem UpdatesAt.foldl_view {l : List ι} (hn : l.Nodup) {s : σ}
    (hpre : ∀ i ∈ l, Pre (view s i)) (i : ι) :
    view (l.foldl step s) i = if i ∈ l then g i (view s i) else view s i := by
  induction l generalizing s with
  | nil => simp
  | cons j l ih =>
      rw [List.foldl_cons, ih (List.nodup_cons.mp hn).2 (hstep.pre_step hn hpre)]
      by_cases hi : i ∈ l
      · rw [if_pos hi, if_pos (List.mem_cons_of_mem j hi), hstep.view_step_of_mem hn hpre i hi]
      · rw [if_neg hi, hstep s j (hpre j List.mem_cons_self)]
        by_cases hij : i = j
        · subst hij
          rw [Function.update_self, if_pos List.mem_cons_self]
        · rw [Function.update_of_ne hij, if_neg (by simp [hij, hi])]

/-- A flag that stays up as long as every value found meets `P`. -/
theorem UpdatesAt.foldl_forall {A : σ → Prop} {P : ι → β → Prop}
    (hA : ∀ s i, Pre (view s i) → (A (step s i) ↔ A s ∧ P i (view s i))) {l : List ι}
    (hn : l.Nodup) {s : σ} (hpre : ∀ i ∈ l, Pre (view s i)) :
    A (l.foldl step s) ↔ A s ∧ ∀ i ∈ l, P i (view s i) := by
  induction l generalizing s with
  | nil => simp
  | cons j l ih =>
      rw [List.foldl_cons, ih (List.nodup_cons.mp hn).2 (hstep.pre_step hn hpre),
        hA s j (hpre j List.mem_cons_self), and_assoc, List.forall_mem_cons]
      refine and_congr_right fun _ => and_congr_right fun _ => ?_
      exact forall₂_congr fun i hi => by rw [hstep.view_step_of_mem hn hpre i hi]

/-- A fact that is recorded when a value found meets `P`. -/
theorem UpdatesAt.foldl_exists {A : σ → Prop} {P : ι → β → Prop}
    (hA : ∀ s i, Pre (view s i) → (A (step s i) ↔ P i (view s i) ∨ A s)) {l : List ι}
    (hn : l.Nodup) {s : σ} (hpre : ∀ i ∈ l, Pre (view s i)) :
    A (l.foldl step s) ↔ (∃ i ∈ l, P i (view s i)) ∨ A s := by
  induction l generalizing s with
  | nil => simp
  | cons j l ih =>
      have htail : (∃ i ∈ l, P i (view (step s j) i)) ↔ ∃ i ∈ l, P i (view s i) :=
        exists_congr fun i => and_congr_right fun hi => by
          rw [hstep.view_step_of_mem hn hpre i hi]
      rw [List.foldl_cons, ih (List.nodup_cons.mp hn).2 (hstep.pre_step hn hpre), htail,
        hA s j (hpre j List.mem_cons_self), List.exists_mem_cons_iff, or_assoc]
      exact or_left_comm

/-- What relates the states before and after every step relates those before and after the
fold. -/
theorem UpdatesAt.foldl_related {Q : σ → σ → Prop} (hrefl : ∀ s, Q s s)
    (htrans : ∀ s s' s'', Q s s' → Q s' s'' → Q s s'')
    (hQ : ∀ s i, Pre (view s i) → Q s (step s i)) {l : List ι} (hn : l.Nodup) {s : σ}
    (hpre : ∀ i ∈ l, Pre (view s i)) : Q s (l.foldl step s) := by
  induction l generalizing s with
  | nil => exact hrefl s
  | cons j l ih =>
      exact htrans _ _ _ (hQ s j (hpre j List.mem_cons_self))
        (ih (List.nodup_cons.mp hn).2 (hstep.pre_step hn hpre))

end Fold

end Updates
