import Mathlib.Data.List.Basic

set_option autoImplicit false

/-! # Runs of a partial step function

A run applies a list of operations one after another; it is defined when every operation is.
`foldlM_invariant` lifts what one step preserves to whole runs, and `foldlM_concat` splits a
run before its last operation. `Reached` are the states of the runs each step of which meets a
condition on the state it is taken in, with the same rule (`Reached.invariant`).

Where steps answer, `answers` are the answers of a run, which states that no step tells apart have
in common (`answers_eq`), and `Throughout` is a condition on every step of a run
(`throughout_iff`).
-/

namespace Runs

variable {σ ω : Type} {step : σ → ω → Option σ}

/-- What the steps of a run preserve holds at its end. -/
theorem foldlM_invariant_of_mem {I : σ → Prop} :
    ∀ (ops : List ω) (s s' : σ), (∀ op ∈ ops, ∀ s s', I s → step s op = some s' → I s') →
      I s → ops.foldlM step s = some s' → I s'
  | [], s, s', _, hs, h => by
      obtain rfl := Option.some.inj h
      exact hs
  | op :: ops, s, s', hstep, hs, h => by
      rw [List.foldlM_cons, Option.bind_eq_bind, Option.bind_eq_some_iff] at h
      obtain ⟨s₁, h₁, h₂⟩ := h
      exact foldlM_invariant_of_mem ops s₁ s' (fun op' hop' => hstep op' (by simp [hop']))
        (hstep op (by simp) s s₁ hs h₁) h₂

/-- What every step preserves holds at the end of every run. -/
theorem foldlM_invariant {I : σ → Prop}
    (hstep : ∀ s op s', I s → step s op = some s' → I s') (ops : List ω) (s s' : σ) (hs : I s)
    (h : ops.foldlM step s = some s') : I s' :=
  foldlM_invariant_of_mem ops s s' (fun op _ s s' => hstep s op s') hs h

/-- A run that ends with `op` is a run followed by one step. -/
theorem foldlM_concat {ops : List ω} {op : ω} {s s' : σ}
    (h : (ops ++ [op]).foldlM step s = some s') :
    ∃ s₁, ops.foldlM step s = some s₁ ∧ step s₁ op = some s' := by
  rw [List.foldlM_append, Option.bind_eq_bind, Option.bind_eq_some_iff] at h
  obtain ⟨s₁, h₁, h₂⟩ := h
  rw [List.foldlM_cons, Option.bind_eq_bind, Option.bind_eq_some_iff] at h₂
  obtain ⟨s₂, h₂, h₃⟩ := h₂
  obtain rfl := Option.some.inj h₃
  exact ⟨s₁, h₁, h₂⟩

/-- The states reached from `s₀` by steps that meet `cond` in the state they find. -/
inductive Reached (step : σ → ω → Option σ) (cond : σ → ω → Prop) (s₀ : σ) : σ → Prop
  | start : Reached step cond s₀ s₀
  | step {s s' : σ} {op : ω} (before : Reached step cond s₀ s) (meets : cond s op)
      (ok : step s op = some s') : Reached step cond s₀ s'

variable {cond : σ → ω → Prop} {s₀ s : σ}

/-- What every such step preserves holds in every state reached. -/
theorem Reached.invariant {I : σ → Prop} (h : Reached step cond s₀ s) (h₀ : I s₀)
    (hstep : ∀ s op s', I s → cond s op → step s op = some s' → I s') : I s := by
  induction h with
  | start => exact h₀
  | step before meets ok ih => exact hstep _ _ _ ih meets ok

theorem Reached.trans {s₁ : σ} (h : Reached step cond s₀ s₁) (h' : Reached step cond s₁ s) :
    Reached step cond s₀ s := by
  induction h' with
  | start => exact h
  | step before meets ok ih => exact ih.step meets ok

/-- A list of operations that meet the condition in every state reaches its last state. -/
theorem reached_of_foldlM : ∀ (ops : List ω) {s₀ s : σ}, ops.foldlM step s₀ = some s →
    (∀ op ∈ ops, ∀ s, cond s op) → ∀ {s₁ : σ}, Reached step cond s₁ s₀ → Reached step cond s₁ s
  | [], s₀, s, h, _, s₁, hr => by
      obtain rfl := Option.some.inj h
      exact hr
  | op :: ops, s₀, s, h, hcond, s₁, hr => by
      rw [List.foldlM_cons, Option.bind_eq_bind, Option.bind_eq_some_iff] at h
      obtain ⟨s₂, h₁, h₂⟩ := h
      exact reached_of_foldlM ops h₂ (fun op' hop' => hcond op' (by simp [hop']))
        (hr.step (hcond op (by simp) s₀) h₁)

/-- The step where a check goes through, and none elsewhere. -/
def guarded (step : σ → ω → Option σ) (check : σ → ω → Bool) (s : σ) (op : ω) : Option σ :=
  if check s op then step s op else none

/-- A list of operations that go through a check, which is enough for the condition, reaches its
last state. -/
theorem reached_of_guarded {check : σ → ω → Bool}
    (hcheck : ∀ s op, check s op = true → cond s op) :
    ∀ (ops : List ω) {s₀ s : σ}, ops.foldlM (guarded step check) s₀ = some s →
      ∀ {s₁ : σ}, Reached step cond s₁ s₀ → Reached step cond s₁ s
  | [], s₀, s, h, s₁, hr => by
      obtain rfl := Option.some.inj h
      exact hr
  | op :: ops, s₀, s, h, s₁, hr => by
      rw [List.foldlM_cons, Option.bind_eq_bind, Option.bind_eq_some_iff] at h
      obtain ⟨s₂, h₁, h₂⟩ := h
      unfold guarded at h₁
      split at h₁
      · rename_i hop
        exact reached_of_guarded hcheck ops h₂ (hr.step (hcheck s₀ op hop) h₁)
      · cases h₁

/-! ## Steps that answer -/

section Answers

variable {α : Type} {step : σ → ω → α × σ}

/-- What the operations of a run answer, one after another. -/
def answers (step : σ → ω → α × σ) : List ω → σ → List α
  | [], _ => []
  | op :: ops, s => (step s op).1 :: answers step ops (step s op).2

/-- States that every operation answers alike, and takes to such states again, are told apart by
no run. -/
theorem answers_eq {R : σ → σ → Prop}
    (hstep : ∀ s s' op, R s s' → (step s op).1 = (step s' op).1 ∧ R (step s op).2 (step s' op).2) :
    ∀ (ops : List ω) {s s' : σ}, R s s' → answers step ops s = answers step ops s'
  | [], _, _, _ => rfl
  | op :: ops, s, s', h => by
      obtain ⟨hanswer, hnext⟩ := hstep s s' op h
      rw [answers, answers, hanswer, answers_eq hstep ops hnext]

/-- Every operation of a run meets `P` in the state it finds. -/
def Throughout (step : σ → ω → α × σ) (P : σ → ω → Prop) : List ω → σ → Prop
  | [], _ => True
  | op :: ops, s => P s op ∧ Throughout step P ops (step s op).2

/-- Two conditions that agree where `I` holds agree on runs, if the one that holds keeps `I`. -/
theorem throughout_iff {I : σ → Prop} {P Q : σ → ω → Prop}
    (hiff : ∀ s op, I s → (P s op ↔ Q s op))
    (hstep : ∀ s op, I s → P s op → I (step s op).2) :
    ∀ (ops : List ω) {s : σ}, I s → (Throughout step P ops s ↔ Throughout step Q ops s)
  | [], _, _ => Iff.rfl
  | op :: ops, s, h => by
      unfold Throughout
      rw [← hiff s op h]
      exact and_congr_right fun hp => throughout_iff hiff hstep ops (hstep s op h hp)

end Answers

end Runs
