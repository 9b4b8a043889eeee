import Mathlib.Data.List.Induction

set_option autoImplicit false

/-! # What a client sees of a machine

A machine takes steps, some of which show its client an event. `Seen` are the events a run has
shown, `Allowed` the events that a specification lets happen one after another. A relation that
every step keeps, with the events of the step taken by the specification (`Matched`), carries over
to runs: what is seen is allowed (`Seen.allowed`).
-/

namespace Simulation

variable {σ ω ε τ : Type}

/-- The events seen on the way from `s₀` to a state, by steps that meet `cond` in the state they
find. -/
inductive Seen (step : σ → ω → Option (Option ε × σ)) (cond : σ → ω → Prop) (s₀ : σ) :
    List ε → σ → Prop
  | start : Seen step cond s₀ [] s₀
  | step {es : List ε} {s s' : σ} {op : ω} {e : Option ε} (before : Seen step cond s₀ es s)
      (meets : cond s op) (ok : step s op = some (e, s')) :
      Seen step cond s₀ (es ++ e.toList) s'

/-- The events that the specification takes on the way from `t₀`. -/
inductive Allowed (spec : τ → ε → τ → Prop) (t₀ : τ) : List ε → τ → Prop
  | start : Allowed spec t₀ [] t₀
  | event {es : List ε} {t t' : τ} {e : ε} (before : Allowed spec t₀ es t) (next : spec t e t') :
      Allowed spec t₀ (es ++ [e]) t'

/-- The specification takes the event, if there is one, to a state related to `s`. -/
def Matched (spec : τ → ε → τ → Prop) (R : σ → τ → Prop) (t : τ) (s : σ) : Option ε → Prop
  | none => R s t
  | some e => ∃ t', spec t e t' ∧ R s t'

variable {step : σ → ω → Option (Option ε × σ)} {cond : σ → ω → Prop} {spec : τ → ε → τ → Prop}
variable {R : σ → τ → Prop} {s₀ s : σ} {t₀ t : τ} {es es' : List ε}

theorem Matched.allowed {e : Option ε} (h : Matched spec R t s e) (ht : Allowed spec t₀ es t) :
    ∃ t', Allowed spec t₀ (es ++ e.toList) t' ∧ R s t' := by
  cases e with
  | none =>
      refine ⟨t, ?_, h⟩
      rw [Option.toList_none, List.append_nil]
      exact ht
  | some e =>
      obtain ⟨t', hnext, hR⟩ := h
      exact ⟨t', ht.event hnext, hR⟩

/-- **What is seen is allowed**, when every step is matched. -/
theorem Seen.allowed (h : Seen step cond s₀ es s) (h₀ : R s₀ t₀)
    (hstep : ∀ s t op e s', R s t → cond s op → step s op = some (e, s') →
      Matched spec R t s' e) :
    ∃ t, Allowed spec t₀ es t ∧ R s t := by
  induction h with
  | start => exact ⟨t₀, .start, h₀⟩
  | step before meets ok ih =>
      obtain ⟨t, ht, hR⟩ := ih
      exact (hstep _ t _ _ _ hR meets ok).allowed ht

/-- The events of operations one after another, each of which is checked first. -/
def observe (step : σ → ω → Option (Option ε × σ)) (check : σ → ω → Bool) :
    List ω → σ → Option (List ε × σ)
  | [], s => some ([], s)
  | op :: ops, s =>
      if check s op then
        (step s op).bind fun p =>
          (observe step check ops p.2).map fun r => (p.1.toList ++ r.1, r.2)
      else none

theorem observe_cons {check : σ → ω → Bool} {op : ω} {ops : List ω} {e : Option ε} {s₁ s₂ : σ}
    (hcheck : check s op = true) (h : step s op = some (e, s₁))
    (h' : observe step check ops s₁ = some (es, s₂)) :
    observe step check (op :: ops) s = some (e.toList ++ es, s₂) := by
  unfold observe
  rw [if_pos hcheck, h, Option.bind_some, h']
  rfl

/-- Operations after others. -/
theorem observe_append {check : σ → ω → Bool} {s₁ s₂ : σ} :
    ∀ {ops ops' : List ω} {s : σ} {es es' : List ε}, observe step check ops s = some (es, s₁) →
      observe step check ops' s₁ = some (es', s₂) →
        observe step check (ops ++ ops') s = some (es ++ es', s₂)
  | [], ops', s, es, es', h, h' => by
      cases h
      exact h'
  | op :: ops, ops', s, es, es', h, h' => by
      unfold observe at h
      split at h
      · rename_i hcheck
        obtain ⟨⟨e, s'⟩, hs', h⟩ := Option.bind_eq_some_iff.mp h
        obtain ⟨⟨es₁, s''⟩, hrest, h⟩ := Option.map_eq_some_iff.mp h
        cases h
        rw [List.append_assoc]
        exact observe_cons hcheck hs' (observe_append hrest h')
      · cases h

/-- What is observed is seen, when the check is enough for the condition where `I` holds. -/
theorem Seen.observe {check : σ → ω → Bool} {I : σ → Prop}
    (hcheck : ∀ s op, I s → check s op = true → cond s op)
    (hI : ∀ s op e s', I s → check s op = true → step s op = some (e, s') → I s') :
    ∀ (ops : List ω) {s s' : σ} {es es' : List ε}, Seen step cond s₀ es s → I s →
      Simulation.observe step check ops s = some (es', s') →
        Seen step cond s₀ (es ++ es') s' ∧ I s'
  | [], s, s', es, es', hseen, hs, h => by
      cases h
      rw [List.append_nil]
      exact ⟨hseen, hs⟩
  | op :: ops, s, s', es, es', hseen, hs, h => by
      unfold Simulation.observe at h
      split at h
      · rename_i hop
        obtain ⟨⟨e, s₁⟩, h₁, h⟩ := Option.bind_eq_some_iff.mp h
        obtain ⟨⟨es₁, s₂⟩, h₂, h⟩ := Option.map_eq_some_iff.mp h
        cases h
        rw [← List.append_assoc]
        exact (hseen.step (hcheck s op hs hop) h₁).observe hcheck hI ops (hI s op e s₁ hs hop h₁) h₂
      · cases h

/-- The last event, and those before it. -/
theorem Allowed.last {e : ε} (h : Allowed spec t₀ (es ++ [e]) t) :
    ∃ t₁, Allowed spec t₀ es t₁ ∧ spec t₁ e t := by
  generalize hes : es ++ [e] = l at h
  cases h with
  | start => simp at hes
  | @event es₁ t₁ t e₁ before next =>
      obtain ⟨rfl, hlast⟩ := List.append_inj' hes rfl
      obtain rfl := List.head_eq_of_cons_eq hlast
      exact ⟨t₁, before, next⟩

/-- The events before and after a state on the way. -/
theorem Allowed.split (h : Allowed spec t₀ (es ++ es') t) :
    ∃ t₁, Allowed spec t₀ es t₁ ∧ Allowed spec t₁ es' t := by
  induction es' using List.reverseRecOn generalizing t with
  | nil =>
      rw [List.append_nil] at h
      exact ⟨t, h, .start⟩
  | append_singleton es' e ih =>
      rw [← List.append_assoc] at h
      obtain ⟨t', before, next⟩ := h.last
      obtain ⟨t₁, h₁, h₂⟩ := ih before
      exact ⟨t₁, h₁, h₂.event next⟩

/-- What the specification keeps on the events of the list. -/
theorem Allowed.invariant {I : τ → Prop} (h : Allowed spec t₀ es t) (h₀ : I t₀)
    (hstep : ∀ t e t', e ∈ es → I t → spec t e t' → I t') : I t := by
  induction h with
  | start => exact h₀
  | @event es t t' e before next ih =>
      have hbefore : I t := ih fun t e t' he => hstep t e t' (by simp [he])
      exact hstep t e t' (by simp) hbefore next

end Simulation
