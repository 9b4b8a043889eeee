import Mathlib.Logic.Function.Basic

set_option autoImplicit false

/-! # Maps that are saved when they are written

A map with a copy of it that a restart goes back to. A write changes the map and saves it as it is
then, an erasure changes the map only. So erasures do not reach the copy (`saved_run`), and a
restart undoes them; nothing that was written is lost by it: a value stays until its key is written
or erased again (`current_after_write`).
-/

namespace WriteBehind

variable {κ ν : Type}

/-- A map, and what a restart goes back to. -/
structure Saved (κ ν : Type) where
  current : κ → Option ν
  saved : κ → Option ν

/-- Nothing is in the map that is not saved. -/
def Saved.Behind (w : Saved κ ν) : Prop := ∀ k v, w.current k = some v → w.saved k = some v

def empty : Saved κ ν := ⟨fun _ => none, fun _ => none⟩

theorem behind_empty : (empty : Saved κ ν).Behind := by
  intro k v h
  cases h

/-- What can happen to the map. -/
inductive Change (κ ν : Type) where
  | write (k : κ) (v : ν)
  | erase (k : κ)
  | restart

variable [DecidableEq κ]

namespace Saved

def change (w : Saved κ ν) : Change κ ν → Saved κ ν
  | .write k v =>
      ⟨Function.update w.current k (some v), Function.update w.current k (some v)⟩
  | .erase k => ⟨Function.update w.current k none, w.saved⟩
  | .restart => ⟨w.saved, w.saved⟩

/-- The map after changes, one after another. -/
def run (w : Saved κ ν) (l : List (Change κ ν)) : Saved κ ν := l.foldl change w

theorem run_append (w : Saved κ ν) (l l' : List (Change κ ν)) :
    w.run (l ++ l') = (w.run l).run l' :=
  List.foldl_append

theorem Behind.change {w : Saved κ ν} (h : w.Behind) (c : Change κ ν) : (w.change c).Behind := by
  intro k v hk
  cases c with
  | write k' v' => exact hk
  | restart => exact hk
  | erase k' =>
      have hne : k ≠ k' := by
        rintro rfl
        simp [Saved.change] at hk
      simp only [Saved.change, Function.update_of_ne hne] at hk
      exact h k v hk

/-- A key with the same value in the map and in the copy keeps it, until it is written or
erased. -/
theorem run_other {w : Saved κ ν} {k : κ} {v : ν} (hc : w.current k = some v)
    (hs : w.saved k = some v) :
    ∀ {l : List (Change κ ν)}, (∀ v, .write k v ∉ l) → .erase k ∉ l →
      (w.run l).current k = some v ∧ (w.run l).saved k = some v
  | [], _, _ => ⟨hc, hs⟩
  | c :: l, hwrite, herase => by
      have hw : ∀ v, .write k v ∉ l := fun v hv => hwrite v (List.mem_cons_of_mem _ hv)
      have he : .erase k ∉ l := fun hv => herase (List.mem_cons_of_mem _ hv)
      have hchange : (w.change c).current k = some v ∧ (w.change c).saved k = some v := by
        cases c with
        | restart => exact ⟨hs, hs⟩
        | write k' v' =>
            have hne : k ≠ k' := by
              rintro rfl
              exact hwrite v' List.mem_cons_self
            simp only [change, Function.update_of_ne hne]
            exact ⟨hc, hc⟩
        | erase k' =>
            have hne : k ≠ k' := by
              rintro rfl
              exact herase List.mem_cons_self
            simp only [change, Function.update_of_ne hne]
            exact ⟨hc, hs⟩
      exact run_other hchange.1 hchange.2 hw he

/-- **A value stays until its key is written or erased again**, whatever is written and erased
under other keys, and however often the map is restarted. -/
theorem current_after_write (w : Saved κ ν) (k : κ) (v : ν) {l : List (Change κ ν)}
    (hwrite : ∀ v, .write k v ∉ l) (herase : .erase k ∉ l) :
    ((w.change (.write k v)).run l).current k = some v :=
  (run_other (by simp [change]) (by simp [change]) hwrite herase).1

/-- Erasures do not reach the copy. -/
theorem saved_run {w : Saved κ ν} :
    ∀ {l : List (Change κ ν)}, (∀ k v, .write k v ∉ l) → (w.run l).saved = w.saved
  | [], _ => rfl
  | c :: l, h => by
      have hl : ∀ k v, .write k v ∉ l := fun k v hv => h k v (List.mem_cons_of_mem _ hv)
      have hchange : (w.change c).saved = w.saved := by
        cases c with
        | restart => rfl
        | erase k => rfl
        | write k v => exact absurd List.mem_cons_self (h k v)
      exact (saved_run hl).trans hchange

end Saved

end WriteBehind
