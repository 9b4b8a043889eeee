import Mathlib.Data.List.Nodup
import Mathlib.Data.List.Infix
import Mathlib.Data.List.Pairwise

set_option autoImplicit false

/-! # Tables of records with distinct keys

A table is a list of records, `key` projects a record to its key, `find` is the linear search
for the position of a key and `lookup` the record found there. The rules say what the updates
of a table do to its keys, members and lookups: replacing the record at the position found by
one with the same key, appending a record with a new key, and erasing the record at the
position found.
-/

namespace Keyed

variable {α κ : Type} [DecidableEq κ] (key : α → κ)

/-- The position of the first record with key `k`. -/
def find (l : List α) (k : κ) : Option Nat := l.findIdx? (fun x => key x == k)

/-- The first record with key `k`. -/
def lookup (l : List α) (k : κ) : Option α := l.find? (fun x => key x == k)

variable {key}

theorem find_eq_some {l : List α} {k : κ} {i : Nat} (h : find key l k = some i) :
    ∃ hi : i < l.length, key l[i] = k := by
  obtain ⟨hi, hk, -⟩ := List.findIdx?_eq_some_iff_getElem.mp h
  exact ⟨hi, by simpa using hk⟩

theorem find_eq_none {l : List α} {k : κ} :
    find key l k = none ↔ ∀ x ∈ l, key x ≠ k := by
  unfold find
  rw [List.findIdx?_eq_none_iff]
  simp

theorem lookup_eq_some {l : List α} {k : κ} {x : α} (h : lookup key l k = some x) :
    x ∈ l ∧ key x = k :=
  ⟨List.mem_of_find?_eq_some h, by simpa using List.find?_some h⟩

theorem lookup_eq_none {l : List α} {k : κ} :
    lookup key l k = none ↔ ∀ x ∈ l, key x ≠ k := by
  unfold lookup
  rw [List.find?_eq_none]
  simp

theorem lookup_of_find {l : List α} {k : κ} {i : Nat} (h : find key l k = some i) :
    lookup key l k = l[i]? := by
  obtain ⟨hi, hk, hfirst⟩ := List.findIdx?_eq_some_iff_getElem.mp h
  rw [List.getElem?_eq_getElem hi]
  exact List.find?_eq_some_iff_getElem.mpr
    ⟨hk, i, hi, rfl, fun j hj => by simpa using hfirst j hj⟩

theorem lookup_of_find_none {l : List α} {k : κ} (h : find key l k = none) :
    lookup key l k = none :=
  lookup_eq_none.mpr (find_eq_none.mp h)

/-- With distinct keys a lookup finds exactly the member with that key. -/
theorem lookup_iff_mem {l : List α} {k : κ} {x : α} (hn : (l.map key).Nodup) :
    lookup key l k = some x ↔ x ∈ l ∧ key x = k := by
  constructor
  · exact lookup_eq_some
  · rintro ⟨hx, hk⟩
    cases h : lookup key l k with
    | none => exact absurd hk (lookup_eq_none.mp h x hx)
    | some y =>
        obtain ⟨hy, hky⟩ := lookup_eq_some h
        rw [List.inj_on_of_nodup_map hn hy hx (hky.trans hk.symm)]

/-- Two tables with distinct keys, the members of which differ at key `k` only, look up alike
at every other key. -/
theorem lookup_congr {l l' : List α} {k k' : κ} (hn : (l.map key).Nodup)
    (hn' : (l'.map key).Nodup) (hne : k' ≠ k)
    (h : ∀ x, key x ≠ k → (x ∈ l' ↔ x ∈ l)) : lookup key l' k' = lookup key l k' := by
  apply Option.ext
  intro x
  rw [lookup_iff_mem hn, lookup_iff_mem hn']
  constructor
  · rintro ⟨hx, hk⟩
    exact ⟨(h x (by rw [hk]; exact hne)).mp hx, hk⟩
  · rintro ⟨hx, hk⟩
    exact ⟨(h x (by rw [hk]; exact hne)).mpr hx, hk⟩

omit [DecidableEq κ] in
/-- With distinct keys, a symmetric relation holds pairwise iff it holds between any two
members with different keys. -/
theorem pairwise_iff {l : List α} {R : α → α → Prop} [Std.Symm R] (hn : (l.map key).Nodup) :
    l.Pairwise R ↔ ∀ x ∈ l, ∀ y ∈ l, key x ≠ key y → R x y := by
  constructor
  · intro h x hx y hy hne
    exact h.forall hx hy (fun he => hne (by rw [he]))
  · intro h
    refine hn.of_map.pairwise_of_forall_ne ?_
    intro x hx y hy hne
    exact h x hx y hy (fun hk => hne (List.inj_on_of_nodup_map hn hx hy hk))

/-! ## Replacing a record -/

theorem map_set {l : List α} {x : α} {i : Nat} (h : find key l (key x) = some i) :
    (l.set i x).map key = l.map key := by
  obtain ⟨hi, hk⟩ := find_eq_some h
  rw [List.map_set]
  apply List.ext_getElem?
  intro j
  rw [List.getElem?_set]
  split
  · rename_i hij
    rw [← hij, if_pos (by simpa using hi), List.getElem?_map, List.getElem?_eq_getElem hi,
      Option.map_some, hk]
  · rfl

theorem mem_set {l : List α} {x y : α} {i : Nat} (hn : (l.map key).Nodup)
    (h : find key l (key x) = some i) :
    y ∈ l.set i x ↔ y = x ∨ (y ∈ l ∧ key y ≠ key x) := by
  obtain ⟨hi, hk⟩ := find_eq_some h
  have hn' : ((l.set i x).map key).Nodup := by rw [map_set h]; exact hn
  have hx : x ∈ l.set i x := List.mem_set hi x
  constructor
  · intro hy
    rcases List.mem_or_eq_of_mem_set hy with hmem | heq
    · by_cases hkey : key y = key x
      · exact Or.inl (List.inj_on_of_nodup_map hn' hy hx hkey)
      · exact Or.inr ⟨hmem, hkey⟩
    · exact Or.inl heq
  · rintro (rfl | ⟨hy, hkey⟩)
    · exact hx
    · obtain ⟨j, hj, rfl⟩ := List.getElem_of_mem hy
      have hij : i ≠ j := by
        intro he
        subst he
        exact hkey hk
      rw [List.mem_iff_getElem]
      refine ⟨j, by simpa using hj, ?_⟩
      rw [List.getElem_set_ne hij]

theorem find_set {l : List α} {x : α} {i : Nat} (h : find key l (key x) = some i) :
    find key (l.set i x) (key x) = some i := by
  have hfind : ∀ t : List α, find key t (key x) = (t.map key).findIdx? (· == key x) := by
    intro t
    rw [find, List.findIdx?_map]
    rfl
  rw [hfind, map_set h, ← hfind, h]

theorem lookup_set_ne {l : List α} {x : α} {k : κ} {i : Nat} (h : find key l (key x) = some i)
    (hne : k ≠ key x) : lookup key (l.set i x) k = lookup key l k := by
  obtain ⟨hi, hk⟩ := find_eq_some h
  have hx : (key x == k) = false := by simpa using hne.symm
  have hold : (key l[i] == k) = false := by rw [hk, hx]
  rw [List.set_eq_take_append_cons_drop, if_pos hi]
  conv_rhs => rw [← List.take_append_drop i l, List.drop_eq_getElem_cons hi]
  simp only [lookup, List.find?_append, List.find?_cons, hx, hold]

/-! ## Appending a record -/

theorem find_append {l : List α} {x : α} (h : find key l (key x) = none) :
    find key (l ++ [x]) (key x) = some l.length := by
  have hl : l.findIdx? (fun y => key y == key x) = none := h
  simp [find, List.findIdx?_append, hl]

theorem lookup_append_ne {l : List α} {x : α} {k : κ} (hne : k ≠ key x) :
    lookup key (l ++ [x]) k = lookup key l k := by
  have hx : (key x == k) = false := by simpa using hne.symm
  simp only [lookup, List.find?_append, List.find?_cons, hx, List.find?_nil, Option.or_none]

theorem nodup_append {l : List α} {x : α} (hn : (l.map key).Nodup)
    (h : find key l (key x) = none) : ((l ++ [x]).map key).Nodup := by
  rw [List.map_append, List.nodup_append]
  refine ⟨hn, by simp, ?_⟩
  intro a ha b hb
  obtain ⟨y, hy, rfl⟩ := List.mem_map.mp ha
  simp only [List.map_cons, List.map_nil, List.mem_singleton] at hb
  rw [hb]
  exact find_eq_none.mp h y hy

theorem mem_append {l : List α} {x y : α} (h : find key l (key x) = none) :
    y ∈ l ++ [x] ↔ y = x ∨ (y ∈ l ∧ key y ≠ key x) := by
  rw [List.mem_append, List.mem_singleton]
  constructor
  · rintro (hy | hy)
    · exact Or.inr ⟨hy, find_eq_none.mp h y hy⟩
    · exact Or.inl hy
  · rintro (hy | hy)
    · exact Or.inr hy
    · exact Or.inl hy.1

/-! ## Erasing a record -/

theorem lookup_eraseIdx_ne {l : List α} {k k' : κ} {i : Nat} (h : find key l k = some i)
    (hne : k' ≠ k) : lookup key (l.eraseIdx i) k' = lookup key l k' := by
  obtain ⟨hi, hk⟩ := find_eq_some h
  have hold : (key l[i] == k') = false := by
    rw [hk]
    simpa using hne.symm
  rw [List.eraseIdx_eq_take_drop_succ]
  conv_rhs => rw [← List.take_append_drop i l, List.drop_eq_getElem_cons hi]
  simp only [lookup, List.find?_append, List.find?_cons, hold]

/-- With distinct keys, erasing the record of a key keeps exactly the other records. -/
theorem eraseIdx_eq_filter {l : List α} {k : κ} {i : Nat} (hn : (l.map key).Nodup)
    (h : find key l k = some i) : l.eraseIdx i = l.filter fun x => key x ≠ k := by
  induction l generalizing i with
  | nil => cases h
  | cons x l ih =>
      rw [List.map_cons, List.nodup_cons] at hn
      unfold find at h
      rw [List.findIdx?_cons] at h
      by_cases hx : key x = k
      · rw [if_pos (by simpa using hx)] at h
        obtain rfl := Option.some.inj h
        rw [List.eraseIdx_cons_zero, List.filter_cons_of_neg (by simpa using hx)]
        refine (List.filter_eq_self.mpr fun y hy => ?_).symm
        refine decide_eq_true fun hyk => hn.1 ?_
        rw [hx, ← hyk]
        exact List.mem_map_of_mem hy
      · rw [if_neg (by simpa using hx)] at h
        obtain ⟨j, hj, rfl⟩ := Option.map_eq_some_iff.mp h
        rw [List.eraseIdx_cons_succ, List.filter_cons_of_pos (by simpa using hx), ih hn.2 hj]

omit [DecidableEq κ] in
theorem nodup_eraseIdx {l : List α} {i : Nat} (hn : (l.map key).Nodup) :
    ((l.eraseIdx i).map key).Nodup :=
  hn.sublist ((List.eraseIdx_sublist l i).map key)

theorem mem_eraseIdx {l : List α} {k : κ} {y : α} {i : Nat} (hn : (l.map key).Nodup)
    (h : find key l k = some i) : y ∈ l.eraseIdx i ↔ y ∈ l ∧ key y ≠ k := by
  obtain ⟨hi, hk⟩ := find_eq_some h
  rw [List.mem_eraseIdx_iff_getElem?]
  constructor
  · rintro ⟨j, hji, hj⟩
    obtain ⟨hjl, rfl⟩ := List.getElem?_eq_some_iff.mp hj
    refine ⟨List.getElem_mem hjl, fun hkey => hji ?_⟩
    have hjm : j < (l.map key).length := by rwa [List.length_map]
    have him : i < (l.map key).length := by rwa [List.length_map]
    have hmap : (l.map key)[j] = (l.map key)[i] := by
      simp only [List.getElem_map, hkey, hk]
    exact (List.Nodup.getElem_inj_iff hn).mp hmap
  · rintro ⟨hy, hkey⟩
    obtain ⟨j, hj, rfl⟩ := List.getElem_of_mem hy
    refine ⟨j, fun he => hkey ?_, List.getElem?_eq_getElem hj⟩
    subst he
    exact hk

end Keyed
