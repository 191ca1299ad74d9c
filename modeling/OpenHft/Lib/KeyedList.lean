import Mathlib.Data.List.Nodup
import Mathlib.Data.List.Perm.Basic

/-!
# Lists whose elements have a key

A list in which every element can be named by a key, as long as no two elements
share one. Looking an element up, dropping it and altering it in place, all by
key; the order of the others is never touched.
-/

namespace OpenHft.Lib

variable {α κ : Type} [DecidableEq κ] (key : α → κ)

/-- The first element with a key. -/
def lookup (k : κ) (l : List α) : Option α := l.find? fun x => key x = k

/-- The elements with another key. -/
def dropKey (k : κ) (l : List α) : List α := l.filter fun x => key x ≠ k

/-- `f` applied to the elements with a key. -/
def alterKey (k : κ) (f : α → α) (l : List α) : List α :=
  l.map fun x => if key x = k then f x else x

/-- No two elements share a key. -/
def DistinctKeys (l : List α) : Prop := (l.map key).Nodup

variable {key} {k : κ} {l : List α} {x : α}

theorem lookup_eq_none_iff : lookup key k l = none ↔ ∀ x ∈ l, key x ≠ k := by
  simp [lookup, List.find?_eq_none]

theorem lookup_eq_some_iff (h : DistinctKeys key l) :
    lookup key k l = some x ↔ x ∈ l ∧ key x = k := by
  constructor
  · intro hf
    exact ⟨List.mem_of_find?_eq_some hf, by simpa using List.find?_some hf⟩
  · rintro ⟨hx, rfl⟩
    cases hf : lookup key (key x) l with
    | none => exact absurd rfl (lookup_eq_none_iff.mp hf x hx)
    | some y =>
        have hy : key y = key x := by simpa using List.find?_some hf
        rw [List.inj_on_of_nodup_map h (List.mem_of_find?_eq_some hf) hx hy]

theorem mem_dropKey : x ∈ dropKey key k l ↔ x ∈ l ∧ key x ≠ k := by
  simp [dropKey]

theorem dropKey_of_absent (h : ∀ x ∈ l, key x ≠ k) : dropKey key k l = l :=
  List.filter_eq_self.mpr fun x hx => decide_eq_true (h x hx)

theorem lookup_dropKey_self : lookup key k (dropKey key k l) = none :=
  lookup_eq_none_iff.mpr fun _ hx => (mem_dropKey.mp hx).2

theorem lookup_dropKey_of_ne {k' : κ} (hne : k' ≠ k) :
    lookup key k' (dropKey key k l) = lookup key k' l := by
  rw [lookup, dropKey, List.find?_filter]
  congr 1
  funext x
  by_cases hx : key x = k'
  · simp [hx, hne]
  · simp [hx]

theorem lookup_append_singleton (k : κ) (l : List α) (x : α) :
    lookup key k (l ++ [x]) = (lookup key k l).or (if key x = k then some x else none) := by
  rw [lookup, List.find?_append, List.find?_singleton]
  simp [lookup]

/-- Looking up after an alteration that keeps keys. -/
theorem lookup_alterKey {f : α → α} (hf : ∀ x, key x = k → key (f x) = k) (k' : κ)
    (l : List α) :
    lookup key k' (alterKey key k f l) =
      if k' = k then (lookup key k l).map f else lookup key k' l := by
  induction l with
  | nil => simp [lookup, alterKey]
  | cons x l ih =>
      simp only [lookup, alterKey, List.map_cons, List.find?_cons] at ih ⊢
      by_cases hx : key x = k
      · have hfx := hf x hx
        by_cases hk : k' = k
        · simp [hx, hk, hfx]
        · have hne : k ≠ k' := fun heq => hk heq.symm
          simp [hx, hk, hfx, hne, ih]
      · by_cases hk : k' = k
        · simp [hx, hk] at ih ⊢
          exact ih
        · by_cases hx' : key x = k'
          · simp [hk, hx']
          · simp [hx, hk, hx', ih]

/-- What is altered is dropped all the same. -/
theorem dropKey_alterKey {f : α → α} (hf : ∀ x, key x = k → key (f x) = k) :
    dropKey key k (alterKey key k f l) = dropKey key k l := by
  induction l with
  | nil => rfl
  | cons x l ih =>
      simp only [dropKey, alterKey, List.map_cons] at ih ⊢
      by_cases hx : key x = k
      · rw [List.filter_cons_of_neg (by simp [hx, hf x hx]), List.filter_cons_of_neg (by simp [hx])]
        exact ih
      · rw [List.filter_cons_of_pos (by simp [hx]), List.filter_cons_of_pos (by simp [hx]), ih,
          if_neg hx]

/-- An element and the others. -/
theorem DistinctKeys.perm_cons_dropKey (h : DistinctKeys key l) (hx : x ∈ l) :
    l.Perm (x :: Lib.dropKey key (key x) l) := by
  induction l with
  | nil => cases hx
  | cons y l ih =>
      obtain ⟨hnot, hnodup⟩ := List.nodup_cons.mp h
      rcases List.mem_cons.mp hx with rfl | hx
      · have habsent : ∀ z ∈ l, key z ≠ key x := fun z hz heq =>
          hnot (heq ▸ List.mem_map_of_mem hz)
        have hhead : Lib.dropKey key (key x) (x :: l) = Lib.dropKey key (key x) l := by
          simp [Lib.dropKey]
        rw [hhead, dropKey_of_absent habsent]
      · have hne : key y ≠ key x := fun heq => hnot (heq ▸ List.mem_map_of_mem hx)
        have hhead : Lib.dropKey key (key x) (y :: l) = y :: Lib.dropKey key (key x) l := by
          simp [Lib.dropKey, hne]
        rw [hhead]
        exact ((ih hnodup hx).cons y).trans (.swap x y _)

theorem length_dropKey (h : DistinctKeys key l) (hx : x ∈ l) :
    (dropKey key (key x) l).length + 1 = l.length :=
  (h.perm_cons_dropKey hx).length_eq.symm

theorem DistinctKeys.dropKey (h : DistinctKeys key l) (k : κ) :
    DistinctKeys key (dropKey key k l) :=
  h.sublist (List.filter_sublist.map key)

omit [DecidableEq κ] in
theorem DistinctKeys.append (h : DistinctKeys key l) (hx : ∀ y ∈ l, key y ≠ key x) :
    DistinctKeys key (l ++ [x]) := by
  rw [DistinctKeys, List.map_append, List.map_singleton, List.nodup_append]
  refine ⟨h, List.nodup_singleton _, fun a ha b hb => ?_⟩
  obtain ⟨y, hy, rfl⟩ := List.mem_map.mp ha
  rw [List.mem_singleton.mp hb]
  exact hx y hy

/-- An alteration that keeps keys. -/
theorem DistinctKeys.alterKey {f : α → α} (h : DistinctKeys key l)
    (hf : ∀ x, key (f x) = key x) : DistinctKeys key (alterKey key k f l) := by
  have hkeys : (Lib.alterKey key k f l).map key = l.map key := by
    rw [Lib.alterKey, List.map_map]
    refine List.map_congr_left fun x _ => ?_
    show key (if key x = k then f x else x) = key x
    split
    · exact hf x
    · rfl
  rw [DistinctKeys, hkeys]
  exact h

end OpenHft.Lib
