import OpenHft.Proofs.HashMap
import OpenHft.Spec.BoundedMap

/-!
# The hash map is a bounded finite map

`HashMap` says what one call does to a well-formed table. Here the table is tied to the
finite map it stands for: a lookup answers alike, and the counter is the number of keys.
Each call keeps the tie, so every sequence of calls from the empty table does, for any
capacity and any hash function.
-/

namespace OpenHft

namespace FixedHashMap

variable {K V : Type} [DecidableEq K] {n : Nat} [NeZero n]

/-- A call, for what it does to the table. -/
def apply (m : FixedHashMap K V n) : MapOp K V → FixedHashMap K V n
  | .insert key value => (m.insert key value).2
  | .erase key => (m.erase key).2
  | .find _ => m

/-- Calls one after the other. -/
def run (m : FixedHashMap K V n) (ops : List (MapOp K V)) : FixedHashMap K V n :=
  ops.foldl apply m

/-- The table stands for the map. -/
structure StandsFor (m : FixedHashMap K V n) (f : Finmap fun _ : K => V) : Prop where
  wf : m.Wf
  lookup : ∀ key, m.find key = f.lookup key
  size : m.size = f.keys.card

/-- What a caller sees of a table that stands for a map. -/
structure Represents (m : FixedHashMap K V n) (f : Finmap fun _ : K => V) : Prop where
  find : ∀ key, m.find key = f.lookup key
  contains : ∀ key, m.contains key = decide (key ∈ f)
  size : m.size = f.keys.card
  unique : ∀ slot slot' key, m.Holds slot key → m.Holds slot' key → slot = slot'
  erase : ∀ key, (m.erase key).1 = decide (key ∈ f)
  insert : ∀ key value,
    ((m.insert key value).1 = false ↔ key ∉ f ∧ f.keys.card = n) ∧
      ((m.insert key value).1 = false → (m.insert key value).2 = m)

namespace StandsFor

variable {m : FixedHashMap K V n} {f : Finmap fun _ : K => V}

theorem init [Inhabited K] [Inhabited V] (stdHash : K → Nat) :
    StandsFor (FixedHashMap.init stdHash : FixedHashMap K V n) ∅ where
  wf := init_wf stdHash
  lookup := by
    intro key
    rw [Finmap.lookup_empty]
    refine (find_eq_none_iff (init_wf stdHash)).mpr fun slot hs => ?_
    cases hs.1
  size := by
    rw [Finmap.keys_empty, Finset.card_empty]
    rfl

theorem isSome_iff (h : StandsFor m f) (key : K) :
    (m.find key).isSome = true ↔ key ∈ f := by
  rw [h.lookup key, Finmap.lookup_isSome]

theorem insert_false_iff (h : StandsFor m f) (key : K) (value : V) :
    (m.insert key value).1 = false ↔ key ∉ f ∧ f.keys.card = n := by
  rw [insert_eq_false_iff h.wf, h.lookup key, Finmap.lookup_eq_none, h.size]

theorem insert (h : StandsFor m f) (key : K) (value : V) :
    StandsFor (m.insert key value).2 (BoundedMap.insert n f key value).2 := by
  rw [BoundedMap.insert]
  cases hok : (m.insert key value).1 with
  | false =>
      rw [if_pos ((h.insert_false_iff key value).mp hok), insert_of_false h.wf hok]
      exact h
  | true =>
      have hroom : ¬ (key ∉ f ∧ f.keys.card = n) := by
        rw [← h.insert_false_iff key value, hok]
        exact Bool.noConfusion
      rw [if_neg hroom]
      refine ⟨insert_wf h.wf key value, fun key' => ?_, ?_⟩
      · rw [find_insert h.wf hok, BoundedMap.lookup_insert, h.lookup key']
      · rw [size_insert h.wf hok, BoundedMap.card_insert, h.size]
        simp only [h.isSome_iff key]

theorem erase (h : StandsFor m f) (key : K) :
    StandsFor (m.erase key).2 (BoundedMap.erase f key).2 := by
  refine ⟨erase_wf h.wf key, fun key' => ?_, ?_⟩
  · rw [find_erase h.wf, h.lookup key']
    exact (BoundedMap.lookup_erase f key key').symm
  · rw [size_erase h.wf, h.size]
    simp only [h.isSome_iff key]
    exact (BoundedMap.card_erase f key).symm

theorem apply (h : StandsFor m f) (op : MapOp K V) :
    StandsFor (m.apply op) (BoundedMap.apply n f op) := by
  cases op with
  | insert key value => exact h.insert key value
  | erase key => exact h.erase key
  | find key => exact h

theorem run (h : StandsFor m f) (ops : List (MapOp K V)) :
    StandsFor (m.run ops) (ops.foldl (BoundedMap.apply n) f) := by
  induction ops generalizing m f with
  | nil => exact h
  | cons op ops ih => exact ih (h.apply op)

theorem erase_fst (h : StandsFor m f) (key : K) :
    (m.erase key).1 = decide (key ∈ f) := by
  cases hfind : m.find key with
  | none =>
      have hnot : key ∉ f := by
        rw [← h.isSome_iff key, hfind]
        exact Bool.noConfusion
      rw [erase_of_find_none h.wf hfind, decide_eq_false hnot]
  | some value =>
      have hmem : key ∈ f := by
        rw [← h.isSome_iff key, hfind]
        rfl
      obtain ⟨slot, hs, -⟩ := (find_eq_some_iff h.wf).mp hfind
      rw [erase_of_holds h.wf hs, decide_eq_true hmem]

theorem represents (h : StandsFor m f) : Represents m f where
  find := h.lookup
  contains := by
    intro key
    rw [contains, Bool.eq_iff_iff, h.isSome_iff key, decide_eq_true_eq]
  size := h.size
  unique := h.wf.unique
  erase := h.erase_fst
  insert := fun key value => ⟨h.insert_false_iff key value, insert_of_false h.wf⟩

end StandsFor

/-- After any sequence of calls the table represents the map that the same calls make of
the empty one. -/
theorem run_represents [Inhabited K] [Inhabited V] (stdHash : K → Nat)
    (ops : List (MapOp K V)) :
    Represents ((init stdHash : FixedHashMap K V n).run ops) (BoundedMap.run n ops) :=
  ((StandsFor.init stdHash).run ops).represents

/-- Two slots, and keys that all start at the same one: a key beyond a tombstone is
updated, and another takes the tombstone and fills the table. -/
theorem run_represents_two_slots :
    Represents ((init fun _ => 1 : FixedHashMap Nat Nat 2).run
        [.insert 5 50, .insert 6 60, .erase 5, .insert 6 61, .insert 7 70])
      (BoundedMap.run 2
        [.insert 5 50, .insert 6 60, .erase 5, .insert 6 61, .insert 7 70]) :=
  run_represents (fun _ => 1) _

end FixedHashMap

end OpenHft
