import Mathlib.Algebra.Ring.Int.Defs
import Mathlib.Algebra.Ring.Nat
import Mathlib.Data.Finmap

/-!
# A finite map with room for so many keys

What `FixedHashMap` is for: a finite map that refuses a new key once it holds as many
keys as it has room for. Nothing is said about slots, probes or tombstones.
-/

namespace OpenHft

/-- The calls that can be made on a map. -/
inductive MapOp (K V : Type) where
  | insert (key : K) (value : V)
  | erase (key : K)
  | find (key : K)

namespace BoundedMap

variable {K V : Type} [DecidableEq K]

/-- A new key is refused when there is no room; a key that is there gets the new
value. -/
def insert (capacity : Nat) (f : Finmap fun _ : K => V) (key : K) (value : V) :
    Bool × Finmap fun _ : K => V :=
  if key ∉ f ∧ f.keys.card = capacity then (false, f) else (true, f.insert key value)

/-- Erasing says whether the key was there. -/
def erase (f : Finmap fun _ : K => V) (key : K) : Bool × Finmap fun _ : K => V :=
  (decide (key ∈ f), f.erase key)

/-- A call, for what it does to the map; `find` does nothing. -/
def apply (capacity : Nat) (f : Finmap fun _ : K => V) :
    MapOp K V → Finmap fun _ : K => V
  | .insert key value => (insert capacity f key value).2
  | .erase key => (erase f key).2
  | .find _ => f

/-- Calls on a map that is empty at first. -/
def run (capacity : Nat) (ops : List (MapOp K V)) : Finmap fun _ : K => V :=
  ops.foldl (apply capacity) ∅

section Keys

variable {f : Finmap fun _ : K => V}

theorem keys_insert (f : Finmap fun _ : K => V) (key : K) (value : V) :
    (f.insert key value).keys = Insert.insert key f.keys := by
  ext key'
  rw [Finmap.mem_keys, Finmap.mem_insert, Finset.mem_insert, Finmap.mem_keys]

theorem card_insert (f : Finmap fun _ : K => V) (key : K) (value : V) :
    (f.insert key value).keys.card =
      if key ∈ f then f.keys.card else f.keys.card + 1 := by
  rw [keys_insert]
  split
  · next hmem => rw [Finset.insert_eq_of_mem (Finmap.mem_keys.mpr hmem)]
  · next hmem => exact Finset.card_insert_of_notMem fun h => hmem (Finmap.mem_keys.mp h)

theorem card_erase (f : Finmap fun _ : K => V) (key : K) :
    (f.erase key).keys.card =
      if key ∈ f then f.keys.card - 1 else f.keys.card := by
  rw [Finmap.keys_erase]
  split
  · next hmem => exact Finset.card_erase_of_mem (Finmap.mem_keys.mpr hmem)
  · next hmem =>
      rw [Finset.erase_eq_of_notMem fun h => hmem (Finmap.mem_keys.mp h)]

theorem lookup_insert (f : Finmap fun _ : K => V) (key key' : K) (value : V) :
    (f.insert key value).lookup key' =
      if key' = key then some value else f.lookup key' := by
  split
  · next heq =>
      subst heq
      exact Finmap.lookup_insert f
  · next hne => exact Finmap.lookup_insert_of_ne f hne

theorem lookup_erase (f : Finmap fun _ : K => V) (key key' : K) :
    (f.erase key).lookup key' = if key' = key then none else f.lookup key' := by
  split
  · next heq =>
      subst heq
      exact Finmap.lookup_erase key' f
  · next hne => exact Finmap.lookup_erase_ne hne

end Keys

end BoundedMap

end OpenHft
