import Mathlib.Algebra.Ring.Int.Defs
import Mathlib.Algebra.Ring.Nat
import Mathlib.Logic.Function.Basic

/-!
# `FixedHashMap`: open addressing with tombstones

`common/fixed_hash_map.hpp`. The table has a fixed number of entries, probes
linearly and wraps, and erasing leaves a `deleted` mark behind. `std::hash` is
implementation defined, so the table carries the hash function it uses and
everything proved about it holds for any.

The probe loops run at most `Capacity` times; here that bound is the
structural argument `probes`. The source's `first_deleted == Capacity`, "no
tombstone seen yet", is `none`.
-/

namespace OpenHft

/-- A slot that was never used, one in use, and one whose key was erased. -/
inductive EntryState where
  | empty
  | occupied
  | deleted
  deriving DecidableEq, Repr

/-- A slot of the table. Key and value mean something in an `occupied` one only. -/
structure Entry (K V : Type) where
  key : K
  value : V
  state : EntryState

/-- The table, and the number of its `occupied` slots. -/
structure FixedHashMap (K V : Type) (capacity : Nat) where
  /-- `std::hash<Key>` -/
  stdHash : K → Nat
  entries : Fin capacity → Entry K V
  size : Nat

namespace FixedHashMap

variable {K V : Type} {n : Nat}

/-- The value-initialised table. -/
def init [Inhabited K] [Inhabited V] (stdHash : K → Nat) :
    FixedHashMap K V n where
  stdHash := stdHash
  entries := fun _ => ⟨default, default, .empty⟩
  size := 0

/-- `Capacity > 0` is a `static_assert` of the class. -/
def hash [NeZero n] (m : FixedHashMap K V n) (key : K) : Fin n :=
  ⟨m.stdHash key % n, Nat.mod_lt _ (Nat.pos_of_neZero n)⟩

/-- The slot a probe goes on to, round the end of the table. -/
def nextIndex [NeZero n] (index : Fin n) : Fin n :=
  ⟨(index.val + 1) % n, Nat.mod_lt _ (Nat.pos_of_neZero n)⟩

/-- The three writes that put a new key into a slot, and `++size_`. -/
def occupy (m : FixedHashMap K V n) (target : Fin n) (key : K) (value : V) :
    FixedHashMap K V n :=
  { m with
    entries := Function.update m.entries target ⟨key, value, .occupied⟩
    size := m.size + 1 }

section Operations

variable [NeZero n] [DecidableEq K]

/-- The loop of `insert`. A known key has its value replaced; a new one goes into the first
tombstone of the probe, if there was one. -/
def insertLoop (m : FixedHashMap K V n) (key : K) (value : V) :
    Nat → Fin n → Option (Fin n) → Bool × FixedHashMap K V n
  | 0, _, firstDeleted =>
      match firstDeleted with
      | some target => (true, m.occupy target key value)
      | none => (false, m)
  | probes + 1, index, firstDeleted =>
      match (m.entries index).state with
      | .occupied =>
          if (m.entries index).key = key then
            (true,
              { m with
                entries := Function.update m.entries index
                  { m.entries index with value := value } })
          else insertLoop m key value probes (nextIndex index) firstDeleted
      | .deleted =>
          insertLoop m key value probes (nextIndex index)
            (firstDeleted.or (some index))
      | .empty => (true, m.occupy (firstDeleted.getD index) key value)

/-- `false` is a table with neither the key nor room for it. -/
def insert (m : FixedHashMap K V n) (key : K) (value : V) :
    Bool × FixedHashMap K V n :=
  insertLoop m key value n (m.hash key) none

/-- The slot a probe for the key stops at: the loop shared by both overloads
of `find` and by `erase`. -/
def findSlot (m : FixedHashMap K V n) (key : K) : Nat → Fin n → Option (Fin n)
  | 0, _ => none
  | probes + 1, index =>
      if (m.entries index).state = .empty then none
      else if (m.entries index).state = .occupied ∧ (m.entries index).key = key
        then some index
      else findSlot m key probes (nextIndex index)

/-- Null is `none`; the pointer is only ever read through. -/
def find (m : FixedHashMap K V n) (key : K) : Option V :=
  (findSlot m key n (m.hash key)).map fun slot => (m.entries slot).value

/-- `find(key) != nullptr` -/
def contains (m : FixedHashMap K V n) (key : K) : Bool :=
  (m.find key).isSome

/-- The key and the value stay in the slot. -/
def erase (m : FixedHashMap K V n) (key : K) : Bool × FixedHashMap K V n :=
  match findSlot m key n (m.hash key) with
  | none => (false, m)
  | some slot =>
      (true,
        { m with
          entries := Function.update m.entries slot
            { m.entries slot with state := .deleted }
          size := m.size - 1 })

end Operations

end FixedHashMap

end OpenHft
