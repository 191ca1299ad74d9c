import Mathlib.Control.Monad.Writer

/-!
# Computations that record what they read

A computation over a memory is written in the writer monad and tells the addresses
it reads, in order. `Within ok x post` says that everything `x` reads is `ok` and
that its value satisfies `post`. It is exact, not only sufficient: the rules below
are equivalences, so running them over a program gives the weakest condition under
which the program stays inside its memory.
-/

namespace OpenHft.Lib

variable {ι α β : Type}

/-- A computation that reads at addresses of type `ι`. -/
abbrev Reading (ι : Type) := Writer (List ι)

/-- Reads at `addresses` what comes out as `value`. -/
def reading (addresses : List ι) (value : α) : Reading ι α := do
  tell addresses
  pure value

/-- All that is examined is `ok`, and the result meets `post`. -/
def Within (ok : ι → Prop) (x : Reading ι α) (post : α → Prop) : Prop :=
  (∀ i ∈ x.run.2, ok i) ∧ post x.run.1

variable {ok : ι → Prop} {post : α → Prop} {post' : β → Prop}

@[simp] theorem within_pure (a : α) : Within ok (pure a : Reading ι α) post ↔ post a := by
  show (∀ i ∈ ([] : List ι), ok i) ∧ post a ↔ post a
  simp

@[simp] theorem within_bind (x : Reading ι α) (f : α → Reading ι β) :
    Within ok (x >>= f) post' ↔ Within ok x fun a => Within ok (f a) post' := by
  show (∀ i ∈ x.run.2 ++ (f x.run.1).run.2, ok i) ∧ post' (f x.run.1).run.1 ↔ _
  rw [List.forall_mem_append, and_assoc]
  rfl

@[simp] theorem within_reading (addresses : List ι) (a : α) :
    Within ok (reading addresses a) post ↔ (∀ i ∈ addresses, ok i) ∧ post a := by
  show (∀ i ∈ addresses ++ [], ok i) ∧ post a ↔ _
  rw [List.append_nil]

/-- A branch is charged with its own reads only. -/
@[simp] theorem within_ite (c : Prop) [Decidable c] (x y : Reading ι α) :
    Within ok (if c then x else y) post ↔
      (c → Within ok x post) ∧ (¬c → Within ok y post) := by
  by_cases h : c
  · simp [h]
  · simp [h]

end OpenHft.Lib
