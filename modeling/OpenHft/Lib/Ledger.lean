import Mathlib.Data.List.Nodup
import Mathlib.Data.List.Perm.Basic

/-!
# Things taken and given back

A program takes things from its surroundings and gives them back: descriptors, objects of
a library, buffers of a pool. Its ledger has the takings and the returns in their order.
A ledger is in order when nothing is taken that is held already and nothing is returned
that is not held. In such a ledger nothing is returned twice, and what is held at its end
is what has not been returned.

`Balances log owned` is the form in which a program keeps it as an invariant: the ledger is
in order and what is held is what the program can still name.
-/

namespace OpenHft.Lib

/-- An entry of a log. -/
inductive Use (α : Type) where
  | acquire (a : α)
  | release (a : α)

namespace Ledger

variable {α : Type} [DecidableEq α]

/-- What is held after the entries, of one who holds `h` before them. -/
def held (h : List α) : List (Use α) → List α
  | [] => h
  | .acquire a :: log => held (a :: h) log
  | .release a :: log => held (h.erase a) log

/-- With `h` held before, only what is not held is acquired, and only what is held released. -/
def InOrder (h : List α) : List (Use α) → Prop
  | [] => True
  | .acquire a :: log => a ∉ h ∧ InOrder (a :: h) log
  | .release a :: log => a ∈ h ∧ InOrder (h.erase a) log

variable {log : List (Use α)} {a : α}

theorem held_append (h : List α) (log log' : List (Use α)) :
    held h (log ++ log') = held (held h log) log' := by
  induction log generalizing h with
  | nil => rfl
  | cons entry log ih => cases entry <;> exact ih _

theorem inOrder_append (h : List α) (log log' : List (Use α)) :
    InOrder h (log ++ log') ↔ InOrder h log ∧ InOrder (held h log) log' := by
  induction log generalizing h with
  | nil => simp [InOrder, held]
  | cons entry log ih => cases entry <;> simp only [List.cons_append, InOrder, held, ih, and_assoc]

/-- The ledger is in order, and what is held is what is owned. -/
structure Balances (log : List (Use α)) (owned : List α) : Prop where
  inOrder : InOrder [] log
  held : (held [] log).Perm owned

namespace Balances

variable {owned owned' given : List α}

theorem empty : Balances ([] : List (Use α)) [] := ⟨trivial, .nil⟩

theorem perm (hb : Balances log owned) (hp : owned.Perm owned') : Balances log owned' :=
  ⟨hb.inOrder, hb.held.trans hp⟩

theorem acquire (hb : Balances log owned) (ha : a ∉ owned) :
    Balances (log ++ [.acquire a]) (a :: owned) := by
  refine ⟨(inOrder_append _ _ _).mpr ⟨hb.inOrder, ?_, trivial⟩, ?_⟩
  · exact fun hmem => ha (hb.held.mem_iff.mp hmem)
  · rw [held_append]
    exact hb.held.cons a

theorem release (hb : Balances log (a :: owned)) :
    Balances (log ++ [.release a]) owned := by
  have hmem : a ∈ Ledger.held [] log := hb.held.mem_iff.mpr List.mem_cons_self
  refine ⟨(inOrder_append _ _ _).mpr ⟨hb.inOrder, hmem, trivial⟩, ?_⟩
  rw [held_append]
  have herase := hb.held.erase a
  rw [List.erase_cons_head] at herase
  exact herase

/-- Several things are taken, one after the other. -/
theorem acquire_all (hb : Balances log owned) (hn : (given ++ owned).Nodup) :
    Balances (log ++ given.map .acquire) (given ++ owned) := by
  induction given generalizing log owned with
  | nil => simpa using hb
  | cons a given ih =>
      obtain ⟨ha, hrest⟩ := List.nodup_cons.mp hn
      have hfirst := hb.acquire fun hmem => ha (List.mem_append_right given hmem)
      have hnext := ih hfirst (List.nodup_middle.mpr hn)
      rw [List.append_assoc] at hnext
      exact hnext.perm List.perm_middle

/-- Several things are given back, one after the other. -/
theorem release_all (hb : Balances log (given ++ owned)) :
    Balances (log ++ given.map .release) owned := by
  induction given generalizing log with
  | nil => simpa using hb
  | cons a given ih =>
      have hnext := ih hb.release
      rwa [List.append_assoc] at hnext

/-- What is taken and given back at once leaves no trace. -/
theorem borrow (hb : Balances log owned) (ha : a ∉ owned) :
    Balances (log ++ [.acquire a] ++ [.release a]) owned := (hb.acquire ha).release

/-- Nothing is held by one who owns nothing. -/
theorem held_nil (hb : Balances log []) : Ledger.held [] log = [] := hb.held.eq_nil

end Balances

end Ledger

end OpenHft.Lib
