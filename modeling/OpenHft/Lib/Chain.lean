import Mathlib.Data.List.Nodup
import Mathlib.Logic.Function.Basic

/-!
# Linked chains, and the doubly linked list built from two of them

A chain is what a link field spells out when it is followed from a start: a
list of cells and the place the last of them points to. Nothing here knows
what a cell is; the link is any function from cells to optional cells, and a
write to a link field is `Function.update`.

The one operation worth a lemma is `Chain.redirect`: the last cell of a chain
(or, for the empty chain, the start itself) is pointed somewhere else. Both
halves of an intrusive list are edited that way and in no other — an append
redirects the end of the forward chain, an unlink redirects the end of the
part before the cell forwards and the end of the part after it backwards — so
the two list operations below are the same lemma used twice.
-/

namespace OpenHft.Lib

variable {α : Type _}

/-- Following `link` from `start` passes through exactly the cells of the
list, in order, and then stands at `stop`. -/
def Chain (link : α → Option α) : Option α → List α → Option α → Prop
  | start, [], stop => start = stop
  | start, p :: l, stop => start = some p ∧ Chain link (link p) l stop

namespace Chain

variable {link link' : α → Option α} {start mid stop : Option α}

@[simp] theorem nil_iff : Chain link start [] stop ↔ start = stop := Iff.rfl

@[simp] theorem cons_iff {p : α} {l : List α} :
    Chain link start (p :: l) stop ↔
      start = some p ∧ Chain link (link p) l stop := Iff.rfl

theorem append_iff {xs ys : List α} :
    Chain link start (xs ++ ys) stop ↔
      ∃ mid, Chain link start xs mid ∧ Chain link mid ys stop := by
  induction xs generalizing start with
  | nil => simp
  | cons p xs ih => simp [ih, and_assoc]

/-- A chain only reads the links of its own cells. -/
theorem congr {l : List α} (h : Chain link start l stop)
    (heq : ∀ p ∈ l, link' p = link p) : Chain link' start l stop := by
  induction l generalizing start with
  | nil => exact h
  | cons p l ih =>
      refine ⟨h.1, ?_⟩
      rw [heq p (by simp)]
      exact ih h.2 fun q hq => heq q (by simp [hq])

/-- The start of a chain that stops at null is its first cell. -/
theorem start_eq {l : List α} (h : Chain link start l none) :
    start = l.head? := by
  cases l with
  | nil => exact h
  | cons p l => exact h.1

/-- A start and a link spell at most one null-terminated chain. -/
theorem unique {l l' : List α} (h : Chain link start l none)
    (h' : Chain link start l' none) : l = l' := by
  induction l generalizing start l' with
  | nil =>
      cases l' with
      | nil => rfl
      | cons q l' => exact absurd (h.symm.trans h'.1) (by simp)
  | cons p l ih =>
      cases l' with
      | nil => exact absurd (h'.symm.trans h.1) (by simp)
      | cons q l' =>
          obtain rfl : p = q := Option.some.inj (h.1.symm.trans h'.1)
          rw [ih h.2 h'.2]

variable [DecidableEq α]

/-- The start of a chain whose end has been pointed at `stop`: only the
empty chain has its start for an end. -/
def redirectStart (start : Option α) (last : Option α) (stop : Option α) :
    Option α :=
  match last with
  | some _ => start
  | none => stop

/-- The link function after the last cell, if any, is pointed at `stop`. -/
def redirectLink (link : α → Option α) (last : Option α) (stop : Option α) :
    α → Option α :=
  match last with
  | some q => Function.update link q stop
  | none => link

theorem redirectLink_of_ne {last : Option α} {p : α} (h : last ≠ some p) :
    redirectLink link last stop p = link p := by
  cases last with
  | none => rfl
  | some q => exact Function.update_of_ne (fun e => h (by rw [e])) _ _

/-- Pointing the last cell elsewhere moves the end of the chain and nothing
else. -/
theorem redirect {xs : List α} (h : Chain link start xs mid)
    (hnd : xs.Nodup) (stop : Option α) :
    Chain (redirectLink link xs.getLast? stop)
      (redirectStart start xs.getLast? stop) xs stop := by
  rcases List.eq_nil_or_concat' xs with rfl | ⟨ys, q, rfl⟩
  · rfl
  · obtain ⟨m, hys, hq, _⟩ := append_iff.mp h
    have hqys : q ∉ ys := fun hmem =>
      (List.nodup_append.mp hnd).2.2 q hmem q (by simp) rfl
    simp only [List.getLast?_concat, redirectLink, redirectStart]
    refine append_iff.mpr ⟨m, ?_, hq, by simp⟩
    refine hys.congr fun p hp => ?_
    exact Function.update_of_ne (fun e => hqys (by rw [← e]; exact hp)) _ _

end Chain

/-! ## The doubly linked list -/

/-- The list both chains of a doubly linked list spell: the head and the
`next` links forwards, the tail and the `prev` links backwards. -/
structure Dll (next prev : α → Option α) (head tail : Option α)
    (l : List α) : Prop where
  forward : Chain next head l none
  backward : Chain prev tail l.reverse none
  nodup : l.Nodup

namespace Dll

variable {next prev next' prev' : α → Option α} {head tail : Option α}
  {l : List α} {p : α}

theorem empty : Dll next prev none none [] :=
  ⟨rfl, rfl, List.nodup_nil⟩

theorem congr (h : Dll next prev head tail l)
    (hn : ∀ q ∈ l, next' q = next q) (hp : ∀ q ∈ l, prev' q = prev q) :
    Dll next' prev' head tail l :=
  ⟨h.forward.congr hn, h.backward.congr fun q hq => hp q (by simpa using hq),
    h.nodup⟩

theorem head_eq (h : Dll next prev head tail l) : head = l.head? :=
  h.forward.start_eq

theorem tail_eq (h : Dll next prev head tail l) : tail = l.getLast? := by
  rw [h.backward.start_eq, List.head?_reverse]

theorem head_eq_none_iff (h : Dll next prev head tail l) :
    head = none ↔ l = [] := by
  rw [h.head_eq, List.head?_eq_none_iff]

theorem unique {l' : List α} (h : Dll next prev head tail l)
    (h' : Dll next prev head tail l') : l = l' :=
  h.forward.unique h'.forward

/-- The two links of a cell are its neighbours in the list. -/
theorem links_at {xs ys : List α}
    (h : Dll next prev head tail (xs ++ p :: ys)) :
    prev p = xs.getLast? ∧ next p = ys.head? := by
  obtain ⟨_, _, _, hys⟩ := Chain.append_iff.mp h.forward
  have hb := h.backward
  rw [List.reverse_append, List.reverse_cons, List.append_assoc] at hb
  obtain ⟨_, _, _, hxs⟩ := Chain.append_iff.mp hb
  refine ⟨?_, hys.start_eq⟩
  rw [Chain.start_eq hxs]
  simp

variable [DecidableEq α]

/-- Appending a cell that is not in the list: its own links are set, and the
old last cell (or the head) is pointed at it. -/
theorem pushBack (h : Dll next prev head tail l) (hp : p ∉ l)
    (hnp : next' p = none) (hpp : prev' p = tail)
    (hn : ∀ q ∈ l, next' q = Chain.redirectLink next tail (some p) q)
    (hv : ∀ q ∈ l, prev' q = prev q) :
    Dll next' prev' (Chain.redirectStart head tail (some p)) (some p)
      (l ++ [p]) := by
  have htail := h.tail_eq
  refine ⟨?_, ?_, ?_⟩
  · have hfwd := h.forward.redirect h.nodup (some p)
    rw [← htail] at hfwd
    exact Chain.append_iff.mpr ⟨some p, hfwd.congr hn, rfl, hnp⟩
  · rw [List.reverse_append]
    refine ⟨rfl, ?_⟩
    rw [hpp]
    exact h.backward.congr fun q hq => hv q (by simpa using hq)
  · rw [List.nodup_append]
    refine ⟨h.nodup, List.nodup_singleton p, ?_⟩
    intro a ha b hb hab
    rw [List.mem_singleton] at hb
    exact hp (by rw [← hb, ← hab]; exact ha)

/-- Unlinking a cell: the part before it is pointed at what followed it, the
part after it is pointed back at what preceded it. -/
theorem remove {xs ys : List α}
    (h : Dll next prev head tail (xs ++ p :: ys))
    (hn : ∀ q ∈ xs ++ ys,
      next' q = Chain.redirectLink next (prev p) (next p) q)
    (hv : ∀ q ∈ xs ++ ys,
      prev' q = Chain.redirectLink prev (next p) (prev p) q) :
    Dll next' prev' (Chain.redirectStart head (prev p) (next p))
      (Chain.redirectStart tail (next p) (prev p)) (xs ++ ys) := by
  obtain ⟨hprev, hnext⟩ := h.links_at
  obtain ⟨hxs, hpys, hdisj⟩ := List.nodup_append.mp h.nodup
  have hys : ys.Nodup := (List.nodup_cons.mp hpys).2
  have hsplit : ∀ q ∈ ys, q ∉ xs := fun q hq hx =>
    hdisj q hx q (List.mem_cons_of_mem _ hq) rfl
  refine ⟨?_, ?_, ?_⟩
  · -- forwards: the end of `xs` now points at the first of `ys`
    obtain ⟨_, hfx, _, hfy⟩ := Chain.append_iff.mp h.forward
    have hredir := hfx.redirect hxs (next p)
    rw [← hprev] at hredir
    refine Chain.append_iff.mpr ⟨next p, ?_, ?_⟩
    · exact hredir.congr fun q hq => hn q (by simp [hq])
    · refine hfy.congr fun q hq => ?_
      rw [hn q (by simp [hq])]
      refine Chain.redirectLink_of_ne fun e => ?_
      rw [hprev] at e
      exact hsplit q hq (List.mem_of_getLast? e)
  · -- backwards: the end of `ys.reverse` now points at the last of `xs`
    have hb := h.backward
    rw [List.reverse_append, List.reverse_cons, List.append_assoc] at hb
    obtain ⟨_, hby, _, hbx⟩ := Chain.append_iff.mp hb
    have hredir := hby.redirect (List.nodup_reverse.mpr hys) (prev p)
    rw [List.getLast?_reverse, ← hnext] at hredir
    rw [List.reverse_append]
    refine Chain.append_iff.mpr ⟨prev p, ?_, ?_⟩
    · exact hredir.congr fun q hq => hv q (by simp_all)
    · refine Chain.congr hbx fun q hq => ?_
      have hqx : q ∈ xs := by simpa using hq
      rw [hv q (by simp [hqx])]
      refine Chain.redirectLink_of_ne fun e => ?_
      rw [hnext] at e
      exact hsplit q (List.mem_of_head? e) hqx
  · refine List.nodup_append.mpr ⟨hxs, hys, ?_⟩
    exact fun a ha b hb => hdisj a ha b (List.mem_cons_of_mem _ hb)

end Dll

end OpenHft.Lib
