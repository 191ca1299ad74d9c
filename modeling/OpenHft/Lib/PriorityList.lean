import Mathlib.Data.List.Sort

/-!
# Lists by priority, first come first served

A list kept in order of a key, smallest first, where a new element goes behind
everything whose key is not larger. Elements of one key then stand in the order
they arrived. The insertion is Mathlib's `orderedInsert` for the strict order of
the keys; what is added here is how the elements of one key see it: a new
element is the last of its own key, and no other key notices.
-/

namespace OpenHft.Lib

variable {α κ : Type*} [LinearOrder κ] (key : α → κ)

/-- The list is in order of the key. -/
def ByPriority (l : List α) : Prop := l.Pairwise fun a b => key a ≤ key b

/-- Insert behind everything whose key is not larger. -/
def insertBehind (o : α) (l : List α) : List α :=
  l.orderedInsert (fun a b => key a < key b) o

variable {key} {l : List α} {o : α}

theorem mem_insertBehind {x : α} : x ∈ insertBehind key o l ↔ x = o ∨ x ∈ l :=
  List.mem_orderedInsert _

/-- Everything from the insertion point on has a larger key. -/
theorem ByPriority.lt_of_lt_head {b x : α} (h : ByPriority key (b :: l))
    (hlt : key o < key b) (hx : x ∈ b :: l) : key o < key x := by
  rcases List.mem_cons.mp hx with rfl | hx
  · exact hlt
  · exact lt_of_lt_of_le hlt ((List.pairwise_cons.mp h).1 x hx)

theorem ByPriority.insertBehind (h : ByPriority key l) :
    ByPriority key (insertBehind key o l) := by
  induction l with
  | nil => exact List.pairwise_singleton _ o
  | cons b l ih =>
      obtain ⟨hb, hl⟩ := List.pairwise_cons.mp h
      rw [Lib.insertBehind, List.orderedInsert_cons]
      split
      · next hlt =>
          refine List.pairwise_cons.mpr ⟨fun x hx => ?_, h⟩
          exact le_of_lt (ByPriority.lt_of_lt_head h hlt hx)
      · next hge =>
          refine List.pairwise_cons.mpr ⟨fun x hx => ?_, ih hl⟩
          rcases mem_insertBehind.mp hx with rfl | hx
          · exact le_of_not_gt hge
          · exact hb x hx

/-- A new element is the last of its own key. -/
theorem ByPriority.filter_insertBehind_self (h : ByPriority key l) {p : α → Bool}
    (ho : p o = true) (hp : ∀ x ∈ l, p x = true ↔ key x = key o) :
    (Lib.insertBehind key o l).filter p = l.filter p ++ [o] := by
  induction l with
  | nil => simp [Lib.insertBehind, ho]
  | cons b l ih =>
      have hl := (List.pairwise_cons.mp h).2
      rw [Lib.insertBehind, List.orderedInsert_cons]
      split
      · next hlt =>
          have hnone : (b :: l).filter p = [] := by
            rw [List.filter_eq_nil_iff]
            intro x hx
            rw [hp x hx]
            exact (ByPriority.lt_of_lt_head h hlt hx).ne'
          rw [List.filter_cons_of_pos ho, hnone, List.nil_append]
      · have ih := ih hl fun x hx => hp x (List.mem_cons_of_mem b hx)
        by_cases hb : p b = true
        · rw [List.filter_cons_of_pos hb, List.filter_cons_of_pos hb, List.cons_append]
          exact congrArg (b :: ·) ih
        · rw [List.filter_cons_of_neg hb, List.filter_cons_of_neg hb]
          exact ih

/-- The other keys do not notice. -/
theorem filter_insertBehind_of_neg {p : α → Bool} (ho : ¬ p o = true) :
    (insertBehind key o l).filter p = l.filter p := by
  induction l with
  | nil => rw [insertBehind, List.orderedInsert_nil, List.filter_cons_of_neg ho]
  | cons b l ih =>
      rw [insertBehind, List.orderedInsert_cons]
      split
      · rw [List.filter_cons_of_neg ho]
      · by_cases hb : p b = true
        · rw [List.filter_cons_of_pos hb, List.filter_cons_of_pos hb]
          exact congrArg (b :: ·) ih
        · rw [List.filter_cons_of_neg hb, List.filter_cons_of_neg hb]
          exact ih

end OpenHft.Lib
