import Mathlib.Order.WellFounded

/-!
# Fair schedules

A machine takes turns of several parties, in the order of an endless schedule in which
everyone has a turn again and again. To show that it comes to an end it is enough to name a
measure and, for every state, a party whose turn brings the measure down, such that a turn of
another party brings it down too or leaves the measure and the party as they are.
-/

namespace OpenHft.Lib

variable {σ ι W : Type}

/-- The state after so many turns. -/
def along (next : σ → ι → σ) (s : σ) (schedule : Nat → ι) : Nat → σ
  | 0 => s
  | n + 1 => next (along next s schedule n) (schedule n)

theorem along_eq_foldl (next : σ → ι → σ) (s : σ) (schedule : Nat → ι) (n : Nat) :
    along next s schedule n = ((List.range n).map schedule).foldl next s := by
  induction n with
  | zero => rfl
  | succ n ih =>
      rw [along, ih, List.range_succ, List.map_append, List.foldl_append]
      rfl

/-- Everybody's turn comes again and again. -/
def Fair (schedule : Nat → ι) : Prop := ∀ i n, ∃ m, n ≤ m ∧ schedule m = i

/-- The party `helpful` brings the measure down, and the others do not stand in its way. -/
structure Helped [LT W] (next : σ → ι → σ) (inv done : σ → Prop) (measure : σ → W)
    (helpful : σ → ι) : Prop where
  keeps : ∀ s i, inv s → inv (next s i)
  helps : ∀ s, inv s → ¬ done s → measure (next s (helpful s)) < measure s
  others : ∀ s i, inv s → ¬ done s → i ≠ helpful s → measure (next s i) < measure s ∨
    measure (next s i) = measure s ∧ helpful (next s i) = helpful s

namespace Helped

variable [LT W] {next : σ → ι → σ} {inv done : σ → Prop} {measure : σ → W} {helpful : σ → ι}
  {s : σ}

theorem along_inv (h : Helped next inv done measure helpful) (hs : inv s)
    (schedule : Nat → ι) (n : Nat) :
    inv (along next s schedule n) := by
  induction n with
  | zero => exact hs
  | succ n ih => exact h.keeps _ _ ih

/-- Until the helpful party has its turn, the measure comes down or nothing changes. -/
theorem waits (h : Helped next inv done measure helpful) (hs : inv s)
    (schedule : Nat → ι) (n k : Nat) :
    (∃ m, n ≤ m ∧ done (along next s schedule m)) ∨
      (∃ m, n ≤ m ∧ measure (along next s schedule m) < measure (along next s schedule n)) ∨
      measure (along next s schedule (n + k)) = measure (along next s schedule n) ∧
        helpful (along next s schedule (n + k)) = helpful (along next s schedule n) := by
  induction k with
  | zero => exact .inr (.inr ⟨rfl, rfl⟩)
  | succ k ih =>
      rcases ih with hdone | hless | ⟨hmeasure, hhelpful⟩
      · exact .inl hdone
      · exact .inr (.inl hless)
      · by_cases hdone : done (along next s schedule (n + k))
        · exact .inl ⟨n + k, Nat.le_add_right n k, hdone⟩
        have hinv := h.along_inv hs schedule (n + k)
        have hstep : along next s schedule (n + (k + 1)) =
            next (along next s schedule (n + k)) (schedule (n + k)) := rfl
        by_cases hturn : schedule (n + k) = helpful (along next s schedule (n + k))
        · refine .inr (.inl ⟨n + (k + 1), Nat.le_add_right n _, ?_⟩)
          rw [hstep, hturn, ← hmeasure]
          exact h.helps _ hinv hdone
        · rcases h.others _ _ hinv hdone hturn with hless | ⟨heq, hsame⟩
          · refine .inr (.inl ⟨n + (k + 1), Nat.le_add_right n _, ?_⟩)
            rw [hstep, ← hmeasure]
            exact hless
          · rw [hstep]
            exact .inr (.inr ⟨heq.trans hmeasure, hsame.trans hhelpful⟩)

end Helped

/-- The rule: the machine comes to an end. -/
theorem Helped.reaches [LT W] [WellFoundedLT W] {next : σ → ι → σ} {inv done : σ → Prop}
    {measure : σ → W} {helpful : σ → ι} {s : σ} {schedule : Nat → ι}
    (h : Helped next inv done measure helpful) (hs : inv s) (hfair : Fair schedule) :
    ∃ n, done (along next s schedule n) := by
  have hfrom : ∀ w n, measure (along next s schedule n) = w →
      ∃ m, n ≤ m ∧ done (along next s schedule m) := by
    intro w
    induction w using WellFoundedLT.induction with
    | ind w ih =>
        intro n hn
        obtain ⟨m, hm, hturn⟩ := hfair (helpful (along next s schedule n)) n
        obtain ⟨k, rfl⟩ := Nat.exists_eq_add_of_le hm
        have hless : (∃ m, n ≤ m ∧ done (along next s schedule m)) ∨ ∃ m, n ≤ m ∧
            measure (along next s schedule m) < measure (along next s schedule n) := by
          rcases h.waits hs schedule n k with hdone | hless | ⟨hmeasure, hhelpful⟩
          · exact .inl hdone
          · exact .inr hless
          · by_cases hdone : done (along next s schedule (n + k))
            · exact .inl ⟨n + k, hm, hdone⟩
            refine .inr ⟨n + k + 1, Nat.le_succ_of_le hm, ?_⟩
            rw [along, hturn, ← hhelpful, ← hmeasure]
            exact h.helps _ (h.along_inv hs schedule _) hdone
        rcases hless with hdone | ⟨m, hm, hless⟩
        · exact hdone
        · obtain ⟨m', hm', hdone⟩ := ih _ (hn ▸ hless) m rfl
          exact ⟨m', Nat.le_trans hm hm', hdone⟩
  obtain ⟨m, -, hdone⟩ := hfrom _ 0 rfl
  exact ⟨m, hdone⟩

end OpenHft.Lib
