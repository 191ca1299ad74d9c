/-!
# Runs that stay good, and the steps that keep them so

A machine takes inputs one after the other and a step may fault. `Throughout good`
says that no step of a run faults and that every state of the run is good;
`StepsMeet cond` says that every step of the run, in the state it starts from, meets
a condition. When the condition is what one step needs, it is what runs need.
-/

namespace OpenHft.Lib

/-- A computation that has come to its end, taken apart. -/
theorem bind_eq_ok {ε α β : Type} {x : Except ε α} {f : α → Except ε β} {b : β} :
    x >>= f = .ok b ↔ ∃ a, x = .ok a ∧ f a = .ok b := by
  cases x with
  | error fault => exact ⟨fun h => (by cases h), fun ⟨_, h, _⟩ => (by cases h)⟩
  | ok a => exact ⟨fun h => ⟨a, rfl, h⟩, fun ⟨_, h, hf⟩ => (by cases h; exact hf)⟩

theorem map_eq_ok {ε α β : Type} {x : Except ε α} {f : α → β} {b : β} :
    x.map f = .ok b ↔ ∃ a, x = .ok a ∧ f a = b := by
  cases x with
  | error fault => exact ⟨fun h => (by cases h), fun ⟨_, h, _⟩ => (by cases h)⟩
  | ok a =>
      refine ⟨fun h => ⟨a, rfl, Except.ok.inj h⟩, ?_⟩
      rintro ⟨_, ha, rfl⟩
      cases ha
      rfl

variable {σ ι ε : Type} (step : σ → ι → Except ε σ)

/-- No step of the run fails, and every state on the way is `good`. -/
def Throughout (good : σ → Prop) : σ → List ι → Prop
  | s, [] => good s
  | s, i :: inputs => good s ∧ ∃ s', step s i = .ok s' ∧ Throughout good s' inputs

/-- Each input meets `cond` in the state it comes in, as far as the run gets. -/
def StepsMeet (cond : σ → ι → Prop) : σ → List ι → Prop
  | _, [] => True
  | s, i :: inputs => cond s i ∧ ∀ s', step s i = .ok s' → StepsMeet cond s' inputs

variable {step} {good : σ → Prop} {cond : σ → ι → Prop}

theorem Throughout.start {s : σ} {inputs : List ι} (h : Throughout step good s inputs) :
    good s := by
  cases inputs with
  | nil => exact h
  | cons i inputs => exact h.1

theorem StepsMeet.of_forall {s : σ} {inputs : List ι} (h : ∀ i ∈ inputs, ∀ s, cond s i) :
    StepsMeet step cond s inputs := by
  induction inputs generalizing s with
  | nil => trivial
  | cons i inputs ih =>
      exact ⟨h i List.mem_cons_self s, fun s' _ => ih fun j hj => h j (List.mem_cons_of_mem i hj)⟩

theorem StepsMeet.mono_mem {cond' : σ → ι → Prop} {s : σ} {inputs : List ι}
    (hmeet : StepsMeet step cond s inputs) (h : ∀ i ∈ inputs, ∀ s, cond s i → cond' s i) :
    StepsMeet step cond' s inputs := by
  induction inputs generalizing s with
  | nil => trivial
  | cons i inputs ih =>
      exact ⟨h i List.mem_cons_self s hmeet.1, fun s' hstep =>
        ih (hmeet.2 s' hstep) fun j hj => h j (List.mem_cons_of_mem i hj)⟩

theorem StepsMeet.mono {cond' : σ → ι → Prop} (h : ∀ s i, cond s i → cond' s i) {s : σ}
    {inputs : List ι} (hmeet : StepsMeet step cond s inputs) :
    StepsMeet step cond' s inputs :=
  hmeet.mono_mem fun i _ s => h s i

theorem StepsMeet.and {cond' : σ → ι → Prop} {s : σ} {inputs : List ι}
    (h : StepsMeet step cond s inputs) (h' : StepsMeet step cond' s inputs) :
    StepsMeet step (fun s i => cond s i ∧ cond' s i) s inputs := by
  induction inputs generalizing s with
  | nil => trivial
  | cons i inputs ih =>
      exact ⟨⟨h.1, h'.1⟩, fun s' hstep => ih (h.2 s' hstep) (h'.2 s' hstep)⟩

/-- A condition under which every step keeps an invariant, for inputs of a kind. -/
theorem StepsMeet.throughout (allowed : ι → Prop) (inv : σ → Prop)
    (hgood : ∀ s, inv s → good s)
    (hkeep : ∀ s i, allowed i → inv s → cond s i → ∃ s', step s i = .ok s' ∧ inv s')
    {s : σ} (hs : inv s) {inputs : List ι} (hinputs : ∀ i ∈ inputs, allowed i)
    (hmeet : StepsMeet step cond s inputs) : Throughout step good s inputs := by
  induction inputs generalizing s with
  | nil => exact hgood s hs
  | cons i inputs ih =>
      obtain ⟨s₁, hstep₁, hs₁⟩ := hkeep s i (hinputs i List.mem_cons_self) hs hmeet.1
      exact ⟨hgood s hs, s₁, hstep₁,
        ih hs₁ (fun j hj => hinputs j (List.mem_cons_of_mem i hj)) (hmeet.2 s₁ hstep₁)⟩

/-- The same for inputs of a kind: what one step needs is what runs need. -/
theorem throughout_iff_of (allowed : ι → Prop) (inv : σ → Prop)
    (hgood : ∀ s, inv s → good s)
    (hkeep : ∀ s i, allowed i → inv s → cond s i → ∃ s', step s i = .ok s' ∧ inv s')
    (hneed : ∀ s i s', allowed i → inv s → step s i = .ok s' → good s' → cond s i)
    {s : σ} (hs : inv s) (inputs : List ι) (hinputs : ∀ i ∈ inputs, allowed i) :
    Throughout step good s inputs ↔ StepsMeet step cond s inputs := by
  refine ⟨fun hthrough => ?_, StepsMeet.throughout allowed inv hgood hkeep hs hinputs⟩
  induction inputs generalizing s with
  | nil => trivial
  | cons i inputs ih =>
      obtain ⟨-, s', hstep, hthrough⟩ := hthrough
      have hi := hinputs i List.mem_cons_self
      have hc := hneed s i s' hi hs hstep hthrough.start
      obtain ⟨s₁, hstep₁, hs₁⟩ := hkeep s i hi hs hc
      refine ⟨hc, fun s₂ hstep₂ => ?_⟩
      cases hstep.symm.trans hstep₁
      cases hstep.symm.trans hstep₂
      exact ih hs₁ (fun j hj => hinputs j (List.mem_cons_of_mem i hj)) hthrough

theorem throughout_iff (inv : σ → Prop) (hgood : ∀ s, inv s → good s)
    (hkeep : ∀ s i, inv s → cond s i → ∃ s', step s i = .ok s' ∧ inv s')
    (hneed : ∀ s i s', inv s → step s i = .ok s' → good s' → cond s i)
    {s : σ} (hs : inv s) (inputs : List ι) :
    Throughout step good s inputs ↔ StepsMeet step cond s inputs :=
  throughout_iff_of (fun _ => True) inv hgood (fun s i _ => hkeep s i)
    (fun s i s' _ => hneed s i s') hs inputs fun _ _ => trivial

/-! ## Machines that do not fault -/

/-- Every step of the run meets the condition, in the state it starts from. -/
def Meets (next : σ → ι → σ) (cond : σ → ι → Prop) : σ → List ι → Prop
  | _, [] => True
  | s, i :: inputs => cond s i ∧ Meets next cond (next s i) inputs

instance {next : σ → ι → σ} [∀ s i, Decidable (cond s i)] :
    ∀ s inputs, Decidable (Meets next cond s inputs)
  | _, [] => .isTrue trivial
  | s, i :: inputs =>
      have : Decidable (Meets next cond (next s i) inputs) := instDecidableMeets (next s i) inputs
      inferInstanceAs (Decidable (cond s i ∧ Meets next cond (next s i) inputs))

theorem Meets.invariant {next : σ → ι → σ} (inv : σ → Prop)
    (hkeep : ∀ s i, inv s → cond s i → inv (next s i)) {s : σ} (hs : inv s) {inputs : List ι}
    (hmeets : Meets next cond s inputs) : inv (inputs.foldl next s) := by
  induction inputs generalizing s with
  | nil => exact hs
  | cons i inputs ih => exact ih (hkeep s i hs hmeets.1) hmeets.2

end OpenHft.Lib
