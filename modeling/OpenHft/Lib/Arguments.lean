import Mathlib.Data.List.Basic

/-!
# Loops over arguments

A loop over a list of arguments: a turn looks at an argument and at what is behind it, changes
a state, and says how many of the arguments behind it were its values. A grammar says how
options are written and what they set. When the turns read the options of the grammar, the
loop accepts the lists that are options one behind the other, each of them in one way only, and
fails at the first argument where there is no option.
-/

namespace OpenHft.Lib

variable {α σ ε ο : Type}

/-- The loop, with so many arguments to skip. -/
def readArguments (turn : σ → α → List α → Except ε (σ × Nat)) (s : σ) (skip : Nat) :
    List α → Except ε σ
  | [] => .ok s
  | argument :: rest =>
      match skip with
      | skip + 1 => readArguments turn s skip rest
      | 0 =>
          match turn s argument rest with
          | .error e => .error e
          | .ok (s, values) => readArguments turn s values rest

/-- How options are written, which of them there are, and what they set. -/
structure OptionGrammar (α σ ο : Type) where
  render : ο → List α
  Valid : ο → Prop
  apply : σ → ο → σ

namespace OptionGrammar

variable {g : OptionGrammar α σ ο} {turn : σ → α → List α → Except ε (σ × Nat)}

/-- The arguments are the options, one behind the other. -/
structure Writes (g : OptionGrammar α σ ο) (options : List ο) (arguments : List α) : Prop where
  valid : ∀ o ∈ options, g.Valid o
  arguments : arguments = (options.map g.render).flatten

/-- A turn takes an option, and takes every option. -/
structure ReadBy (g : OptionGrammar α σ ο) (turn : σ → α → List α → Except ε (σ × Nat)) :
    Prop where
  sound : ∀ s argument rest s' values, turn s argument rest = .ok (s', values) →
    values ≤ rest.length ∧ ∃ o, g.Valid o ∧ g.render o = argument :: rest.take values ∧
      s' = g.apply s o
  complete : ∀ s o, g.Valid o → ∃ argument values, g.render o = argument :: values ∧
    ∀ rest, turn s argument (values ++ rest) = .ok (g.apply s o, values.length)
  injective : ∀ o o', g.render o = g.render o' → o = o'

end OptionGrammar

theorem readArguments_skip (turn : σ → α → List α → Except ε (σ × Nat)) (s : σ)
    (values rest : List α) :
    readArguments turn s values.length (values ++ rest) = readArguments turn s 0 rest := by
  induction values with
  | nil => rfl
  | cons value values ih => exact ih

theorem readArguments_drop {turn : σ → α → List α → Except ε (σ × Nat)} {s : σ} {values : Nat}
    {rest : List α} (h : values ≤ rest.length) :
    readArguments turn s values rest = readArguments turn s 0 (rest.drop values) := by
  have hskip := readArguments_skip turn s (rest.take values) (rest.drop values)
  rwa [List.take_append_drop, List.length_take_of_le h] at hskip

namespace OptionGrammar

variable {g : OptionGrammar α σ ο} {turn : σ → α → List α → Except ε (σ × Nat)}
  {options options' : List ο} {arguments : List α} {s s' : σ} {e : ε}

theorem Writes.nil : g.Writes [] [] := ⟨fun _ h => absurd h List.not_mem_nil, rfl⟩

theorem Writes.cons {o : ο} (ho : g.Valid o) (h : g.Writes options arguments) :
    g.Writes (o :: options) (g.render o ++ arguments) :=
  ⟨List.forall_mem_cons.mpr ⟨ho, h.valid⟩, by rw [h.arguments]; rfl⟩

/-- Options are read and what they set is set. -/
theorem ReadBy.of_writes (hr : g.ReadBy turn) (s : σ) (h : g.Writes options arguments)
    (rest : List α) :
    readArguments turn s 0 (arguments ++ rest) =
      readArguments turn (options.foldl g.apply s) 0 rest := by
  rw [h.arguments]
  have hvalid := h.valid
  clear h
  induction options generalizing s with
  | nil => rfl
  | cons o options ih =>
      obtain ⟨ho, hrest⟩ := List.forall_mem_cons.mp hvalid
      obtain ⟨argument, values, hrender, hturn⟩ := hr.complete s o ho
      rw [List.map_cons, List.flatten_cons, hrender, List.append_assoc, List.cons_append,
        readArguments, hturn, List.foldl_cons]
      exact (readArguments_skip _ _ _ _).trans (ih (g.apply s o) hrest)

/-- What the loop makes of a list: all of it is options, or the first part of it is and then
there is an argument that is refused. -/
theorem ReadBy.outcome (hr : g.ReadBy turn) (s : σ) (arguments : List α) :
    (∃ options, g.Writes options arguments ∧
      readArguments turn s 0 arguments = .ok (options.foldl g.apply s)) ∨
    ∃ options front argument rest e, g.Writes options front ∧
      arguments = front ++ argument :: rest ∧
      turn (options.foldl g.apply s) argument rest = .error e ∧
      readArguments turn s 0 arguments = .error e := by
  -- a turn may take several arguments, hence the induction on the length
  induction hlength : arguments.length using Nat.strongRecOn generalizing s arguments with
  | ind length ih =>
      cases arguments with
      | nil => exact .inl ⟨[], .nil, rfl⟩
      | cons argument rest =>
          rw [readArguments]
          cases hturn : turn s argument rest with
          | error e => exact .inr ⟨[], [], argument, rest, e, .nil, rfl, hturn, rfl⟩
          | ok out =>
              obtain ⟨next, values⟩ := out
              obtain ⟨hle, o, ho, hrender, rfl⟩ := hr.sound s argument rest next values hturn
              have hsplit : argument :: rest = g.render o ++ rest.drop values := by
                rw [hrender, List.cons_append, List.take_append_drop]
              have hshorter : (rest.drop values).length < length := by
                rw [← hlength, List.length_drop, List.length_cons]
                omega
              dsimp only
              rw [readArguments_drop hle, hsplit]
              rcases ih _ hshorter (g.apply s o) (rest.drop values) rfl with
                ⟨options, hwrites, hok⟩ |
                ⟨options, front, refused, behind, e, hwrites, heq, herror, hread⟩
              · exact .inl ⟨o :: options, hwrites.cons ho, hok⟩
              · refine .inr ⟨o :: options, g.render o ++ front, refused, behind, e,
                  hwrites.cons ho, ?_, herror, hread⟩
                rw [heq, List.append_assoc]

theorem ReadBy.ok_iff (hr : g.ReadBy turn) :
    readArguments turn s 0 arguments = .ok s' ↔
      ∃ options, g.Writes options arguments ∧ s' = options.foldl g.apply s := by
  constructor
  · intro h
    rcases hr.outcome s arguments with ⟨options, hwrites, hok⟩ |
      ⟨options, front, argument, rest, e, -, -, -, herror⟩
    · exact ⟨options, hwrites, Except.ok.inj (h.symm.trans hok)⟩
    · cases h.symm.trans herror
  · rintro ⟨options, hwrites, rfl⟩
    have h := hr.of_writes s hwrites []
    rwa [List.append_nil] at h

theorem ReadBy.error_iff (hr : g.ReadBy turn) :
    readArguments turn s 0 arguments = .error e ↔
      ∃ options front argument rest, g.Writes options front ∧
        arguments = front ++ argument :: rest ∧
        turn (options.foldl g.apply s) argument rest = .error e := by
  constructor
  · intro h
    rcases hr.outcome s arguments with ⟨options, -, hok⟩ |
      ⟨options, front, argument, rest, e', hwrites, heq, herror, hread⟩
    · cases h.symm.trans hok
    · cases h.symm.trans hread
      exact ⟨options, front, argument, rest, hwrites, heq, herror⟩
  · rintro ⟨options, front, argument, rest, hwrites, rfl, herror⟩
    rw [hr.of_writes s hwrites, readArguments, herror]

/-- Arguments are options in one way. -/
theorem ReadBy.writes_unique (hr : g.ReadBy turn) (s : σ) (h : g.Writes options arguments)
    (h' : g.Writes options' arguments) : options = options' := by
  have heq := h.arguments.symm.trans h'.arguments
  have hvalid := h.valid
  have hvalid' := h'.valid
  clear h h'
  induction options generalizing options' with
  | nil =>
      cases options' with
      | nil => rfl
      | cons o' options' =>
          obtain ⟨argument, values, hrender, -⟩ :=
            hr.complete s o' (hvalid' o' List.mem_cons_self)
          rw [List.map_cons, List.flatten_cons, hrender] at heq
          cases heq
  | cons o options ih =>
      obtain ⟨ho, hrest⟩ := List.forall_mem_cons.mp hvalid
      obtain ⟨argument, values, hrender, hturn⟩ := hr.complete s o ho
      cases options' with
      | nil =>
          rw [List.map_cons, List.flatten_cons, hrender] at heq
          cases heq
      | cons o' options' =>
          obtain ⟨ho', hrest'⟩ := List.forall_mem_cons.mp hvalid'
          obtain ⟨argument', values', hrender', hturn'⟩ := hr.complete s o' ho'
          simp only [List.map_cons, List.flatten_cons, hrender, hrender', List.cons_append,
            List.cons.injEq] at heq
          obtain ⟨rfl, heq⟩ := heq
          -- both are read by the same turn, so they have as many values
          have hsame := hturn ((options.map g.render).flatten)
          rw [heq, hturn'] at hsame
          have hlength : values.length = values'.length :=
            (congrArg Prod.snd (Except.ok.inj hsame)).symm
          obtain ⟨rfl, htail⟩ := List.append_inj heq hlength
          cases hr.injective o o' (hrender.trans hrender'.symm)
          rw [ih htail hrest hrest']

end OptionGrammar

end OpenHft.Lib
