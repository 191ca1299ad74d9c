import Mathlib.Data.Fintype.Card
import OpenHft.Lib.Cyclic
import OpenHft.Model.FixedHashMap

/-!
# The open-addressing table is a finite map

`Wf` is the invariant of linear probing with tombstones: walking from the slot
a key hashes to, the key is met before any empty slot; no key occupies two
slots; and `size_` counts the occupied ones. Under it `find` answers from the
occupied slots alone, so it can stand for the map the table represents, and
the two updates are stated by what they do to `find`.

The only argument with anything in it is `insertLoop_cases`. The loop stops on
the key, on an empty slot, or after a full turn, and in the last two cases the
invariant says the key was nowhere; the slot it then writes is the first
tombstone it passed, or the empty slot, and either way every slot walked over
before it is in use or was.
-/

namespace OpenHft.FixedHashMap

open OpenHft.Lib

variable {K V : Type} {n : Nat}

theorem nextIndex_walk [NeZero n] (start : Fin n) (i : Nat) :
    nextIndex (walk start i) = walk start (i + 1) := (walk_succ start i).symm

/-- A slot that holds the key. -/
def Holds (m : FixedHashMap K V n) (slot : Fin n) (key : K) : Prop :=
  (m.entries slot).state = .occupied ∧ (m.entries slot).key = key

/-- The slots in use. -/
def occupiedSlots (m : FixedHashMap K V n) : Finset (Fin n) :=
  Finset.univ.filter fun slot => (m.entries slot).state = .occupied

theorem mem_occupiedSlots {m : FixedHashMap K V n} {slot : Fin n} :
    slot ∈ m.occupiedSlots ↔ (m.entries slot).state = .occupied := by
  simp [occupiedSlots]

variable [NeZero n]

/-- Every slot on the first `d` steps of the key's walk is or was in use. -/
def Trail (m : FixedHashMap K V n) (key : K) (d : Nat) : Prop :=
  ∀ e < d, (m.entries (walk (m.hash key) e)).state ≠ .empty

/-- Every key is found by a probe that meets no `empty` slot on the way, is in one slot only,
and is counted. -/
structure Wf (m : FixedHashMap K V n) : Prop where
  reach : ∀ slot key, m.Holds slot key →
    ∃ d < n, walk (m.hash key) d = slot ∧ m.Trail key d
  unique : ∀ slot slot' key, m.Holds slot key → m.Holds slot' key →
    slot = slot'
  count : m.size = m.occupiedSlots.card

theorem init_wf [Inhabited K] [Inhabited V] (stdHash : K → Nat) :
    (init stdHash : FixedHashMap K V n).Wf where
  reach := fun _ _ h => absurd h.1 (by simp [init])
  unique := fun _ _ _ h => absurd h.1 (by simp [init])
  count := by simp [init, occupiedSlots]

section Find

variable [DecidableEq K] {m : FixedHashMap K V n} {key : K}

theorem holds_of_findSlot {probes : Nat} {index slot : Fin n}
    (h : m.findSlot key probes index = some slot) : m.Holds slot key := by
  induction probes generalizing index with
  | zero => simp [findSlot] at h
  | succ probes ih =>
      rw [findSlot] at h
      split at h
      · cases h
      · split at h
        · next hhit => cases h; exact hhit
        · exact ih h

/-- A probe that starts `i` steps into the key's walk and has enough turns
left stops at the key. -/
theorem findSlot_of_reach (hm : m.Wf) {d : Nat}
    (hd : m.Holds (walk (m.hash key) d) key) (htrail : m.Trail key d) :
    ∀ probes i : Nat, i ≤ d → d < i + probes →
      m.findSlot key probes (walk (m.hash key) i) =
        some (walk (m.hash key) d) := by
  intro probes
  induction probes with
  | zero => intro i hi hlt; omega
  | succ probes ih =>
      intro i hi hlt
      rw [findSlot]
      rcases Nat.eq_or_lt_of_le hi with rfl | hid
      · rw [if_neg (by rw [hd.1]; decide), if_pos ⟨hd.1, hd.2⟩]
      · rw [if_neg (htrail i hid)]
        split
        · next hhit => rw [hm.unique _ _ key hhit hd]
        · rw [nextIndex_walk]
          exact ih _ hid (by omega)

theorem findSlot_eq_some_iff (hm : m.Wf) {slot : Fin n} :
    m.findSlot key n (m.hash key) = some slot ↔ m.Holds slot key := by
  refine ⟨holds_of_findSlot, fun h => ?_⟩
  obtain ⟨d, hd, rfl, htrail⟩ := hm.reach _ _ h
  have := findSlot_of_reach hm h htrail n 0 (Nat.zero_le d) (by omega)
  rwa [walk_zero] at this

theorem findSlot_eq_none_iff (hm : m.Wf) :
    m.findSlot key n (m.hash key) = none ↔ ∀ slot, ¬ m.Holds slot key := by
  rw [Option.eq_none_iff_forall_ne_some]
  exact forall_congr' fun slot => not_congr (findSlot_eq_some_iff hm)

/-- `find` answers from the occupied slots alone. -/
theorem find_eq_some_iff (hm : m.Wf) {value : V} :
    m.find key = some value ↔
      ∃ slot, m.Holds slot key ∧ (m.entries slot).value = value := by
  simp only [find, Option.map_eq_some_iff, findSlot_eq_some_iff hm]

theorem find_eq_none_iff (hm : m.Wf) :
    m.find key = none ↔ ∀ slot, ¬ m.Holds slot key := by
  rw [find, Option.map_eq_none_iff, findSlot_eq_none_iff hm]

theorem size_pos (hm : m.Wf) {value : V} (h : m.find key = some value) :
    0 < m.size := by
  obtain ⟨slot, hs, _⟩ := (find_eq_some_iff hm).mp h
  rw [hm.count]
  exact Finset.card_pos.mpr ⟨slot, mem_occupiedSlots.mpr hs.1⟩

theorem find_of_holds (hm : m.Wf) {slot : Fin n} (h : m.Holds slot key) :
    m.find key = some (m.entries slot).value :=
  (find_eq_some_iff hm).mpr ⟨slot, h, rfl⟩

/-- Two tables in which the same slots hold the same keys and values find the
same things. -/
theorem find_congr {m' : FixedHashMap K V n} (hm : m.Wf) (hm' : m'.Wf)
    (h : ∀ slot, m'.Holds slot key ↔ m.Holds slot key)
    (hv : ∀ slot, m.Holds slot key →
      (m'.entries slot).value = (m.entries slot).value) :
    m'.find key = m.find key := by
  cases hf : m.find key with
  | none =>
      rw [find_eq_none_iff hm']
      intro slot hs
      exact (find_eq_none_iff hm).mp hf slot ((h slot).mp hs)
  | some value =>
      obtain ⟨slot, hs, rfl⟩ := (find_eq_some_iff hm).mp hf
      exact (find_eq_some_iff hm').mpr ⟨slot, (h slot).mpr hs, hv slot hs⟩

end Find

/-! ## Filling a slot -/

section Occupy

variable {m : FixedHashMap K V n} {key : K} {value : V} {target : Fin n}

omit [NeZero n] in
theorem occupy_holds_iff {slot : Fin n} {key' : K} :
    (m.occupy target key value).Holds slot key' ↔
      (slot = target ∧ key = key') ∨ (slot ≠ target ∧ m.Holds slot key') := by
  by_cases hs : slot = target
  · subst hs
    simp [Holds, occupy]
  · simp [Holds, occupy, hs]

theorem occupy_trail {key' : K} {d : Nat} (h : m.Trail key' d) :
    (m.occupy target key value).Trail key' d := by
  intro e he
  show (Function.update m.entries target _ (walk (m.hash key') e)).state ≠ _
  by_cases hs : walk (m.hash key') e = target
  · rw [hs, Function.update_self]
    simp
  · rw [Function.update_of_ne hs]
    exact h e he

/-- Writing an absent key into a free slot at the end of its trail. -/
theorem occupy_wf (hm : m.Wf) (habs : ∀ slot, ¬ m.Holds slot key)
    (hfree : (m.entries target).state ≠ .occupied) {d : Nat} (hd : d < n)
    (htarget : walk (m.hash key) d = target) (htrail : m.Trail key d) :
    (m.occupy target key value).Wf where
  reach := by
    intro slot key' hs
    rcases occupy_holds_iff.mp hs with ⟨rfl, rfl⟩ | ⟨_, hs'⟩
    · exact ⟨d, hd, htarget, occupy_trail htrail⟩
    · obtain ⟨d', hd', hw, ht⟩ := hm.reach _ _ hs'
      exact ⟨d', hd', hw, occupy_trail ht⟩
  unique := by
    intro slot slot' key' hs hs'
    rcases occupy_holds_iff.mp hs with ⟨rfl, rfl⟩ | ⟨_, h₁⟩ <;>
      rcases occupy_holds_iff.mp hs' with ⟨rfl, hk⟩ | ⟨_, h₂⟩
    · rfl
    · exact absurd h₂ (habs _)
    · rw [← hk] at h₁
      exact absurd h₁ (habs _)
    · exact hm.unique _ _ _ h₁ h₂
  count := by
    show m.size + 1 = _
    have hset : (m.occupy target key value).occupiedSlots =
        Insert.insert target m.occupiedSlots := by
      ext slot
      rw [Finset.mem_insert, mem_occupiedSlots, mem_occupiedSlots]
      by_cases hs : slot = target
      · subst hs; simp [occupy]
      · simp [occupy, hs]
    rw [hset, Finset.card_insert_of_notMem (by rwa [mem_occupiedSlots]),
      hm.count]

end Occupy

/-! ## `insert` -/

section Insert

variable {m : FixedHashMap K V n} {key : K} {value : V}

/-- What the loop of `insert` remembers in `first_deleted`: the first
tombstone of the trail, or that there was none. -/
def SeenDeleted (m : FixedHashMap K V n) (key : K) (i : Nat)
    (firstDeleted : Option (Fin n)) : Prop :=
  match firstDeleted with
  | none => ∀ e < i, (m.entries (walk (m.hash key) e)).state = .occupied
  | some target => ∃ d < i, walk (m.hash key) d = target ∧
      (m.entries target).state = .deleted

/-- The result of overwriting the value in a slot that holds the key. -/
def overwrite (m : FixedHashMap K V n) (slot : Fin n) (value : V) :
    FixedHashMap K V n :=
  { m with
    entries := Function.update m.entries slot
      { m.entries slot with value := value } }

omit [NeZero n] in
theorem overwrite_holds_iff {slot target : Fin n} {key' : K} :
    (m.overwrite target value).Holds slot key' ↔ m.Holds slot key' := by
  by_cases hs : slot = target
  · subst hs
    simp [Holds, overwrite]
  · simp [Holds, overwrite, hs]

omit [NeZero n] in
theorem overwrite_state (slot target : Fin n) :
    ((m.overwrite target value).entries slot).state =
      (m.entries slot).state := by
  by_cases hs : slot = target
  · subst hs
    simp [overwrite]
  · simp [overwrite, hs]

theorem overwrite_wf (hm : m.Wf) (target : Fin n) :
    (m.overwrite target value).Wf where
  reach := by
    intro slot key' hs
    obtain ⟨d, hd, hw, ht⟩ := hm.reach _ _ (overwrite_holds_iff.mp hs)
    exact ⟨d, hd, hw, fun e he => by rw [overwrite_state]; exact ht e he⟩
  unique := fun _ _ _ h h' => hm.unique _ _ _ (overwrite_holds_iff.mp h)
    (overwrite_holds_iff.mp h')
  count := by
    have hset : (m.overwrite target value).occupiedSlots = m.occupiedSlots := by
      ext slot
      rw [mem_occupiedSlots, mem_occupiedSlots, overwrite_state]
    rw [hset]
    exact hm.count

/-- The three ways the loop of `insert` ends. -/
def InsertOutcome (m : FixedHashMap K V n) (key : K) (value : V)
    (r : Bool × FixedHashMap K V n) : Prop :=
  (∃ slot, m.Holds slot key ∧ r = (true, m.overwrite slot value)) ∨
  ((∀ slot, ¬ m.Holds slot key) ∧
    ∃ d < n, m.Trail key d ∧
      (m.entries (walk (m.hash key) d)).state ≠ .occupied ∧
      r = (true, m.occupy (walk (m.hash key) d) key value)) ∨
  ((∀ slot, ¬ m.Holds slot key) ∧
    (∀ slot, (m.entries slot).state = .occupied) ∧ r = (false, m))

theorem Trail.succ {i : Nat} (h : m.Trail key i)
    (hi : (m.entries (walk (m.hash key) i)).state ≠ .empty) :
    m.Trail key (i + 1) :=
  Nat.forall_lt_succ_right.mpr ⟨h, hi⟩

/-- Where the trail has met an empty slot or gone a full turn without the
key, the key is nowhere. -/
theorem absent_of_trail (hm : m.Wf) {i : Nat}
    (hmiss : ∀ e < i, ¬ m.Holds (walk (m.hash key) e) key)
    (hend : i = n ∨ (m.entries (walk (m.hash key) i)).state = .empty) :
    ∀ slot, ¬ m.Holds slot key := by
  intro slot hs
  obtain ⟨d, hd, rfl, htrail⟩ := hm.reach _ _ hs
  rcases Nat.lt_or_ge d i with hlt | hge
  · exact hmiss d hlt hs
  · rcases hend with rfl | hempty
    · omega
    · rcases Nat.eq_or_lt_of_le hge with rfl | hid
      · rw [hs.1] at hempty
        cases hempty
      · exact htrail i hid hempty

theorem SeenDeleted.later {i : Nat} {target : Fin n}
    (h : SeenDeleted m key i (some target)) : SeenDeleted m key (i + 1) (some target) := by
  obtain ⟨d, hd, hrest⟩ := h
  exact ⟨d, Nat.lt_succ_of_lt hd, hrest⟩

theorem SeenDeleted.occupied {i : Nat} {firstDeleted : Option (Fin n)}
    (h : SeenDeleted m key i firstDeleted)
    (hi : (m.entries (walk (m.hash key) i)).state = .occupied) :
    SeenDeleted m key (i + 1) firstDeleted := by
  cases firstDeleted with
  | none => exact Nat.forall_lt_succ_right.mpr ⟨h, hi⟩
  | some target => exact h.later

theorem SeenDeleted.deleted {i : Nat} {firstDeleted : Option (Fin n)}
    (h : SeenDeleted m key i firstDeleted)
    (hi : (m.entries (walk (m.hash key) i)).state = .deleted) :
    SeenDeleted m key (i + 1)
      (firstDeleted.or (some (walk (m.hash key) i))) := by
  cases firstDeleted with
  | none => exact ⟨i, Nat.lt_succ_self i, rfl, hi⟩
  | some target => exact h.later

/-- The key is nowhere and a tombstone was passed: its slot is taken. -/
theorem SeenDeleted.reused {i : Nat} {target : Fin n}
    (h : SeenDeleted m key i (some target)) (hi : i ≤ n) (htrail : m.Trail key i)
    (habs : ∀ slot, ¬ m.Holds slot key) :
    InsertOutcome m key value (true, m.occupy target key value) := by
  obtain ⟨d, hd, rfl, hdel⟩ := h
  refine Or.inr (Or.inl ⟨habs, d, Nat.lt_of_lt_of_le hd hi, ?_, ?_, rfl⟩)
  · exact fun e he => htrail e (Nat.lt_trans he hd)
  · rw [hdel]
    decide

variable [DecidableEq K]

theorem insertLoop_cases (hm : m.Wf) :
    ∀ (probes i : Nat) (firstDeleted : Option (Fin n)), i + probes = n →
      m.Trail key i → (∀ e < i, ¬ m.Holds (walk (m.hash key) e) key) →
      SeenDeleted m key i firstDeleted →
      InsertOutcome m key value
        (m.insertLoop key value probes (walk (m.hash key) i) firstDeleted) := by
  intro probes
  induction probes with
  | zero =>
      intro i firstDeleted hi htrail hmiss hseen
      have habs := absent_of_trail hm hmiss (Or.inl (by omega))
      cases firstDeleted with
      | some target => exact hseen.reused (by omega) htrail habs
      | none =>
          refine Or.inr (Or.inr ⟨habs, fun slot => ?_, rfl⟩)
          obtain ⟨d, hd, rfl⟩ := exists_walk (m.hash key) slot
          exact hseen d (by omega)
  | succ probes ih =>
      intro i firstDeleted hi htrail hmiss hseen
      rw [insertLoop]
      cases hstate : (m.entries (walk (m.hash key) i)).state with
      | occupied =>
          simp only []
          split
          · next hkey => exact Or.inl ⟨_, ⟨hstate, hkey⟩, rfl⟩
          · next hkey =>
              rw [nextIndex_walk]
              refine ih _ _ (by omega) (htrail.succ (by rw [hstate]; decide)) ?_
                (hseen.occupied hstate)
              exact Nat.forall_lt_succ_right.mpr ⟨hmiss, fun hs => hkey hs.2⟩
      | deleted =>
          simp only []
          rw [nextIndex_walk]
          refine ih _ _ (by omega) (htrail.succ (by rw [hstate]; decide)) ?_
            (hseen.deleted hstate)
          refine Nat.forall_lt_succ_right.mpr ⟨hmiss, fun hs => ?_⟩
          exact absurd (hstate.symm.trans hs.1) (by decide)
      | empty =>
          have habs := absent_of_trail hm hmiss (Or.inr hstate)
          cases firstDeleted with
          | none =>
              exact Or.inr (Or.inl ⟨habs, i, by omega, htrail,
                by rw [hstate]; decide, rfl⟩)
          | some target => exact hseen.reused (by omega) htrail habs

theorem insert_cases (hm : m.Wf) (key : K) (value : V) :
    InsertOutcome m key value (m.insert key value) := by
  have hstart : ∀ e, ¬ e < 0 := fun e => Nat.not_lt_zero e
  have hloop : InsertOutcome m key value
      (m.insertLoop key value n (walk (m.hash key) 0) none) :=
    insertLoop_cases hm n 0 none (Nat.zero_add n)
      (fun e he => absurd he (hstart e)) (fun e he => absurd he (hstart e))
      (fun e he => absurd he (hstart e))
  rwa [walk_zero] at hloop

/-- The table is full of other keys: the one case in which `insert` fails. -/
theorem insert_eq_false_iff (hm : m.Wf) :
    (m.insert key value).1 = false ↔ m.find key = none ∧ m.size = n := by
  have hfull : m.size = n ↔ ∀ slot, (m.entries slot).state = .occupied := by
    rw [hm.count]
    constructor
    · intro hc slot
      have hall : m.occupiedSlots = Finset.univ :=
        Finset.eq_univ_of_card _ (by rw [hc, Fintype.card_fin])
      have hmem := Finset.mem_univ slot
      rw [← hall] at hmem
      exact mem_occupiedSlots.mp hmem
    · intro h
      have hall : m.occupiedSlots = Finset.univ :=
        Finset.eq_univ_of_forall fun slot => mem_occupiedSlots.mpr (h slot)
      rw [hall, Finset.card_univ, Fintype.card_fin]
  rw [hfull, find_eq_none_iff hm]
  rcases insert_cases hm key value with
    ⟨slot, hs, hr⟩ | ⟨_, d, _, _, hfree, hr⟩ | ⟨habs, hocc, hr⟩
  · rw [hr]
    exact ⟨fun h => Bool.noConfusion h, fun h => absurd hs (h.1 slot)⟩
  · rw [hr]
    exact ⟨fun h => Bool.noConfusion h, fun h => absurd (h.2 _) hfree⟩
  · rw [hr]
    exact ⟨fun _ => ⟨habs, hocc⟩, fun _ => rfl⟩

theorem insert_of_false (hm : m.Wf) (h : (m.insert key value).1 = false) :
    (m.insert key value).2 = m := by
  rcases insert_cases hm key value with
    ⟨_, _, hr⟩ | ⟨_, _, _, _, _, hr⟩ | ⟨_, _, hr⟩
  · rw [hr] at h; cases h
  · rw [hr] at h; cases h
  · rw [hr]

theorem insert_wf (hm : m.Wf) (key : K) (value : V) :
    (m.insert key value).2.Wf := by
  rcases insert_cases hm key value with
    ⟨slot, hs, hr⟩ | ⟨habs, d, hd, ht, hfree, hr⟩ | ⟨_, _, hr⟩
  · rw [hr]; exact overwrite_wf hm slot
  · rw [hr]; exact occupy_wf hm habs hfree hd rfl ht
  · rw [hr]; exact hm

/-- A successful `insert` maps the key to the value and leaves every other key
alone. -/
theorem find_insert (hm : m.Wf) (h : (m.insert key value).1 = true)
    (key' : K) :
    (m.insert key value).2.find key' =
      if key' = key then some value else m.find key' := by
  have hwf := insert_wf hm key value
  rcases insert_cases hm key value with
    ⟨slot, hs, hr⟩ | ⟨habs, d, hd, ht, hfree, hr⟩ | ⟨_, _, hr⟩
  · rw [hr] at hwf ⊢
    split
    · next heq =>
        subst heq
        rw [find_of_holds hwf (overwrite_holds_iff.mpr hs)]
        simp [overwrite]
    · next hne =>
        refine find_congr hm hwf (fun _ => overwrite_holds_iff) ?_
        intro slot' hs'
        have : slot' ≠ slot := fun e => hne (by rw [← hs'.2, e, hs.2])
        simp [overwrite, Function.update_of_ne this]
  · rw [hr] at hwf ⊢
    split
    · next heq =>
        subst heq
        rw [find_of_holds hwf (occupy_holds_iff.mpr (Or.inl ⟨rfl, rfl⟩))]
        simp [occupy]
    · next hne =>
        have hslot : ∀ slot', m.Holds slot' key' →
            slot' ≠ walk (m.hash key) d := fun slot' hs' e =>
          hfree (by rw [← e]; exact hs'.1)
        refine find_congr hm hwf (fun slot' => ?_) ?_
        · rw [occupy_holds_iff]
          constructor
          · rintro (⟨_, h⟩ | ⟨_, h⟩)
            · exact absurd h.symm hne
            · exact h
          · exact fun h => Or.inr ⟨hslot slot' h, h⟩
        · intro slot' hs'
          simp [occupy, Function.update_of_ne (hslot slot' hs')]
  · rw [hr] at h; cases h

theorem size_insert (hm : m.Wf) (h : (m.insert key value).1 = true) :
    (m.insert key value).2.size =
      if (m.find key).isSome then m.size else m.size + 1 := by
  rcases insert_cases hm key value with
    ⟨slot, hs, hr⟩ | ⟨habs, d, hd, ht, hfree, hr⟩ | ⟨_, _, hr⟩
  · rw [hr, find_of_holds hm hs]
    rfl
  · rw [hr, (find_eq_none_iff hm).mpr habs]
    rfl
  · rw [hr] at h; cases h

end Insert

/-! ## `erase` -/

section Erase

variable [DecidableEq K] {m : FixedHashMap K V n} {key : K}

theorem erase_of_find_none (hm : m.Wf) (h : m.find key = none) :
    m.erase key = (false, m) := by
  rw [find_eq_none_iff hm, ← findSlot_eq_none_iff hm] at h
  rw [erase, h]

/-- The table after the slot holding a key has been turned into a
tombstone. -/
def bury (m : FixedHashMap K V n) (slot : Fin n) : FixedHashMap K V n :=
  { m with
    entries := Function.update m.entries slot
      { m.entries slot with state := .deleted }
    size := m.size - 1 }

theorem erase_of_holds (hm : m.Wf) {slot : Fin n} (h : m.Holds slot key) :
    m.erase key = (true, m.bury slot) := by
  rw [erase, (findSlot_eq_some_iff hm).mpr h]
  rfl

omit [NeZero n] [DecidableEq K] in
theorem bury_holds_iff {slot target : Fin n} {key' : K} :
    (m.bury target).Holds slot key' ↔ slot ≠ target ∧ m.Holds slot key' := by
  by_cases hs : slot = target
  · subst hs
    simp [Holds, bury]
  · simp [Holds, bury, hs]

omit [DecidableEq K] in
theorem bury_wf (hm : m.Wf) {target : Fin n} (h : m.Holds target key) :
    (m.bury target).Wf where
  reach := by
    intro slot key' hs
    obtain ⟨d, hd, hw, ht⟩ := hm.reach _ _ (bury_holds_iff.mp hs).2
    refine ⟨d, hd, hw, fun e he => ?_⟩
    show (Function.update m.entries target _ (walk (m.hash key') e)).state ≠ _
    by_cases hs : walk (m.hash key') e = target
    · rw [hs, Function.update_self]
      simp
    · rw [Function.update_of_ne hs]
      exact ht e he
  unique := fun _ _ _ h h' => hm.unique _ _ _ (bury_holds_iff.mp h).2
    (bury_holds_iff.mp h').2
  count := by
    show m.size - 1 = _
    have hset : (m.bury target).occupiedSlots =
        m.occupiedSlots.erase target := by
      ext slot
      rw [Finset.mem_erase, mem_occupiedSlots, mem_occupiedSlots]
      by_cases hs : slot = target
      · subst hs; simp [bury]
      · simp [bury, hs]
    rw [hset, Finset.card_erase_of_mem (mem_occupiedSlots.mpr h.1), hm.count]

theorem erase_wf (hm : m.Wf) (key : K) : (m.erase key).2.Wf := by
  cases hf : m.find key with
  | none => rw [erase_of_find_none hm hf]; exact hm
  | some value =>
      obtain ⟨slot, hs, _⟩ := (find_eq_some_iff hm).mp hf
      rw [erase_of_holds hm hs]
      exact bury_wf hm hs

/-- `erase` unmaps the key and leaves every other key alone. -/
theorem find_erase (hm : m.Wf) (key key' : K) :
    (m.erase key).2.find key' =
      if key' = key then none else m.find key' := by
  have hwf := erase_wf hm key
  cases hf : m.find key with
  | none =>
      rw [erase_of_find_none hm hf]
      split
      · next heq => rw [heq, hf]
      · rfl
  | some value =>
      obtain ⟨slot, hs, _⟩ := (find_eq_some_iff hm).mp hf
      rw [erase_of_holds hm hs] at hwf ⊢
      split
      · next heq =>
          subst heq
          rw [find_eq_none_iff hwf]
          intro slot' hs'
          obtain ⟨hne, hs'⟩ := bury_holds_iff.mp hs'
          exact hne (hm.unique _ _ _ hs' hs)
      · next hne =>
          have hslot : ∀ slot', m.Holds slot' key' → slot' ≠ slot :=
            fun slot' hs' e => hne (by rw [← hs'.2, e, hs.2])
          refine find_congr hm hwf (fun slot' => ?_) ?_
          · rw [bury_holds_iff]
            exact ⟨fun h => h.2, fun h => ⟨hslot slot' h, h⟩⟩
          · intro slot' hs'
            simp [bury, Function.update_of_ne (hslot slot' hs')]

theorem size_erase (hm : m.Wf) (key : K) :
    (m.erase key).2.size =
      if (m.find key).isSome then m.size - 1 else m.size := by
  cases hf : m.find key with
  | none => rw [erase_of_find_none hm hf]; rfl
  | some value =>
      obtain ⟨slot, hs, _⟩ := (find_eq_some_iff hm).mp hf
      rw [erase_of_holds hm hs]
      rfl

end Erase

/-! ## Values, whatever the state of the table -/

/-- A slot in use has the value. -/
def Stores (m : FixedHashMap K V n) (value : V) : Prop :=
  ∃ slot, (m.entries slot).state = .occupied ∧ (m.entries slot).value = value

omit [NeZero n] in
theorem not_stores_init [Inhabited K] [Inhabited V] (stdHash : K → Nat) (value : V) :
    ¬ (init stdHash : FixedHashMap K V n).Stores value := by
  rintro ⟨slot, hstate, -⟩
  cases hstate

section Stores

variable [DecidableEq K] {m : FixedHashMap K V n} {key : K}

theorem stores_of_find {value : V} (h : m.find key = some value) : m.Stores value := by
  obtain ⟨slot, hslot, rfl⟩ := Option.map_eq_some_iff.mp h
  exact ⟨slot, (holds_of_findSlot hslot).1, rfl⟩

omit [NeZero n] [DecidableEq K] in
/-- A slot that has been written has the new value, and the others have theirs. -/
theorem stores_update {entry : Entry K V} {slot : Fin n} {size : Nat} {value : V}
    (h : Stores { m with entries := Function.update m.entries slot entry, size := size }
      value) :
    (entry.state = .occupied ∧ entry.value = value) ∨ m.Stores value := by
  obtain ⟨slot', hstate, hvalue⟩ := h
  by_cases hslot : slot' = slot
  · subst hslot
    simp only [Function.update_self] at hstate hvalue
    exact .inl ⟨hstate, hvalue⟩
  · simp only [Function.update_of_ne hslot] at hstate hvalue
    exact .inr ⟨slot', hstate, hvalue⟩

theorem stores_insertLoop {value value' : V} {probes : Nat} {index : Fin n}
    {firstDeleted : Option (Fin n)}
    (h : (m.insertLoop key value' probes index firstDeleted).2.Stores value) :
    value' = value ∨ m.Stores value := by
  induction probes generalizing index firstDeleted with
  | zero =>
      cases firstDeleted with
      | none => exact .inr h
      | some target => exact (stores_update h).imp_left And.right
  | succ probes ih =>
      rw [insertLoop] at h
      cases hstate : (m.entries index).state with
      | occupied =>
          simp only [hstate] at h
          split at h
          · exact (stores_update h).imp_left And.right
          · exact ih h
      | deleted =>
          simp only [hstate] at h
          exact ih h
      | empty =>
          simp only [hstate] at h
          exact (stores_update h).imp_left And.right

theorem stores_insert {value value' : V} (h : (m.insert key value').2.Stores value) :
    value' = value ∨ m.Stores value :=
  stores_insertLoop h

theorem stores_erase {value : V} (h : (m.erase key).2.Stores value) : m.Stores value := by
  rw [erase] at h
  split at h
  · exact h
  · exact (stores_update h).resolve_left fun hnew => by cases hnew.1

end Stores

end OpenHft.FixedHashMap
