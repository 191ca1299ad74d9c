import OpenHft.Model.Gateway

/-!
# The position limit of the gateway

`check` looks at the position an order would lead to, and `onAccepted` stores that same
position once the sink has taken the order. What makes the limit hold is that nothing
happens to the positions in between; what makes the arithmetic safe is the limit itself,
since a stored position is never far from 0 and an order that gets as far as the sum is
never large. `SubmitOutcome` says how a call can end, and `Limited` is what every call
keeps.
-/

namespace OpenHft

/-- What an accepted order moves its account's position by. -/
def OrderIntent.signed (intent : OrderIntent) : Int :=
  signedQuantity intent.side intent.quantity

/-! ## Arithmetic within the limits -/

theorem bmod_of_small {a : Int} (h : a.natAbs ≤ 200000) : a.bmod (2 ^ 64) = a :=
  Int.bmod_eq_of_le (by omega) (by omega)

theorem quantity_toInt64 {quantity : Quantity} (h : quantity ≤ RiskManager.maxOrderQuantity) :
    (Int64.ofNat quantity.toNat).toInt = quantity.toNat := by
  have hq : quantity.toNat ≤ 100000 := UInt32.le_iff_toNat_le.mp h
  exact Int64.toInt_ofNat_of_lt (by omega)

theorem movePosition_ok {position : Int64} {intent : OrderIntent}
    (hp : position.toInt.natAbs ≤ 500)
    (hq : intent.quantity ≤ RiskManager.maxOrderQuantity) :
    ∃ position', RiskManager.movePosition position intent = .ok position' ∧
      position'.toInt = position.toInt + intent.signed := by
  have hquantity := quantity_toInt64 hq
  have hbound : intent.quantity.toNat ≤ 100000 := UInt32.le_iff_toNat_le.mp hq
  cases hside : intent.side with
  | buy =>
      simp only [RiskManager.movePosition, hside, addInt64, OrderIntent.signed, signedQuantity,
        hquantity]
      rw [if_pos (by omega)]
      refine ⟨_, rfl, ?_⟩
      rw [Int64.toInt_add, hquantity, bmod_of_small (by omega)]
  | sell =>
      simp only [RiskManager.movePosition, hside, subInt64, OrderIntent.signed, signedQuantity,
        hquantity]
      rw [if_pos (by omega)]
      refine ⟨_, rfl, ?_⟩
      rw [Int64.toInt_sub, hquantity, bmod_of_small (by omega), Int.sub_eq_add_neg]

theorem absInt64_ok {a : Int64} (h : a.toInt.natAbs ≤ 200000) :
    ∃ b, absInt64 a = .ok b ∧ b.toInt = a.toInt.natAbs := by
  have hmin : a ≠ Int64.minValue := by
    rintro rfl
    exact absurd h (by decide)
  rw [absInt64, if_neg hmin]
  by_cases hneg : a < 0
  · have hlt : a.toInt < 0 := Int64.lt_iff_toInt_lt.mp hneg
    refine ⟨-a, if_pos hneg, ?_⟩
    rw [Int64.toInt_neg, bmod_of_small (by omega)]
    omega
  · have hle : 0 ≤ a.toInt := Int64.le_iff_toInt_le.mp (Int64.not_lt.mp hneg)
    refine ⟨a, if_neg hneg, ?_⟩
    omega

/-! ## The checks -/

namespace RiskManager

variable {r r' : RiskManager} {intent : OrderIntent}

/-- Every account's position is within the limit. -/
def Limited (r : RiskManager) : Prop := ∀ account, (r.position account).toInt.natAbs ≤ 500

theorem init_position (account : AccountId) : (init.position account).toInt = 0 := rfl

theorem init_limited : Limited .init := fun account => by
  rw [init_position]
  decide

/-- What `check` has found out about an order that it accepts. -/
structure Passed (r : RiskManager) (intent : OrderIntent) : Prop where
  price : 0 < intent.price
  quantity : intent.quantity ≠ 0
  size : intent.quantity ≤ maxOrderQuantity
  limit : ((r.position intent.accountId).toInt + intent.signed).natAbs ≤ 500

/-- The order passes the four tests of `check` that look at nothing but the order. -/
def OrderFits (intent : OrderIntent) : Prop :=
  0 < intent.price ∧ 0 < intent.quantity ∧ intent.quantity ≤ maxOrderQuantity ∧
    intent.price.toUInt64 * intent.quantity.toUInt64 ≤ maxOrderValue

/-- Of an order that passes them, what remains is the test of the position. -/
theorem check_of_fits (h : OrderFits intent) :
    r.check intent = (do
      let position ← movePosition (r.position intent.accountId) intent
      let magnitude ← absInt64 position
      if magnitude > maxPosition then .ok .maxPositionExceeded else .ok .accepted) := by
  obtain ⟨hprice, hquantity, hsize, hvalue⟩ := h
  unfold check
  simp only [if_neg (Int64.not_le.mpr hprice), if_neg (UInt32.pos_iff_ne_zero.mp hquantity),
    gt_iff_lt, if_neg (UInt32.not_lt.mpr hsize), if_neg (UInt64.not_lt.mpr hvalue)]
  rfl

theorem check_of_not_fits (h : ¬ OrderFits intent) :
    ∃ result, r.check intent = .ok result ∧ result ≠ .accepted := by
  unfold check
  by_cases hprice : intent.price ≤ 0
  · exact ⟨.invalidPrice, if_pos hprice, nofun⟩
  by_cases hzero : intent.quantity = 0
  · exact ⟨.invalidQuantity, by simp [hprice, hzero]; rfl, nofun⟩
  by_cases hsize : intent.quantity > maxOrderQuantity
  · exact ⟨.maxOrderQuantityExceeded, by simp [hprice, hzero, hsize]; rfl, nofun⟩
  by_cases hvalue : intent.price.toUInt64 * intent.quantity.toUInt64 > maxOrderValue
  · exact ⟨.maxOrderValueExceeded, by simp [hprice, hzero, hsize, hvalue]; rfl, nofun⟩
  exact absurd ⟨Int64.not_le.mp hprice, UInt32.pos_iff_ne_zero.mpr hzero,
    UInt32.not_lt.mp hsize, UInt64.not_lt.mp hvalue⟩ h

theorem fits_of_accepted (h : r.check intent = .ok .accepted) : OrderFits intent := by
  by_contra hfits
  obtain ⟨result, hcheck, hne⟩ := check_of_not_fits (r := r) hfits
  rw [h] at hcheck
  exact hne (Except.ok.inj hcheck).symm

theorem check_ok (h : r.Limited) (intent : OrderIntent) :
    ∃ result, r.check intent = .ok result ∧ (result = .accepted → r.Passed intent) := by
  by_cases hfits : OrderFits intent
  · obtain ⟨hprice, hquantity, hsize, -⟩ := id hfits
    have hbound : intent.quantity.toNat ≤ 100000 := UInt32.le_iff_toNat_le.mp hsize
    obtain ⟨position, hmove, hposition⟩ := movePosition_ok (h intent.accountId) hsize
    have hsigned : intent.signed.natAbs = intent.quantity.toNat := by
      cases hside : intent.side <;> simp [OrderIntent.signed, signedQuantity, hside]
    have hold := h intent.accountId
    obtain ⟨magnitude, habs, hmagnitude⟩ := absInt64_ok (a := position) (by omega)
    simp only [check_of_fits hfits, hmove, habs, bind, Except.bind]
    by_cases hlimit : magnitude > maxPosition
    · exact ⟨.maxPositionExceeded, if_pos hlimit, nofun⟩
    · refine ⟨.accepted, if_neg hlimit, fun _ =>
        ⟨hprice, UInt32.pos_iff_ne_zero.mp hquantity, hsize, ?_⟩⟩
      have hle : magnitude.toInt ≤ 500 := Int64.le_iff_toInt_le.mp (Int64.not_lt.mp hlimit)
      rw [← hposition]
      omega
  · obtain ⟨result, hcheck, hne⟩ := check_of_not_fits (r := r) hfits
    exact ⟨result, hcheck, fun he => absurd he hne⟩

/-- The positions after an order has been counted. -/
def Counts (r : RiskManager) (intent : OrderIntent) (r' : RiskManager) : Prop :=
  ∀ account, (r'.position account).toInt = (r.position account).toInt +
    if intent.accountId = account then intent.signed else 0

theorem onAccepted_ok (h : r.Limited) (hp : r.Passed intent) :
    ∃ r', r.onAccepted intent = .ok r' ∧ r.Counts intent r' ∧ r'.Limited := by
  obtain ⟨position, hmove, hposition⟩ := movePosition_ok (h intent.accountId) hp.size
  have hcounts : r.Counts intent
      ⟨Function.update r.positions intent.accountId (some position)⟩ := by
    intro account
    by_cases ha : intent.accountId = account
    · subst ha
      simp [RiskManager.position, hposition]
    · simp [RiskManager.position, ha, Function.update_of_ne (Ne.symm ha)]
  refine ⟨_, by simp only [onAccepted, hmove, bind, Except.bind, pure, Except.pure], hcounts,
    fun account => ?_⟩
  rw [hcounts account]
  split
  · next ha => exact ha ▸ hp.limit
  · simpa using h account

end RiskManager

/-! ## One call -/

namespace Gateway

variable {σ : Type} {sink : OrderExecutionSink σ} {g g' : Gateway σ}
  {intent : OrderIntent} {result : GatewayResult}

/-- The three ways a call can end. -/
inductive SubmitOutcome (sink : OrderExecutionSink σ) (g : Gateway σ)
    (intent : OrderIntent) : GatewayResult → Gateway σ → Prop
  | refused (riskResult : RiskResult) (hcheck : g.riskManager.check intent = .ok riskResult)
      (hne : riskResult ≠ .accepted) : SubmitOutcome sink g intent ⟨riskResult, false⟩ g
  | rejected (s : σ) (hcheck : g.riskManager.check intent = .ok .accepted)
      (hpassed : g.riskManager.Passed intent)
      (hsink : sink intent g.executionSink = .ok (false, s)) :
      SubmitOutcome sink g intent ⟨.accepted, false⟩ { g with executionSink := s }
  | accepted (s : σ) (r : RiskManager)
      (hcheck : g.riskManager.check intent = .ok .accepted)
      (hpassed : g.riskManager.Passed intent)
      (hsink : sink intent g.executionSink = .ok (true, s))
      (hcounts : g.riskManager.Counts intent r) (hlimited : r.Limited) :
      SubmitOutcome sink g intent ⟨.accepted, true⟩ ⟨r, s⟩

/-- No call faults, provided the sink does not on an order that has passed. -/
theorem submit_outcome (h : g.riskManager.Limited)
    (hsink : g.riskManager.check intent = .ok .accepted →
      ∃ done s, sink intent g.executionSink = .ok (done, s)) :
    ∃ result g', g.submit sink intent = .ok (result, g') ∧
      SubmitOutcome sink g intent result g' := by
  obtain ⟨riskResult, hcheck, hpassed⟩ := RiskManager.check_ok h intent
  by_cases hacc : riskResult = .accepted
  · subst hacc
    obtain ⟨done, s, hdone⟩ := hsink hcheck
    cases done with
    | false =>
        refine ⟨_, _, ?_, .rejected s hcheck (hpassed rfl) hdone⟩
        simp [submit, hcheck, hdone, bind, Except.bind, pure, Except.pure]
    | true =>
        obtain ⟨r, hon, hcounts, hlimited⟩ := RiskManager.onAccepted_ok h (hpassed rfl)
        refine ⟨_, _, ?_, .accepted s r hcheck (hpassed rfl) hdone hcounts hlimited⟩
        simp [submit, hcheck, hdone, hon, bind, Except.bind, pure, Except.pure]
  · refine ⟨_, _, ?_, .refused riskResult hcheck hacc⟩
    simp [submit, hcheck, hacc, bind, Except.bind, pure, Except.pure]

namespace SubmitOutcome

theorem check (h : SubmitOutcome sink g intent result g') :
    g.riskManager.check intent = .ok result.riskResult := by
  cases h with
  | refused _ hcheck _ => exact hcheck
  | rejected _ hcheck _ _ => exact hcheck
  | accepted _ _ hcheck _ _ _ _ => exact hcheck

theorem limited (h : SubmitOutcome sink g intent result g') (hl : g.riskManager.Limited) :
    g'.riskManager.Limited := by
  cases h with
  | refused _ _ _ => exact hl
  | rejected _ _ _ _ => exact hl
  | accepted _ _ _ _ _ _ hlimited => exact hlimited

/-- An order that is not accepted leaves all positions as they are. -/
theorem unchanged (h : SubmitOutcome sink g intent result g')
    (hn : result.accepted = false) : g'.riskManager = g.riskManager := by
  cases h with
  | refused _ _ _ => rfl
  | rejected _ _ _ _ => rfl
  | accepted _ _ _ _ _ _ _ => cases hn

/-- An order that is accepted is counted. -/
theorem counts (h : SubmitOutcome sink g intent result g') (account : AccountId) :
    (g'.riskManager.position account).toInt = (g.riskManager.position account).toInt +
      if result.accepted = true ∧ intent.accountId = account then intent.signed else 0 := by
  cases h with
  | refused riskResult _ hne => simp [GatewayResult.accepted]
  | rejected _ _ _ _ => simp [GatewayResult.accepted]
  | accepted _ r _ _ _ hcounts _ => simpa [GatewayResult.accepted] using hcounts account

end SubmitOutcome

/-! ## Runs over an arbitrary sink -/

/-- Any sink that returns, with the calls it has been given. -/
def recorded (sink : OrderIntent → σ → Bool × σ) :
    OrderExecutionSink (σ × List OrderIntent) := fun intent s =>
  .ok ((sink intent s.1).1, (sink intent s.1).2, s.2 ++ [intent])

/-- A gateway over a sink, with a new risk manager. -/
def init (s : σ) : Gateway σ := ⟨.init, s⟩

/-- The signed quantities of the account's intents that were accepted, summed. -/
def acceptedSum (account : AccountId) (history : List (OrderIntent × GatewayResult)) : Int :=
  ((history.filter fun x => x.2.accepted && decide (x.1.accountId = account)).map
    fun x => x.1.signed).sum

/-- The intents that passed the risk checks, in order. -/
def passedChecks (history : List (OrderIntent × GatewayResult)) : List OrderIntent :=
  (history.filter fun x => decide (x.2.riskResult = .accepted)).map Prod.fst

theorem acceptedSum_cons (account : AccountId) (intent : OrderIntent)
    (result : GatewayResult) (history : List (OrderIntent × GatewayResult)) :
    acceptedSum account ((intent, result) :: history) =
      (if result.accepted = true ∧ intent.accountId = account then intent.signed else 0) +
        acceptedSum account history := by
  by_cases h : result.accepted = true ∧ intent.accountId = account
  · simp [acceptedSum, h]
  · rw [if_neg h, Int.zero_add, acceptedSum, List.filter_cons_of_neg (by simpa using h),
      acceptedSum]

theorem passedChecks_cons (intent : OrderIntent) (result : GatewayResult)
    (history : List (OrderIntent × GatewayResult)) :
    passedChecks ((intent, result) :: history) =
      (if result.riskResult = .accepted then [intent] else []) ++ passedChecks history := by
  by_cases h : result.riskResult = .accepted <;> simp [passedChecks, h]

section Recorded

variable {sink : OrderIntent → σ → Bool × σ} {g g' : Gateway (σ × List OrderIntent)}

theorem recorded_outcome (sink : OrderIntent → σ → Bool × σ) (h : g.riskManager.Limited)
    (intent : OrderIntent) :
    ∃ result g', g.submit (recorded sink) intent = .ok (result, g') ∧
      SubmitOutcome (recorded sink) g intent result g' :=
  submit_outcome h fun _ => ⟨_, _, rfl⟩

/-- The sink is called exactly if the order has passed the checks. -/
theorem SubmitOutcome.calls (h : SubmitOutcome (recorded sink) g intent result g') :
    g'.executionSink.2 = g.executionSink.2 ++
      if result.riskResult = .accepted then [intent] else [] := by
  cases h with
  | refused _ _ hne => simp [hne]
  | rejected s _ _ hsink =>
      have hs : (_, g.executionSink.2 ++ [intent]) = s :=
        congrArg Prod.snd (Except.ok.inj hsink)
      simp [← hs]
  | accepted s r _ _ hsink _ _ =>
      have hs : (_, g.executionSink.2 ++ [intent]) = s :=
        congrArg Prod.snd (Except.ok.inj hsink)
      simp [← hs]

theorem submitAll_recorded (sink : OrderIntent → σ → Bool × σ) (h : g.riskManager.Limited)
    (intents : List OrderIntent) :
    ∃ results g', g.submitAll (recorded sink) intents = .ok (results, g') ∧
      g'.riskManager.Limited ∧
      (∀ account, (g'.riskManager.position account).toInt =
        (g.riskManager.position account).toInt +
          acceptedSum account (intents.zip results)) ∧
      g'.executionSink.2 = g.executionSink.2 ++ passedChecks (intents.zip results) := by
  induction intents generalizing g with
  | nil => exact ⟨[], g, rfl, h, fun _ => (Int.add_zero _).symm, (List.append_nil _).symm⟩
  | cons intent intents ih =>
      obtain ⟨result, g₁, hok, hout⟩ := recorded_outcome sink h intent
      obtain ⟨results, g', hok', hlimited, hsum, hcalls⟩ := ih (hout.limited h)
      refine ⟨result :: results, g', ?_, hlimited, fun account => ?_, ?_⟩
      · simp only [submitAll, hok, hok', bind, Except.bind]
      · rw [hsum, hout.counts, List.zip_cons_cons, acceptedSum_cons, Int.add_assoc]
      · rw [hcalls, hout.calls, List.zip_cons_cons, passedChecks_cons, List.append_assoc]

end Recorded

end Gateway

open Gateway in
/-- After every run each position is the exact sum of what was accepted and within the
limit, the sink was called for what passed the checks and nothing else, and nothing has
overflowed; and so it goes on with every further call. -/
theorem gateway_position_limit {σ : Type} (sink : OrderIntent → σ → Bool × σ) (s : σ)
    (intents : List OrderIntent) :
    ∃ results g, (Gateway.init (s, [])).submitAll (recorded sink) intents =
        .ok (results, g) ∧
      (∀ account,
        (g.riskManager.position account).toInt =
          acceptedSum account (intents.zip results) ∧
        (g.riskManager.position account).toInt.natAbs ≤ 500) ∧
      g.executionSink.2 = passedChecks (intents.zip results) ∧
      ∀ intent, ∃ result g', g.submit (recorded sink) intent = .ok (result, g') ∧
        g.riskManager.check intent = .ok result.riskResult ∧
        g'.executionSink.2 = g.executionSink.2 ++
          (if result.riskResult = .accepted then [intent] else []) ∧
        (result.accepted = false → g'.riskManager = g.riskManager) := by
  obtain ⟨results, g, hok, hlimited, hsum, hcalls⟩ :=
    submitAll_recorded sink (g := .init (s, [])) RiskManager.init_limited intents
  refine ⟨results, g, hok, fun account => ⟨?_, hlimited account⟩, hcalls, fun intent => ?_⟩
  · rw [hsum]
    exact Int.zero_add _
  · obtain ⟨result, g', hok', hout⟩ := recorded_outcome sink hlimited intent
    exact ⟨result, g', hok', hout.check, hout.calls, hout.unchanged⟩

end OpenHft
