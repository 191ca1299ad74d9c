import OpenHft.Proofs.GatewayLimit
import OpenHft.Proofs.Numbering
import OpenHft.Proofs.Positions

/-!
# What the position limit bounds

The risk manager counts an order when it is accepted, the position manager when it is
filled. Between the two lies what rests in the book, so the limit bounds the executed
position with the account's resting orders counted in, the exposure, and not the executed
position by itself: an account may rest a buy order against which it is allowed a large
sell order, and have only the latter filled (`executed_position_exceeds_limit`).

The engine answers with the id of the order and the sink takes that id for a truth
value, so besides an id that still rests, an id of 0 must not be given out; either takes
a sequencer that has gone round.
-/

namespace OpenHft

open OpenHft.Lib PriceTime

/-! ## The gateway over the engine -/

/-- The intent as an order to the engine. -/
def OrderIntent.submission (intent : OrderIntent) : Submission :=
  ⟨intent.accountId, intent.side, intent.price, intent.quantity⟩

namespace MatchingEngineExecutionSink

variable {e : MatchingEngine} {Q : Queues} {R : Book} {intent : OrderIntent}

/-- An order given now would get an id that is not 0 and that no resting order has. -/
def idFresh (e : MatchingEngine) : Bool :=
  decide (e.orderPool.available = 0) ||
    (decide (e.sequence + 1 ≠ 0) && !e.book.orderIndex.contains (e.sequence + 1))

theorem submit_exhausted (hfull : e.orderPool.available = 0) (intent : OrderIntent) :
    submit intent e = .ok (false, e) := by
  rw [OrderPool.available, List.length_eq_zero_iff] at hfull
  simp [submit, MatchingEngine.submitOrder_none hfull, bind, Except.bind, pure, Except.pure]

theorem submit_refines (h : Refines e Q [] R) (hpos : Positive R)
    (hs : intent.submission.Valid) (hroom : e.orderPool.available ≠ 0)
    (hfresh : idFresh e = true) :
    ∃ e' Q', submit intent e = .ok (true, e') ∧
      Refines e' Q' [] (R.submit intent.submission) := by
  rw [idFresh, decide_eq_false hroom, Bool.false_or, Bool.and_eq_true, decide_eq_true_eq]
    at hfresh
  obtain ⟨id, e', Q', hok, h', hid⟩ := h.submitWithin hpos hs (by rw [hfresh.2, Bool.or_true])
  rw [Book.submitWithin, if_neg fun hlen => hroom (h.available_eq_zero_iff.mpr hlen)] at h'
  have hne : id ≠ 0 := by
    rw [hid hroom, ← h.sequence]
    exact hfresh.1
  refine ⟨e', Q', ?_, h'⟩
  change e.submitOrder intent.accountId intent.side intent.price intent.quantity = _ at hok
  simp [submit, hok, hne, bind, Except.bind, pure, Except.pure]

end MatchingEngineExecutionSink

namespace Gateway

open MatchingEngineExecutionSink

/-- Every order of the run that reaches the engine is given a fresh id. -/
def idsFresh (g : Gateway MatchingEngine) : List OrderIntent → Bool
  | [] => true
  | intent :: intents =>
      match g.submit MatchingEngineExecutionSink.submit intent with
      | .ok (result, g') =>
          (decide (result.riskResult ≠ .accepted) || idFresh g.executionSink) &&
            g'.idsFresh intents
      | .error _ => true

/-- The risk manager's positions are the exposures of the book that the engine
refines. -/
structure Inv (g : Gateway MatchingEngine) (R : Book) : Prop where
  limited : g.riskManager.Limited
  refines : ∃ Q, Refines g.executionSink Q [] R
  positive : Positive R
  atMost : AtMost 100000 R
  agrees : ∀ account, exposure account R = (g.riskManager.position account).toInt

theorem init_inv (stdHash : OrderId → Nat) : Inv (.init (.init stdHash)) .empty where
  limited := RiskManager.init_limited
  refines := ⟨_, init_refines stdHash⟩
  positive := Sound.empty.positive
  atMost := fun _ h => absurd h List.not_mem_nil
  agrees := fun _ => rfl

namespace Inv

variable {g g' : Gateway MatchingEngine} {R : Book} {intent : OrderIntent}
  {result : GatewayResult}

theorem submit_outcome (h : Inv g R) (hv : ValidPrice intent.price) :
    ∃ result g', g.submit MatchingEngineExecutionSink.submit intent = .ok (result, g') ∧
      SubmitOutcome MatchingEngineExecutionSink.submit g intent result g' := by
  refine Gateway.submit_outcome h.limited fun _ => ?_
  obtain ⟨Q, hrefines⟩ := h.refines
  obtain ⟨id, e', Q', hok, -⟩ := MatchingEngine.submitOrder_inv hrefines.engine
    intent.accountId intent.side hv intent.quantity
  refine ⟨decide (id ≠ 0), e', ?_⟩
  simp only [MatchingEngineExecutionSink.submit, hok, bind, Except.bind, pure, Except.pure]

/-- The book that is refined after a call: either the order has been taken into it, or it
is the one from before. -/
def After (R : Book) (intent : OrderIntent) (R' : Book) : Prop :=
  R' = R ∨ Taken R intent.submission R'

theorem exhausted (h : Inv g R)
    (hout : SubmitOutcome MatchingEngineExecutionSink.submit g intent result g')
    (hfull : g.executionSink.orderPool.available = 0) : Inv g' R := by
  have hsink := submit_exhausted hfull intent
  cases hout with
  | refused _ _ _ => exact h
  | rejected s _ _ hs =>
      cases hsink.symm.trans hs
      exact h
  | accepted s r _ _ hs _ _ => cases hsink.symm.trans hs

theorem submit (h : Inv g R) (hv : ValidPrice intent.price)
    (hout : SubmitOutcome MatchingEngineExecutionSink.submit g intent result g')
    (hfresh : result.riskResult = .accepted → idFresh g.executionSink = true) :
    ∃ R', Inv g' R' ∧ After R intent R' := by
  by_cases hfull : g.executionSink.orderPool.available = 0
  · exact ⟨R, h.exhausted hout hfull, Or.inl rfl⟩
  obtain ⟨Q, hrefines⟩ := h.refines
  have hsubmit (hp : g.riskManager.Passed intent) (hacc : result.riskResult = .accepted) :=
    submit_refines hrefines h.positive ⟨hv, hp.quantity⟩ hfull (hfresh hacc)
  cases hout with
  | refused _ _ _ => exact ⟨R, h, Or.inl rfl⟩
  | rejected s _ hpassed hs =>
      obtain ⟨e', Q', hok, -⟩ := hsubmit hpassed rfl
      cases hok.symm.trans hs
  | accepted s r _ hpassed hs hcounts hlimited =>
      obtain ⟨e', Q', hok, hrefines'⟩ := hsubmit hpassed rfl
      cases hok.symm.trans hs
      -- the matcher by rounds is the one that `Taken` speaks of; here they agree
      have htaken := enter_taken R intent.submission
      rw [Book.enter_eq_submit (fun x hx => h.positive x (Book.mem_orders.mpr ⟨_, hx⟩))
        hpassed.quantity] at htaken
      refine ⟨_, ⟨hlimited, ⟨Q', hrefines'⟩, h.positive.submit, ?_, fun account => ?_⟩,
        Or.inr htaken⟩
      · exact h.atMost.submit (UInt32.le_iff_toNat_le.mp hpassed.size)
      · rw [exposure_submit hrefines.ranked, h.agrees, hcounts account]
        rfl

theorem submitAll {intents : List OrderIntent} (h : Inv g R)
    (hv : ∀ intent ∈ intents, ValidPrice intent.price)
    (hfresh : g.idsFresh intents = true) :
    ∃ results g' R', g.submitAll MatchingEngineExecutionSink.submit intents =
        .ok (results, g') ∧ Inv g' R' := by
  induction intents generalizing g R with
  | nil => exact ⟨[], g, R, rfl, h⟩
  | cons intent intents ih =>
      have hprice := hv intent List.mem_cons_self
      obtain ⟨result, g₁, hok, hout⟩ := h.submit_outcome hprice
      rw [Gateway.idsFresh, hok, Bool.and_eq_true, Bool.or_eq_true, decide_eq_true_eq] at hfresh
      obtain ⟨R₁, h₁, -⟩ := h.submit hprice hout fun hacc =>
        hfresh.1.resolve_left (not_not_intro hacc)
      obtain ⟨results, g', R', hok', h'⟩ := ih h₁
        (fun x hx => hv x (List.mem_cons_of_mem intent hx)) hfresh.2
      refine ⟨result :: results, g', R', ?_, h'⟩
      simp only [Gateway.submitAll, hok, hok', bind, Except.bind]

/-- The executed position is exact, since what rests is bounded. -/
theorem executed_position (h : Inv g R) (account : AccountId) :
    ((PositionManager.afterTrades g.executionSink.published).position account).toInt +
        pending account g.executionSink.restingOrders =
      (g.riskManager.position account).toInt := by
  obtain ⟨Q, hrefines⟩ := h.refines
  have hexposure := h.agrees account
  rw [exposure] at hexposure
  have hlimit := h.limited account
  have hpending := pending_le account h.atMost
  have hlength : R.orders.length ≤ 4096 := by
    rw [← hrefines.restingOrders_perm.length_eq]
    exact restingOrders_length g.executionSink
  rw [PositionManager.afterTrades_position, hrefines.trades,
    pending_perm hrefines.restingOrders_perm, Int32.toInt_ofInt_of_le (by omega) (by omega)]
  exact hexposure

/-! ### Short runs -/

theorem idFresh_of_numbered {n : Nat} (h : Inv g R) (hnumbered : Numbered R n)
    (hn : 1000 + 2 * (n + 1) < 2 ^ 64) : idFresh g.executionSink = true := by
  obtain ⟨Q, hrefines⟩ := h.refines
  have hdrawn := hnumbered.drawn
  have hne : R.sequence + 1 ≠ 0 := by
    intro h0
    have hnat := congrArg UInt64.toNat h0
    rw [UInt64.toNat_add, UInt64.toNat_one, UInt64.toNat_zero] at hnat
    omega
  rw [idFresh, hrefines.contains_eq_false_iff.mpr (hnumbered.fresh hn), hrefines.sequence,
    decide_eq_true hne]
  exact Bool.or_true _

theorem idsFresh_of_numbered {intents : List OrderIntent} {n : Nat} (h : Inv g R)
    (hnumbered : Numbered R n) (hn : 1000 + 2 * (n + intents.length) < 2 ^ 64)
    (hv : ∀ intent ∈ intents, ValidPrice intent.price) : g.idsFresh intents = true := by
  induction intents generalizing g R n with
  | nil => rfl
  | cons intent intents ih =>
      rw [List.length_cons] at hn
      have hprice := hv intent List.mem_cons_self
      obtain ⟨result, g₁, hok, hout⟩ := h.submit_outcome hprice
      have hfresh := h.idFresh_of_numbered hnumbered (by omega)
      obtain ⟨R₁, h₁, hafter⟩ := h.submit hprice hout fun _ => hfresh
      have hnumbered₁ : Numbered R₁ (n + 1) := by
        rcases hafter with rfl | htaken
        · have hdrawn := hnumbered.drawn
          exact ⟨by omega, hnumbered.issued⟩
        · exact hnumbered.taken htaken (by omega)
      rw [Gateway.idsFresh, hok]
      simp only [hfresh, Bool.or_true, Bool.true_and]
      exact ih h₁ hnumbered₁ (by omega) fun x hx => hv x (List.mem_cons_of_mem intent hx)

end Inv

end Gateway

/-- Every run short enough for the counter gives out fresh ids only. -/
theorem gateway_idsFresh_of_length (stdHash : OrderId → Nat) (intents : List OrderIntent)
    (hv : ∀ intent ∈ intents, ValidPrice intent.price)
    (hlen : intents.length < 2 ^ 63 - 500) :
    (Gateway.init (MatchingEngine.init stdHash)).idsFresh intents = true :=
  (Gateway.init_inv stdHash).idsFresh_of_numbered Numbered.empty (by omega) hv

/-- After every run an account's executed position, with its resting orders counted as
filled, is its position with the risk manager, and within the limit. -/
theorem gateway_exposure_limit (stdHash : OrderId → Nat) (intents : List OrderIntent)
    (hv : ∀ intent ∈ intents, ValidPrice intent.price)
    (hfresh : (Gateway.init (MatchingEngine.init stdHash)).idsFresh intents = true) :
    ∃ results g, (Gateway.init (MatchingEngine.init stdHash)).submitAll
        MatchingEngineExecutionSink.submit intents = .ok (results, g) ∧
      ∀ account,
        ((PositionManager.afterTrades g.executionSink.published).position account).toInt +
            pending account g.executionSink.restingOrders =
          (g.riskManager.position account).toInt ∧
        (((PositionManager.afterTrades g.executionSink.published).position account).toInt +
          pending account g.executionSink.restingOrders).natAbs ≤ 500 := by
  obtain ⟨results, g, R, hok, h⟩ := (Gateway.init_inv stdHash).submitAll hv hfresh
  refine ⟨results, g, hok, fun account => ?_⟩
  have hexecuted := h.executed_position account
  exact ⟨hexecuted, by rw [hexecuted]; exact h.limited account⟩

/-- Account 1 rests a buy order of 500, so that it may rest a sell order of 1000, and
accounts 2 and 3 buy all of the latter. -/
def shortSaleIntents : List OrderIntent :=
  [{ accountId := 1, side := .buy, price := 10, quantity := 500 },
    { accountId := 1, side := .sell, price := 20, quantity := 1000 },
    { accountId := 2, side := .buy, price := 20, quantity := 500 },
    { accountId := 3, side := .buy, price := 20, quantity := 500 }]

theorem gateway_exposure_limit_short_sale :
    ∃ results g, (Gateway.init (MatchingEngine.init UInt64.toNat)).submitAll
        MatchingEngineExecutionSink.submit shortSaleIntents = .ok (results, g) ∧
      ∀ account,
        ((PositionManager.afterTrades g.executionSink.published).position account).toInt +
            pending account g.executionSink.restingOrders =
          (g.riskManager.position account).toInt ∧
        (((PositionManager.afterTrades g.executionSink.published).position account).toInt +
          pending account g.executionSink.restingOrders).natAbs ≤ 500 :=
  gateway_exposure_limit UInt64.toNat shortSaleIntents (by decide)
    (gateway_idsFresh_of_length UInt64.toNat shortSaleIntents (by decide) (by decide))

/-- All four orders are accepted, and account 1 has then sold 1000 and bought nothing. -/
theorem executed_position_exceeds_limit :
    (∀ intent ∈ shortSaleIntents, ValidPrice intent.price) ∧
    ((Gateway.init (MatchingEngine.init UInt64.toNat)).submitAll
        MatchingEngineExecutionSink.submit shortSaleIntents).map (fun run =>
          (run.1.map GatewayResult.accepted,
            ((PositionManager.afterTrades run.2.executionSink.published).position 1).toInt)) =
      .ok ([true, true, true, true], -1000) := by
  constructor
  · decide
  · decide +kernel

end OpenHft
