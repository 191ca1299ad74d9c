import Mathlib.Data.Finset.Card
import OpenHft.Proofs.HandlerRuns

/-!
# The session map and the book

The handler registers every order under its id before it is matched, and nothing takes an
entry out again: `ExchangeOrderSessionMap::erase` is not called by anyone. So the map has
the orders in the book for as long as no order leaves the book, and no order leaves before
one crosses. A trade fills one of its two orders; so after the first call with a trade the
book has no more orders than before it, and the map has one more.

Before that call no number has been drawn but one for each order in the book. The pool bounds
these, so nothing has to be assumed about the counter.
-/

namespace OpenHft

open OpenHft.Lib PriceTime ExchangeSession

namespace PriceTime

variable {R R' : Book} {s : Submission} {i i' : OrderData}

/-- Every round costs an order of the book, or the one that is worked on. -/
theorem Rounds.traded_le (h : Rounds i R i' R') :
    R'.trades.length + R'.orders.length + toTrade i' ≤
      R.trades.length + R.orders.length + toTrade i := by
  induction h with
  | done i R => exact Nat.le_refl _
  | @more i i₁ i' R R₁ R' first others ih =>
      have hlength := first.length_le
      have htrades : R₁.trades.length = R.trades.length + 1 := by
        cases first
        exact List.length_append
      omega

theorem rest_length (R : Book) (o : OrderData) :
    (R.rest o).orders.length = R.orders.length + toTrade o := by
  rw [Book.rest, toTrade]
  split
  · rfl
  · exact (orders_insertBehind R o).length_eq

theorem rounds_trades_ne_nil {l : List OrderData} {sequence : UInt64} (hq : i.quantity ≠ 0)
    (hcross : crosses i l = true) : (rounds i sequence l).trades ≠ [] := by
  cases l with
  | nil => cases hcross
  | cons r rest =>
      have hgo : ¬ (i.quantity = 0 ∨ reaches i.side i.price r.price = false) := by
        rintro (h0 | hno)
        · exact hq h0
        · exact absurd (hcross.symm.trans hno) Bool.noConfusion
      simp only [rounds, if_neg hgo]
      split
      · split <;> simp
      · simp

/-- An order that crosses does not make the book any larger. -/
theorem enter_length_le (hq : s.quantity ≠ 0)
    (hcross : crosses (R.incoming s) (R.resting s.side.opposite) = true) :
    (R.enter s).orders.length ≤ R.orders.length := by
  have hsome : 0 < (rounds (R.incoming s) R.drawn.sequence
      (R.resting s.side.opposite)).trades.length :=
    List.length_pos_of_ne_nil (rounds_trades_ne_nil hq hcross)
  have hrounds : Rounds (R.incoming s) R.drawn _ (R.drawn.swept s.side.opposite
      (rounds (R.incoming s) R.drawn.sequence (R.resting s.side.opposite))) :=
    rounds_reached rfl
  rw [Book.enter, if_pos hcross, rest_length]
  generalize rounds (R.incoming s) R.drawn.sequence (R.resting s.side.opposite) = swept
    at hsome hrounds ⊢
  have hle := hrounds.traded_le
  have htrades : (R.drawn.swept s.side.opposite swept).trades.length =
      R.drawn.trades.length + swept.trades.length := List.length_append
  have hone : toTrade (R.incoming s) = 1 := if_neg hq
  have hlength : R.drawn.orders.length = R.orders.length := rfl
  show (R.drawn.swept s.side.opposite swept).orders.length + toTrade swept.incoming ≤ _
  omega

/-- An order that crosses nothing is in the book under the next number. -/
theorem enter_of_not_crosses
    (hno : crosses (R.incoming s) (R.resting s.side.opposite) = false) :
    (R.enter s).sequence = R.sequence + 1 ∧
      (R.enter s).orders.Perm (R.incoming s :: R.orders) := by
  rw [Book.enter, hno]
  exact ⟨rfl, orders_insertBehind R.drawn (R.incoming s)⟩

end PriceTime

namespace ExchangeOuchHandler

variable {h h' : ExchangeOuchHandler} {call : EnterOrderCall} {Q : Queues} {R : Book}

/-- The ids in the map are those of the resting orders, which the pool has at most 4096 of. -/
def OnlyLive (h : ExchangeOuchHandler) : Prop :=
  (∀ id, (h.sessionMap id).isSome = true ↔
    id ∈ h.matchingEngine.restingOrders.map OrderData.id) ∧
  ∃ ids : Finset OrderId, (∀ id, id ∈ ids ↔ (h.sessionMap id).isSome = true) ∧
    ids.card ≤ 4096

/-- The order in the message, if there is an object for it, crosses nothing. -/
def CrossesNothing (h : ExchangeOuchHandler) (call : EnterOrderCall) : Prop :=
  ∀ enterOrder order engine,
    OuchDecoder.decodeEnterOrder call.data call.length = some enterOrder →
    h.matchingEngine.prepareOrder call.accountId enterOrder.side enterOrder.price.toInt64
      enterOrder.quantity = (some order, engine) →
    engine.canCross order = .ok false

/-- `canCross` asks what the reference matcher asks. -/
theorem crossesNothing_iff (hr : Refines h.matchingEngine Q [] R) {enterOrder : EnterOrder}
    (hd : OuchDecoder.decodeEnterOrder call.data call.length = some enterOrder)
    (hroom : R.orders.length ≠ defaultOrderCapacity) :
    h.CrossesNothing call ↔ crosses (R.incoming (submission call enterOrder))
      (R.resting enterOrder.side.opposite) = false := by
  obtain ⟨p, rest, hfree⟩ := List.exists_cons_of_ne_nil
    fun hnil => hroom (hr.free_nil_iff.mp hnil)
  let o := EngineInv.newOrder h.matchingEngine call.accountId enterOrder.side
    enterOrder.price.toInt64 enterOrder.quantity
  have hdata : ((EngineInv.prepared h.matchingEngine p rest o).book.orders p).data =
      R.incoming (submission call enterOrder) := by
    rw [EngineInv.prepared_self]
    show OrderData.mk (h.matchingEngine.sequence + 1) _ _ _ _ = _
    rw [hr.sequence]
    rfl
  have hcan := (hr.prepare hfree (o := o) rfl).canCross_eq (p := p)
  rw [hdata, ← Order.data_side, hdata] at hcan
  constructor
  · intro hnothing
    have hfalse := hnothing enterOrder p _ hd (EngineInv.prepareOrder_some hfree ..)
    exact Except.ok.inj (hcan.symm.trans hfalse)
  · intro hno enterOrder' order engine hd' hprepare
    cases hd.symm.trans hd'
    rw [EngineInv.prepareOrder_some hfree] at hprepare
    cases hprepare
    exact hcan.trans (congrArg Except.ok hno)

/-- What calls that cross nothing keep: every number drawn is that of an order in the book,
and of these there are not too many. -/
structure Unfilled (h : ExchangeOuchHandler) (Q : Queues) (R : Book) : Prop where
  refines : Refines h.matchingEngine Q [] R
  drawn : R.sequence.toNat = 1000 + R.orders.length
  issued : ∀ o ∈ R.orders, o.id.toNat ≤ R.sequence.toNat
  registered : ∀ id, (h.sessionMap id).isSome = true ↔ id ∈ R.orders.map OrderData.id

theorem init_unfilled (stdHash : OrderId → Nat) :
    Unfilled (.init stdHash) (fun _ => []) .empty where
  refines := init_refines stdHash
  drawn := rfl
  issued := fun _ ho => absurd ho List.not_mem_nil
  registered := by simp [init, Book.empty, Book.orders]

theorem restingIds_perm (hr : Refines h.matchingEngine Q [] R) :
    (h.matchingEngine.restingOrders.map OrderData.id).Perm (R.orders.map OrderData.id) :=
  hr.restingOrders_perm.map _

theorem orders_length_le (hr : Refines h.matchingEngine Q [] R) : R.orders.length ≤ 4096 := by
  rw [← hr.restingOrders_perm.length_eq]
  exact restingOrders_length _

namespace Unfilled

theorem onlyLive (hu : Unfilled h Q R) : h.OnlyLive := by
  have hlength := orders_length_le hu.refines
  refine ⟨fun id => ?_, (R.orders.map OrderData.id).toFinset, fun id => ?_, ?_⟩
  · rw [hu.registered, (restingIds_perm hu.refines).mem_iff]
  · rw [hu.registered, List.mem_toFinset]
  · refine (List.toFinset_card_le _).trans ?_
    rw [List.length_map]
    exact hlength

theorem fresh (hu : Unfilled h Q R) : ∀ o ∈ R.orders, o.id ≠ R.sequence + 1 := by
  intro o ho heq
  have hle := hu.issued o ho
  have hdrawn := hu.drawn
  have hlength := orders_length_le hu.refines
  rw [heq, toNat_succ (by omega)] at hle
  omega

theorem idFresh (hu : Unfilled h Q R) : h.IdFresh call :=
  fun _ => hu.refines.contains_eq_false_iff.mpr hu.fresh

theorem isSome_taken (hu : Unfilled h Q R) (enterOrder : EnterOrder) (engine : MatchingEngine)
    (id : OrderId) :
    ((h.taken enterOrder (R.sequence + 1) engine).sessionMap id).isSome = true ↔
      id ∈ (R.sequence + 1) :: R.orders.map OrderData.id := by
  show (Function.update h.sessionMap (R.sequence + 1) _ id).isSome = true ↔ _
  by_cases hid : id = R.sequence + 1
  · simp [hid]
  · simp [hid, hu.registered]

theorem keeps (hu : Unfilled h Q R) (hprice : PriceInRange call)
    (hnothing : h.CrossesNothing call) :
    ∃ h', h.receive call = .ok h' ∧ ∃ Q' R', Unfilled h' Q' R' := by
  obtain ⟨h', Q', R', hok, hr', hreceived⟩ := receive_outcome hu.refines hprice hu.idFresh
  refine ⟨h', hok, Q', R', ?_⟩
  cases hreceived with
  | refused => exact ⟨hr', hu.drawn, hu.issued, hu.registered⟩
  | taken enterOrder engine hd hroom hfresh =>
      have hdrawn := hu.drawn
      have hlength := orders_length_le hu.refines
      have hsucc : (R.sequence + 1).toNat = R.sequence.toNat + 1 := toNat_succ (by omega)
      obtain ⟨hsequence, hperm⟩ := enter_of_not_crosses (s := submission call enterOrder)
        ((crossesNothing_iff hu.refines hd hroom).mp hnothing)
      refine ⟨hr', ?_, fun o ho => ?_, fun id => ?_⟩
      · rw [hsequence, hperm.length_eq, List.length_cons]
        omega
      · rw [hsequence, hsucc]
        rcases List.mem_cons.mp (hperm.mem_iff.mp ho) with rfl | ho
        · exact Nat.le_of_eq hsucc
        · have := hu.issued o ho
          omega
      · rw [hu.isSome_taken, (hperm.map OrderData.id).mem_iff]
        exact Iff.rfl

/-- If the book has not become larger, the map has one id more than there are orders. -/
theorem not_onlyLive {Q' : Queues} {R' : Book} {enterOrder : EnterOrder}
    {engine : MatchingEngine} (hu : Unfilled h Q R) (hr' : Refines engine Q' [] R')
    (hle : R'.orders.length ≤ R.orders.length) :
    ¬ (h.taken enterOrder (R.sequence + 1) engine).OnlyLive := by
  intro hlive
  have hnodup : ((R.sequence + 1) :: R.orders.map OrderData.id).Nodup := by
    refine List.nodup_cons.mpr ⟨fun hmem => ?_, hu.refines.ranked.unique⟩
    obtain ⟨o, ho, heq⟩ := List.mem_map.mp hmem
    exact hu.fresh o ho heq
  have hsubset : (R.sequence + 1) :: R.orders.map OrderData.id ⊆
      R'.orders.map OrderData.id := by
    intro id hid
    rw [← (hr'.restingOrders_perm.map OrderData.id).mem_iff]
    exact (hlive.1 id).mp ((hu.isSome_taken enterOrder engine id).mpr hid)
  have hlength := (hnodup.subperm hsubset).length_le
  simp only [List.length_cons, List.length_map] at hlength
  omega

theorem needs (hu : Unfilled h Q R) (hprice : PriceInRange call)
    (hquantity : QuantityIn {q | 1 ≤ q} call) (hok : h.receive call = .ok h')
    (hlive : h'.OnlyLive) : h.CrossesNothing call := by
  obtain ⟨h₁, Q', R', hok₁, hr', hreceived⟩ := receive_outcome hu.refines hprice hu.idFresh
  cases hok.symm.trans hok₁
  intro enterOrder order engine hd hprepare
  cases hreceived with
  | refused hfull =>
      rw [EngineInv.prepareOrder_none (hfull enterOrder hd)] at hprepare
      cases hprepare
  | taken enterOrder' engine' hd' hroom hfresh =>
      cases hd.symm.trans hd'
      refine (crossesNothing_iff hu.refines hd hroom).mpr ?_ enterOrder order engine hd hprepare
      by_contra hcross
      have hq : (submission call enterOrder).quantity ≠ 0 :=
        one_le_iff_ne_zero.mp (hquantity enterOrder hd)
      exact hu.not_onlyLive hr' (enter_length_le hq (Bool.eq_true_of_not_eq_false hcross)) hlive

end Unfilled

end ExchangeOuchHandler

open ExchangeOuchHandler

/-- The map has the orders of the book and no others for as long as nothing crosses. -/
theorem session_map_live_iff (stdHash : OrderId → Nat) (calls : List EnterOrderCall)
    (hcalls : ∀ call ∈ calls, PriceInRange call ∧ QuantityIn {q | 1 ≤ q} call) :
    Throughout receive OnlyLive (.init stdHash) calls ↔
      StepsMeet receive CrossesNothing (.init stdHash) calls := by
  refine throughout_iff_of (fun call => PriceInRange call ∧ QuantityIn {q | 1 ≤ q} call)
    (fun h => ∃ Q R, Unfilled h Q R) ?_ ?_ ?_ ⟨_, _, init_unfilled stdHash⟩ calls hcalls
  · rintro h ⟨Q, R, hu⟩
    exact hu.onlyLive
  · rintro h call ⟨hprice, -⟩ ⟨Q, R, hu⟩ hnothing
    exact hu.keeps hprice hnothing
  · rintro h call h' ⟨hprice, hquantity⟩ ⟨Q, R, hu⟩ hok hlive
    exact hu.needs hprice hquantity hok hlive

/-- A seller at 10, a buyer at 9 and another seller at 11. -/
def restingOrders : List Submission := [⟨1, .sell, 10, 1⟩, ⟨2, .buy, 9, 4⟩, ⟨3, .sell, 11, 2⟩]

theorem restingOrders_cross_nothing : StepsMeet receive CrossesNothing (.init UInt64.toNat)
    (restingOrders.map (enterCall blank)) := by
  refine ⟨(crossesNothing_iff (init_refines UInt64.toNat) (decode_enterCall _ _)
    (by decide)).mpr rfl, fun h₁ hok₁ => ?_⟩
  obtain ⟨_, e₁, Q₁, -, -, hreceive₁, hr₁⟩ := receive_enter
    (h := ExchangeOuchHandler.init UInt64.toNat) (init_refines UInt64.toNat)
    (enterCall_carries blank ⟨1, .sell, 10, 1⟩) (by decide) (by decide) (by decide)
  cases hreceive₁.symm.trans hok₁
  refine ⟨(crossesNothing_iff hr₁ (decode_enterCall _ _) (by decide)).mpr (by decide),
    fun h₂ hok₂ => ?_⟩
  obtain ⟨_, e₂, Q₂, -, -, hreceive₂, hr₂⟩ := receive_enter
    (h := (ExchangeOuchHandler.init UInt64.toNat).taken _ (Book.empty.sequence + 1) e₁) hr₁
    (enterCall_carries blank ⟨2, .buy, 9, 4⟩) (by decide) (by decide) (by decide)
  cases hreceive₂.symm.trans hok₂
  exact ⟨(crossesNothing_iff hr₂ (decode_enterCall _ _) (by decide)).mpr (by decide),
    fun _ _ => trivial⟩

theorem session_map_live_three :
    Throughout receive OnlyLive (.init UInt64.toNat) (restingOrders.map (enterCall blank)) := by
  refine (session_map_live_iff UInt64.toNat _ fun call hcall => ?_).mpr
    restingOrders_cross_nothing
  have hvalid : ∀ sub ∈ restingOrders, ValidPrice sub.price ∧ (1 : Quantity) ≤ sub.quantity := by
    decide
  obtain ⟨sub, hsub, rfl⟩ := List.mem_map.mp hcall
  exact ⟨(enterCall_carries blank sub).inRange (hvalid sub hsub).1,
    enterCall_quantityIn (hvalid sub hsub).2⟩

/-- The order to sell is filled by the order to buy, and both stay in the map. -/
theorem filled_orders_stay :
    ∃ h₁ h₂, (ExchangeOuchHandler.init UInt64.toNat).receive
        (enterCall blank ⟨1, .sell, 10, 1⟩) = .ok h₁ ∧
      h₁.receive (enterCall blank ⟨2, .buy, 10, 1⟩) = .ok h₂ ∧
      h₂.matchingEngine.restingOrders = [] ∧ (h₂.sessionMap 1001).isSome = true ∧
      ¬ h₂.OnlyLive := by
  obtain ⟨_, e₁, Q₁, -, -, hok₁, hr₁⟩ := receive_enter
    (h := ExchangeOuchHandler.init UInt64.toNat) (init_refines UInt64.toNat)
    (enterCall_carries blank ⟨1, .sell, 10, 1⟩) (by decide) (by decide) (by decide)
  obtain ⟨_, e₂, Q₂, -, -, hok₂, hr₂⟩ := receive_enter
    (h := (ExchangeOuchHandler.init UInt64.toNat).taken _ (Book.empty.sequence + 1) e₁) hr₁
    (enterCall_carries blank ⟨2, .buy, 10, 1⟩) (by decide) (by decide) (by decide)
  have hempty : e₂.restingOrders = [] := by
    have hperm := hr₂.restingOrders_perm
    rw [show ((Book.empty.enter ⟨1, .sell, 10, 1⟩).enter ⟨2, .buy, 10, 1⟩).orders = []
      by decide] at hperm
    exact hperm.eq_nil
  refine ⟨_, _, hok₁, hok₂, hempty, rfl, fun hlive => ?_⟩
  have hmem := (hlive.1 1001).mp rfl
  rw [show ExchangeOuchHandler.matchingEngine _ = e₂ from rfl, hempty] at hmem
  cases hmem

end OpenHft
