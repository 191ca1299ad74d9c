import OpenHft.Model.SampleReplay
import OpenHft.Proofs.ReplayTermination

/-!
# Generated files

The generator writes what the reader and the dispatcher take apart again: the fields of the
struct are at the offsets where the mapper looks for them, and every message stands behind its
length. So the feed of a generated file is its orders, one Add Order each. A file that the
queue has room for is then traded in the same way by every fair schedule: nothing is dropped,
the replay comes to its end, and the book and the messages sent are a function of the orders.
-/

namespace OpenHft

open Lib SampleItchReplay

namespace SampleOrder

/-- The side that the order's byte is read as. -/
def bookSide (order : SampleOrder) : Side := if order.side = 'B'.toUInt8 then .buy else .sell

/-- The price on the wire, in the book. -/
def bookPrice (order : SampleOrder) : Price := Int64.ofNat order.price.toNat

/-- What an order of a file is dispatched as. -/
def event (order : SampleOrder) : MarketDataEvent where
  type := .addOrder
  orderId := order.orderReferenceNumber
  side := order.bookSide
  symbol := symbol
  price := order.bookPrice
  quantity := order.shares

/-- What it is in the market. -/
def live (order : SampleOrder) : OrderData :=
  ⟨order.orderReferenceNumber, 0, order.bookSide, order.bookPrice, order.shares⟩

end SampleOrder

/-! ## From the struct to the event -/

theorem toPrice_eq (price : UInt32) :
    ItchReplayDispatcher.toPrice price = Int64.ofNat price.toNat := by
  refine congrArg UInt64.toInt64 (UInt64.toNat_inj.mp ?_)
  rw [UInt32.toNat_toUInt64]
  exact (Nat.mod_eq_of_lt (Nat.lt_trans price.toNat_lt (by decide))).symm

theorem makeAddOrder_type (order : SampleOrder) :
    Bytes.ofList (makeAddOrder order).toList 0 = 'A'.toUInt8 :=
  (Bytes.startsWith_ofList (makeAddOrder order)).left.left.left.left.left.left 0 (by decide)

theorem messageEvent_makeAddOrder (order : SampleOrder) :
    TradingRuntime.messageEvent (makeAddOrder order).toList = some order.event := by
  have h := Bytes.startsWith_ofList (makeAddOrder order)
  have hshares := h.left.left
  have hside := hshares.left
  have hreference := hside.left
  have hside19 : Bytes.ofList (makeAddOrder order).toList 19 = order.side :=
    hside.right 0 (by decide)
  rw [TradingRuntime.messageEvent, ItchReplayDispatcher.event, Vector.length_toList,
    if_neg (by decide), if_pos (makeAddOrder_type order), AddOrderParser.parse, parseItch,
    if_neg (by decide), AddOrderMapper.fromWire, readUint64_of_startsWith hreference.right, hside19,
    readUint32_of_startsWith hshares.right, h.left.right.copyN,
    readUint32_of_startsWith h.right, Option.map_some, toPrice_eq]
  simp only [SampleOrder.event, SampleOrder.bookSide, SampleOrder.bookPrice, beq_iff_eq]

theorem generate_eq_replayFile (orders : List SampleOrder) :
    generate orders = replayFile (orders.map fun order => (makeAddOrder order).toList) := by
  have hfrom : ∀ stream, orders.foldl
      (fun stream order => writeMessage stream (makeAddOrder order)) stream =
        stream ++ replayFile (orders.map fun order => (makeAddOrder order).toList) := by
    induction orders with
    | nil => exact fun stream => (List.append_nil stream).symm
    | cons order orders ih =>
        intro stream
        rw [List.foldl_cons, ih, List.map_cons, replayFile_cons, writeMessage, frame,
          Vector.length_toList]
        simp only [List.append_assoc]
  exact hfrom []

theorem makeAddOrder_wellFormed (order : SampleOrder) : WellFormed (makeAddOrder order).toList := by
  have hhead : ∀ l : List UInt8, l.headD 0 = Bytes.ofList l 0 := by
    intro l
    cases l <;> rfl
  refine ⟨⟨36, ?_, ?_⟩, ?_⟩
  · rw [hhead, makeAddOrder_type]
    rfl
  · rw [Vector.length_toList]
  · rw [Vector.length_toList]
    decide

theorem fileEvents_generated (orders : List SampleOrder) :
    fileEvents (orders.map fun order => (makeAddOrder order).toList) =
      orders.map SampleOrder.event := by
  induction orders with
  | nil => rfl
  | cons order orders ih =>
      rw [List.map_cons, List.map_cons, fileEvents,
        List.filterMap_cons_some (messageEvent_makeAddOrder order)]
      exact congrArg _ ih

/-- What is read back from a generated file. -/
theorem fileFeed_generate (orders : List SampleOrder) :
    fileFeed (generate orders) = orders.map SampleOrder.event := by
  rw [generate_eq_replayFile, fileFeed_replayFile, ← fileEvents_generated]
  · rfl
  · intro message hmem
    obtain ⟨order, -, rfl⟩ := List.mem_map.mp hmem
    have hwell := makeAddOrder_wellFormed order
    exact ⟨List.length_pos_iff.mp hwell.length_pos, hwell.short⟩

/-! ## From the orders to the market -/

theorem fitFeed_generated {orders : List SampleOrder}
    (hprices : ∀ order ∈ orders, ValidPrice order.bookPrice)
    (hids : (orders.map SampleOrder.orderReferenceNumber).Nodup) :
    FitFeed (orders.map SampleOrder.event) where
  prices := by
    intro event hmem _
    obtain ⟨order, horder, rfl⟩ := List.mem_map.mp hmem
    exact hprices order horder
  ids := by
    rw [List.filterMap_map]
    have hbrings : (MarketDataEvent.brings ∘ SampleOrder.event) =
        fun order => some order.orderReferenceNumber := rfl
    rw [hbrings, List.filterMap_eq_map']
    exact hids

/-- The orders join the market one behind the other, as long as there is room. -/
theorem run_generated {orders : List SampleOrder} (m : Market)
    (hroom : m.live.length + orders.length ≤ defaultOrderCapacity) :
    m.run (orders.map SampleOrder.event) =
      ⟨m.live ++ orders.map SampleOrder.live, m.reduced⟩ := by
  induction orders generalizing m with
  | nil => rw [List.map_nil, List.map_nil, List.append_nil]; rfl
  | cons order orders ih =>
      rw [List.length_cons] at hroom
      have hstep : m.step order.event = ⟨m.live ++ [order.live], m.reduced⟩ := by
        have hlive : Replay.step defaultOrderCapacity m.live order.event =
            m.live ++ [order.live] := if_neg (by omega)
        rw [Market.step, hlive]
        rfl
      have hrun : m.run ((order :: orders).map SampleOrder.event) =
          (m.step order.event).run (orders.map SampleOrder.event) := rfl
      rw [hrun, hstep, ih]
      · rw [List.map_cons, List.append_assoc, List.singleton_append]
      · rw [List.length_append, List.length_singleton]
        omega

theorem ReferenceDesk.run_market {τ : Type} (decision : Decision) (send : OuchTransport τ)
    (d : ReferenceDesk τ) (events : List MarketDataEvent) :
    (d.run decision send events).market = d.market.run events := by
  induction events generalizing d with
  | nil => rfl
  | cons event events ih =>
      rw [ReferenceDesk.run, List.foldl_cons, Market.run, List.foldl_cons,
        ← ReferenceDesk.consume_market decision send d event]
      exact ih (d.consume decision send event)

namespace TradingRuntime

open MarketDataPipeline

/-- A generated file that the queue has room for, along any fair schedule: the replay comes to
its end with every order consumed, the book shows the market of these orders, and what the
transport was handed is a matter of the orders alone. -/
theorem generated_file_traded {τ : Type} {strategy : IStrategy} {decision : Decision}
    (hsees : Sees strategy decision) (send : OuchTransport τ) (transport : τ)
    (stdHash : OrderId → Nat) (buffer : Fin QueueCapacity → MarketDataEvent)
    (orders : List SampleOrder) (hfew : orders.length < QueueCapacity)
    (hprices : ∀ order ∈ orders, ValidPrice order.bookPrice)
    (hids : (orders.map SampleOrder.orderReferenceNumber).Nodup)
    (schedule : Nat → ReplayTurn) (hfair : Fair schedule) :
    fileFeed (generate orders) = orders.map SampleOrder.event ∧
    ∃ n, ∀ m, n ≤ m →
      let s := (init buffer (generate orders)).run ((List.range m).map schedule)
      s.phase = .complete ∧ s.pipeline.consumed = orders.map SampleOrder.event ∧
        ∃ desk, (TradingDesk.init stdHash transport).consumeAll strategy send
            s.pipeline.consumed = .ok desk ∧
          ShowsMarket desk.bookConsumer.book ⟨orders.map SampleOrder.live, fun _ _ => 0⟩ ∧
          desk.gateway.executionSink.transport = ((ReferenceDesk.init transport).run decision
            send (orders.map SampleOrder.event)).transport := by
  obtain ⟨desk, hok, hfollows⟩ := Follows.of_fit hsees send stdHash transport
    (fitFeed_generated hprices hids)
  obtain ⟨Q, hshows⟩ := hfollows.shows
  have hmarket := ReferenceDesk.run_market decision send (.init transport)
    (orders.map SampleOrder.event)
  have hlive : (ReferenceDesk.init transport).market.run (orders.map SampleOrder.event) =
      ⟨orders.map SampleOrder.live, fun _ _ => 0⟩ :=
    run_generated .empty (by rw [Market.empty, List.length_nil, Nat.zero_add]; exact hfew.le)
  have hwell : ∀ message ∈ orders.map fun order => (makeAddOrder order).toList,
      WellFormed message := by
    intro message hmem
    obtain ⟨order, -, rfl⟩ := List.mem_map.mp hmem
    exact makeAddOrder_wellFormed order
  obtain ⟨n, hend⟩ := comes_to_end buffer (generate orders) hfair
  refine ⟨fileFeed_generate orders, n, fun m hm => ?_⟩
  obtain ⟨-, hdone⟩ := hend m hm
  have hconsumed : ((init buffer (generate orders)).run
      ((List.range m).map schedule)).pipeline.consumed = orders.map SampleOrder.event := by
    rw [← fileEvents_generated]
    refine Progress.consumed ?_ hdone
    rw [generate_eq_replayFile]
    exact (progress_init buffer _).run (inv_init buffer) hwell
      (by rw [List.length_map]; exact hfew) _
  refine ⟨hdone, hconsumed, desk, ?_, ?_, hfollows.transport⟩
  · rw [hconsumed]
    exact hok
  · rw [← hlive, ← hmarket]
    exact hshows.showsMarket

open MarketDataStrategyConsumer in
/-- The file that the program writes. -/
theorem generated_file_traded_sample :
    ∃ n, ∀ m, n ≤ m → ∃ desk, (TradingDesk.init UInt64.toNat {}).consumeAll
        (runtimeStrategy Rat).onMarketData RecordingOuchTransport.send
        ((init (fun _ => {}) (generate sample)).run
          ((List.range m).map alternating)).pipeline.consumed = .ok desk ∧
      ShowsMarket desk.bookConsumer.book ⟨sample.map SampleOrder.live, fun _ _ => 0⟩ ∧
      desk.gateway.executionSink.transport.lastLength = 47 := by
  obtain ⟨-, n, hend⟩ := generated_file_traded (runtimeStrategy Rat).sees
    RecordingOuchTransport.send {} UInt64.toNat (fun _ => {}) sample (by decide) (by decide)
    (by decide) alternating alternating_fair
  refine ⟨n, fun m hm => ?_⟩
  obtain ⟨-, -, desk, hok, hshows, htransport⟩ := hend m hm
  refine ⟨desk, hok, hshows, ?_⟩
  rw [htransport]
  decide +kernel

end TradingRuntime

end OpenHft
