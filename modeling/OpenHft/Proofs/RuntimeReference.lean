import OpenHft.Proofs.HandlerRuns
import OpenHft.Proofs.Numbering
import OpenHft.Proofs.RuntimeLinear
import OpenHft.Spec.ReferenceExchange

/-!
# The exchange process against the reference exchange

One sequence of messages stands behind all connections (`RuntimeLinear`), and the handler
follows the reference book on it. So whatever the network does, what clients are answered,
what is traded and what rests is what the reference exchange says of that sequence, and each
client's part of it is in the order in which it was sent.
-/

namespace OpenHft

open OpenHft.Lib PriceTime

/-- The price of the order in the block, if there is one, is one that the book has. -/
def BlockInRange (block : Vector UInt8 EnterOrderSize) : Prop :=
  ∀ enterOrder ∈ OuchDecoder.decodeEnterOrder (.ofList block.toList) EnterOrderSize,
    ValidPrice enterOrder.price.toInt64

instance (block : Vector UInt8 EnterOrderSize) : Decidable (BlockInRange block) :=
  inferInstanceAs (Decidable (∀ enterOrder ∈ _, _))

namespace ExchangeOuchHandler

variable {h : ExchangeOuchHandler} {Q : Queues} {R : Book} {n : Nat}
  {block : Vector UInt8 EnterOrderSize} {blocks : List (Vector UInt8 EnterOrderSize)}

/-- One message. -/
theorem handleEnterOrder_follows (accountId : AccountId) (hr : Refines h.matchingEngine Q [] R)
    (hnumbered : Numbered R n) (hn : 1000 + 2 * (n + 1) < 2 ^ 64)
    (hprice : BlockInRange block) :
    ∃ h' Q', h.handleEnterOrder accountId (.ofList block.toList) EnterOrderSize =
        .ok ((R.respond accountId block).1, h') ∧
      Refines h'.matchingEngine Q' [] (R.respond accountId block).2 ∧
      Numbered (R.respond accountId block).2 (n + 1) := by
  have hdrawn := hnumbered.drawn
  have hsame : Numbered R (n + 1) := ⟨by omega, hnumbered.issued⟩
  rw [Book.respond]
  cases hd : OuchDecoder.decodeEnterOrder (.ofList block.toList) EnterOrderSize with
  | none => exact ⟨h, Q, handleEnterOrder_undecoded hd, hr, hsame⟩
  | some enterOrder =>
      dsimp only
      split
      · next hfull =>
          exact ⟨h, Q, handleEnterOrder_exhausted hd (hr.free_nil_iff.mpr hfull), hr, hsame⟩
      · next hroom =>
          have hfree : h.matchingEngine.orderPool.freeList ≠ [] :=
            fun hnil => hroom (hr.free_nil_iff.mp hnil)
          obtain ⟨engine, Q', hsubmit, hr'⟩ := hr.enter (s := submissionOf accountId enterOrder)
            (hprice enterOrder hd) hfree (hnumbered.fresh hn)
          exact ⟨_, Q', handleEnterOrder_taken hd hfree hsubmit, hr',
            hnumbered.taken (enter_taken R _) hn⟩

theorem handleAll_follows (accountId : AccountId) (hr : Refines h.matchingEngine Q [] R)
    (hnumbered : Numbered R n) (hn : 1000 + 2 * (n + blocks.length) < 2 ^ 64)
    (hprices : ∀ block ∈ blocks, BlockInRange block) :
    ∃ h' Q', h.handleAll accountId blocks = .ok ((R.respondAll accountId blocks).1, h') ∧
      Refines h'.matchingEngine Q' [] (R.respondAll accountId blocks).2 := by
  induction blocks generalizing h Q R n with
  | nil => exact ⟨h, Q, rfl, hr⟩
  | cons block blocks ih =>
      rw [List.length_cons] at hn
      obtain ⟨h₁, Q₁, hfirst, hr₁, hnumbered₁⟩ := handleEnterOrder_follows accountId hr
        hnumbered (by omega) (hprices block List.mem_cons_self)
      obtain ⟨h', Q', hrest, hr'⟩ := ih hr₁ hnumbered₁ (by omega)
        fun b hb => hprices b (List.mem_cons_of_mem block hb)
      refine ⟨h', Q', ?_, hr'⟩
      simp only [handleAll, bind_eq_ok]
      exact ⟨_, hfirst, _, hrest, rfl⟩

end ExchangeOuchHandler

namespace ExchangeRuntime

variable {s : ExchangeRuntime} {accountId : AccountId} {stdHash : OrderId → Nat}

/-- What the calls of a run come to. -/
theorem Served.follows (h : Served accountId (.init stdHash) s)
    (hprices : ∀ call ∈ s.calls, BlockInRange call.block)
    (hlength : s.calls.length < 2 ^ 63 - 500) :
    s.fault = none ∧ s.calls.map HandlerCall.response =
        (Book.empty.respondAll accountId (s.calls.map HandlerCall.block)).1 ∧
      ∃ Q, Refines s.handler.matchingEngine Q []
        (Book.empty.respondAll accountId (s.calls.map HandlerCall.block)).2 := by
  have hinRange : ∀ block ∈ s.calls.map HandlerCall.block, BlockInRange block := by
    intro block hblock
    obtain ⟨call, hcall, rfl⟩ := List.mem_map.mp hblock
    exact hprices call hcall
  have hfits : 1000 + 2 * (0 + (s.calls.map HandlerCall.block).length) < 2 ^ 64 := by
    rw [List.length_map]
    omega
  obtain ⟨h', Q', hall, hr⟩ := ExchangeOuchHandler.handleAll_follows (h := .init stdHash)
    accountId (init_refines stdHash) Numbered.empty hfits hinRange
  have hfault : s.fault = none := by
    cases hfault : s.fault with
    | none => rfl
    | some fault => cases (h.linear.faulted fault hfault).symm.trans hall
  have heq := (h.linear.replay hfault).symm.trans hall
  simp only [Except.ok.injEq, Prod.mk.injEq] at heq
  obtain ⟨hresponses, rfl⟩ := heq
  exact ⟨hfault, hresponses, Q', hr⟩

/-- In every run whose messages have prices that the book has, and in which there are fewer
than 2⁶³ - 500 of them, so that orders and trades can be numbered: nothing goes wrong in the
handler, and the responses to the sequence of messages, the trades published and the book are
those of the reference exchange. -/
theorem exchange_follows_reference (port : UInt16) (accountId : AccountId)
    (stdHash : OrderId → Nat) (tls : Bool) (replies : List Reply)
    (hsane : Meets step Sane (init port accountId (.init stdHash) tls) replies)
    (hprices : ∀ call ∈ ((init port accountId (.init stdHash) tls).run replies).calls,
      BlockInRange call.block)
    (hlength : ((init port accountId (.init stdHash) tls).run replies).calls.length <
      2 ^ 63 - 500) :
    let s := (init port accountId (.init stdHash) tls).run replies
    let reference := Book.empty.respondAll accountId (s.calls.map HandlerCall.block)
    s.fault = none ∧ s.calls.map HandlerCall.response = reference.1 ∧
      s.handler.matchingEngine.published = reference.2.trades ∧
      ShowsBook s.handler.matchingEngine reference.2 := by
  intro s reference
  obtain ⟨hfault, hresponses, Q, hr⟩ :=
    (served_run port accountId (.init stdHash) tls hsane).follows hprices hlength
  exact ⟨hfault, hresponses, hr.trades, hr.showsBook⟩

/-- Two clients with an order each. The second sells what the first buys, and one trade of ten
units is published. -/
theorem exchange_follows_reference_crossing_clients :
    let s := (init 8080 1001 (.init UInt64.toNat) true).run
      (clientsSending ExchangeTcpServer.buyTen ExchangeTcpServer.sellTen)
    let reference := Book.empty.respondAll 1001 (s.calls.map HandlerCall.block)
    s.fault = none ∧ s.calls.length = 2 ∧
      reference.2.trades.map Trade.quantity = [10] ∧
      s.handler.matchingEngine.published = reference.2.trades ∧
      ShowsBook s.handler.matchingEngine reference.2 := by
  have htrades : (Book.empty.respondAll 1001 (((init 8080 1001 (.init UInt64.toNat) true).run
      (clientsSending ExchangeTcpServer.buyTen ExchangeTcpServer.sellTen)).calls.map
        HandlerCall.block)).2.trades.map Trade.quantity = [10] := by decide +kernel
  have h := exchange_follows_reference 8080 1001 UInt64.toNat true
    (clientsSending ExchangeTcpServer.buyTen ExchangeTcpServer.sellTen)
    (by decide +kernel) (by decide +kernel) (by decide +kernel)
  exact ⟨h.1, by decide +kernel, htrades, h.2.2.1, h.2.2.2⟩

end ExchangeRuntime

end OpenHft
