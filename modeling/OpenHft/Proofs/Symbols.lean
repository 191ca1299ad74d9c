import OpenHft.Proofs.Attribution

/-!
# What the symbol of an order is worth

The handler decodes the symbol of an Enter Order and returns it in the answer. It is not
passed on to `prepareOrder`, an `Order` has no place for it and the engine has one book, so
orders in any two symbols trade with each other when their prices cross. The exchange is
one for a single symbol: that is exact, in that a second symbol among those its clients use
is enough for an unlike pair to trade (`like_symbols_iff`).
-/

namespace OpenHft

open OpenHft.Lib PriceTime

namespace ExchangeSession

variable {s : ExchangeSession} {call : EnterOrderCall}

/-- Every trade is between two orders of one symbol. -/
def LikeSymbols (s : ExchangeSession) : Prop :=
  ∀ trade ∈ s.handler.matchingEngine.published, ∀ buyer seller,
    AcceptedAs s.answered trade.buyOrderId buyer →
      AcceptedAs s.answered trade.sellOrderId seller → buyer.symbol = seller.symbol

/-- The symbol of the order in the call, if there is one, is one of these. -/
def SymbolIn (symbols : Set Symbol) (call : EnterOrderCall) : Prop :=
  ∀ enterOrder, OuchDecoder.decodeEnterOrder call.data call.length = some enterOrder →
    enterOrder.symbol ∈ symbols

/-- An accepted order was in one of the calls. -/
theorem accepted_symbol_mem {answered : List Answered} {id : OrderId}
    {enterOrder : EnterOrder} {symbols : Set Symbol} (h : AcceptedAs answered id enterOrder)
    (hcalls : ∀ call ∈ answered.map Prod.fst, SymbolIn symbols call) :
    enterOrder.symbol ∈ symbols := by
  obtain ⟨call, hmem, hd⟩ := h
  obtain ⟨entry, hentry, heq⟩ := List.mem_map.mp hmem
  have hcall : entry.1 = call := congrArg Prod.fst heq
  refine hcalls call ?_ enterOrder hd
  rw [← hcall]
  exact List.mem_map_of_mem hentry

theorem enterCall_symbolIn {symbols : Set Symbol} {symbol : Symbol} (h : symbol ∈ symbols)
    (sub : Submission) : SymbolIn symbols (enterCall symbol sub) := by
  intro enterOrder hd
  rw [decode_enterCall, Option.some.injEq] at hd
  rw [← hd]
  exact h

/-- Two orders that cross, in the engine. -/
theorem crossing_trades (stdHash : OrderId → Nat) :
    ∃ e, (MatchingEngine.init stdHash).submitAll crossing = .ok ([1001, 1002], e) ∧
      (MatchingEngine.init stdHash).poolSuffices crossing = true ∧
      e.published = [⟨1003, 1002, 1001, 2, 1, 10, 3⟩] := by
  have hinit := init_refines stdHash
  have hroom₀ : (MatchingEngine.init stdHash).orderPool.freeList ≠ [] := List.cons_ne_nil _ _
  obtain ⟨e₁, Q₁, hok₁, h₁⟩ := hinit.enter (s := ⟨1, .sell, 10, 5⟩) (by decide) hroom₀
    fun _ ho => absurd ho List.not_mem_nil
  have hroom₁ : e₁.orderPool.freeList ≠ [] := by
    intro hnil
    exact absurd (h₁.free_nil_iff.mp hnil) (by decide +kernel)
  obtain ⟨e₂, Q₂, hok₂, h₂⟩ := h₁.enter (s := ⟨2, .buy, 11, 3⟩) (by decide) hroom₁
    (by decide +kernel)
  refine ⟨e₂, MatchingEngine.submitAll_cons hok₁ (MatchingEngine.submitAll_cons hok₂ rfl),
    MatchingEngine.poolSuffices_cons hroom₀ hok₁
      (MatchingEngine.poolSuffices_cons hroom₁ hok₂ rfl), ?_⟩
  rw [h₂.trades]
  decide +kernel

/-- The same two orders trade whatever symbols they are for. -/
theorem any_symbols_trade (stdHash : OrderId → Nat) (a b : Symbol) :
    ∃ s, (init stdHash).handleAll
        [enterCall a ⟨1, .sell, 10, 5⟩, enterCall b ⟨2, .buy, 11, 3⟩] = .ok s ∧
      ∃ trade ∈ s.handler.matchingEngine.published, ∃ buyer seller,
        AcceptedAs s.answered trade.buyOrderId buyer ∧
        AcceptedAs s.answered trade.sellOrderId seller ∧
        buyer.symbol = b ∧ seller.symbol = a := by
  obtain ⟨e, hok, hpool, htrades⟩ := crossing_trades stdHash
  have hcalls : List.Forall₂ Carries
      [enterCall a ⟨1, .sell, 10, 5⟩, enterCall b ⟨2, .buy, 11, 3⟩] crossing :=
    .cons (enterCall_carries a _) (.cons (enterCall_carries b _) .nil)
  obtain ⟨s, hok', hengine, htold, -⟩ := handleAll_submitAll (s := init stdHash) hcalls hok hpool
  refine ⟨s, hok', ⟨1003, 1002, 1001, 2, 1, 10, 3⟩, ?_, _, _,
    ⟨enterCall b ⟨2, .buy, 11, 3⟩, ?_, decode_enterCall b _⟩,
    ⟨enterCall a ⟨1, .sell, 10, 5⟩, ?_, decode_enterCall a _⟩, rfl, rfl⟩
  · rw [hengine, htrades]
    exact List.mem_singleton.mpr rfl
  · rw [htold]
    exact List.mem_cons_of_mem _ List.mem_cons_self
  · rw [htold]
    exact List.mem_cons_self

/-- Trades are between orders of one symbol in every run if and only if no two symbols are
in use. -/
theorem like_symbols_iff (stdHash : OrderId → Nat) (symbols : Set Symbol) :
    (∀ calls, (∀ call ∈ calls, PriceInRange call ∧ SymbolIn symbols call) →
      ∀ s, (init stdHash).handleAll calls = .ok s → LikeSymbols s) ↔
        symbols.Subsingleton := by
  constructor
  · intro h a ha b hb
    obtain ⟨s, hok, trade, htrade, buyer, seller, hbuyer, hseller, rfl, rfl⟩ :=
      any_symbols_trade stdHash b a
    refine h _ (fun call hcall => ?_) s hok trade htrade buyer seller hbuyer hseller
    rcases List.mem_cons.mp hcall with rfl | hcall
    · exact ⟨(enterCall_carries _ _).inRange (by decide), enterCall_symbolIn hb _⟩
    · cases List.mem_singleton.mp hcall
      exact ⟨(enterCall_carries _ _).inRange (by decide), enterCall_symbolIn ha _⟩
  · intro h calls hcalls s hok trade htrade buyer seller hbuyer hseller
    have hsymbols : ∀ call ∈ s.answered.map Prod.fst, SymbolIn symbols call := by
      rw [handleAll_answered hok]
      exact fun call hcall => (hcalls call hcall).2
    exact h (accepted_symbol_mem hbuyer hsymbols) (accepted_symbol_mem hseller hsymbols)

/-- An order to sell one stock, and one to buy another. -/
theorem unlike_symbols_trade :
    ∃ s, (init UInt64.toNat).handleAll
        [enterCall #v[65, 65, 80, 76, 32, 32, 32, 32] ⟨1, .sell, 10, 5⟩,
          enterCall #v[77, 83, 70, 84, 32, 32, 32, 32] ⟨2, .buy, 11, 3⟩] = .ok s ∧
      ∃ trade ∈ s.handler.matchingEngine.published, ∃ buyer seller,
        AcceptedAs s.answered trade.buyOrderId buyer ∧
        AcceptedAs s.answered trade.sellOrderId seller ∧ buyer.symbol ≠ seller.symbol := by
  obtain ⟨s, hok, trade, htrade, buyer, seller, hbuyer, hseller, hb, ha⟩ :=
    any_symbols_trade UInt64.toNat #v[65, 65, 80, 76, 32, 32, 32, 32]
      #v[77, 83, 70, 84, 32, 32, 32, 32]
  refine ⟨s, hok, trade, htrade, buyer, seller, hbuyer, hseller, ?_⟩
  rw [hb, ha]
  decide

end ExchangeSession

end OpenHft
