import OpenHft.Proofs.BookRun

/-!
# The best prices

`SideRight b side` is what a reader of one side of the book relies on: the
bitmap marks the levels that hold orders, `bestBid` or `bestAsk` is the best of
them, and the search through the bitmap agrees with the scan over the levels
that it replaced. Each part is read off the invariant, and so it holds in every
book a run of admissible calls can reach.
-/

namespace OpenHft

open OpenHft.Lib

namespace ArrayOrderBook

/-- The level of this side with this index is in the array and holds an
order. -/
def levelActive (b : ArrayOrderBook) (side : Side) (i : Nat) : Bool :=
  if h : i < maxPriceLevels then !(b.levels ⟨side, ⟨i, h⟩⟩).empty else false

/-- The loop of `refreshBestBid` before the bitmap: from a price index
downwards, until a level is not empty. -/
def scanBestBid (b : ArrayOrderBook) : Nat → Price
  | 0 => 0
  | i + 1 =>
      if b.levelActive .buy (i + 1) then Int64.ofNat (i + 1) else b.scanBestBid i

/-- The same loop upwards, for `refreshBestAsk`; `left` levels remain from
index `i` on. -/
def scanBestAsk (b : ArrayOrderBook) : (left i : Nat) → Price
  | 0, _ => 0
  | left + 1, i =>
      if b.levelActive .sell i then Int64.ofNat i else b.scanBestAsk left (i + 1)

/-- The level scan, from a price that no level of the side is better than. -/
def scanBest (b : ArrayOrderBook) : Side → Price → Price
  | .buy, start => b.scanBestBid (priceToIndex start)
  | .sell, start =>
      b.scanBestAsk (maxPriceLevels - priceToIndex start) (priceToIndex start)

end ArrayOrderBook

/-- What a side of the book claims about its levels is true. -/
structure SideRight (b : ArrayOrderBook) (side : Side) : Prop where
  /-- a bit is set exactly for a level that holds an order -/
  bits : ∀ i, bitAt (b.bitmap side) i = b.levelActive side i
  /-- no best level, exactly when no order is linked on this side -/
  null : b.bestLevel side = .ok none ↔
    ∀ p lv, (b.orders p).level = some lv → lv.side ≠ side
  /-- otherwise the best level is the best of those that hold orders -/
  best : b.bestLevel side = .ok none ∨
    ∃ lv, b.bestLevel side = .ok (some lv) ∧ lv.side = side ∧
      b.levelActive side lv.index = true ∧
      priceToIndex (b.levels lv).price = lv.index ∧
      ∀ i, b.levelActive side i = true → noWorse side lv.index i
  /-- the scan over the levels finds the cached best price, from wherever no
  level that holds orders is passed over -/
  scan : ∀ start, ValidPrice start →
    (∀ i, b.levelActive side i = true → noWorse side (priceToIndex start) i) →
    b.scanBest side start = b.best side

namespace BookInv

variable {b : ArrayOrderBook} {Q : Queues} {side : Side}

theorem levelActive_eq (hb : BookInv b Q) (side : Side) (i : Nat) :
    bitAt (b.bitmap side) i = b.levelActive side i := by
  rw [Bool.eq_iff_iff, hb.bits, ArrayOrderBook.levelActive]
  split
  · next h =>
      rw [Bool.not_eq_true', ← Bool.not_eq_true, (hb.queue _).empty_iff]
      exact ⟨fun ⟨_, hne⟩ => hne, fun hne => ⟨h, hne⟩⟩
  · next h => exact ⟨fun ⟨hlt, _⟩ => absurd hlt h, fun e => absurd e (by simp)⟩

/-- The cached best price, in terms of the levels. -/
theorem isBest_levels (hb : BookInv b Q) (side : Side) :
    IsBest side (b.levelActive side) (b.best side) :=
  (hb.best side).congr fun i => (hb.levelActive_eq side i).symm

theorem bestLevel_null (h : b.best side = 0) :
    b.bestLevel side = .ok none := by rw [ArrayOrderBook.bestLevel, if_pos h]

theorem bestLevel_some (hb : BookInv b Q) (h : b.best side ≠ 0) :
    ∃ hv : ValidPrice (b.best side),
      b.bestLevel side = .ok (some (levelAt side (b.best side) hv)) ∧
      Q (levelAt side (b.best side) hv) ≠ [] := by
  have hv := (hb.best_zero_or_valid side).resolve_left h
  refine ⟨hv, ?_, ?_⟩
  · rw [ArrayOrderBook.bestLevel, if_neg h, dif_pos hv.index_lt]
    rfl
  · rcases hb.best side with ⟨h0, _⟩ | ⟨_, hbit, _⟩
    · exact absurd h0 h
    · exact ((hb.bits side _).mp hbit).2

end BookInv

/-! ## The scan over the levels -/

namespace ArrayOrderBook

variable {b : ArrayOrderBook}

theorem levelActive_lt {side : Side} {i : Nat} (h : b.levelActive side i = true) :
    i < maxPriceLevels := by
  rw [levelActive] at h
  split at h
  · next hlt => exact hlt
  · cases h

/-- A level that holds orders and is as good as any other is the best price. -/
theorem isBest_of_active {side : Side} {i : Nat} (hi : 0 < i)
    (hact : b.levelActive side i = true)
    (hall : ∀ j, b.levelActive side j = true → noWorse side i j) :
    IsBest side (b.levelActive side) (Int64.ofNat i) := by
  have hlt := levelActive_lt hact
  have hidx : priceToIndex (Int64.ofNat i) = i :=
    priceToIndex_ofNat (by rw [maxPriceLevels] at hlt; omega)
  refine Or.inr ⟨(validPrice_ofNat hi hlt).ne_zero, ?_, ?_⟩
  · rw [hidx]; exact hact
  · rw [hidx]; exact hall

theorem scanBestBid_isBest (hpos : ∀ i, b.levelActive .buy i = true → 0 < i)
    (n : Nat) (hle : ∀ i, b.levelActive .buy i = true → i ≤ n) :
    IsBest .buy (b.levelActive .buy) (b.scanBestBid n) := by
  induction n with
  | zero =>
      refine Or.inl ⟨rfl, fun i => ?_⟩
      cases hi : b.levelActive .buy i with
      | false => rfl
      | true =>
          have := hpos i hi
          have := hle i hi
          omega
  | succ n ih =>
      rw [scanBestBid]
      split
      · next hact => exact isBest_of_active (Nat.succ_pos n) hact hle
      · next hact =>
          refine ih fun i hi => ?_
          have hne : i ≠ n + 1 := by
            rintro rfl
            exact hact hi
          have := hle i hi
          omega

theorem scanBestAsk_isBest (hpos : ∀ i, b.levelActive .sell i = true → 0 < i)
    (left : Nat) : ∀ i, i + left = maxPriceLevels →
      (∀ j, b.levelActive .sell j = true → i ≤ j) →
      IsBest .sell (b.levelActive .sell) (b.scanBestAsk left i) := by
  induction left with
  | zero =>
      intro i hi hle
      refine Or.inl ⟨rfl, fun j => ?_⟩
      cases hj : b.levelActive .sell j with
      | false => rfl
      | true =>
          have := levelActive_lt hj
          have := hle j hj
          omega
  | succ left ih =>
      intro i hi hle
      rw [scanBestAsk]
      split
      · next hact => exact isBest_of_active (hpos i hact) hact hle
      · next hact =>
          refine ih (i + 1) (by omega) fun j hj => ?_
          have hne : j ≠ i := by
            rintro rfl
            exact hact hj
          have := hle j hj
          omega

end ArrayOrderBook

/-! ## Every reachable book -/

theorem BookInv.sideRight {b : ArrayOrderBook} {Q : Queues} (hb : BookInv b Q)
    (side : Side) : SideRight b side := by
  have hpos : ∀ i, b.levelActive side i = true → 0 < i := by
    intro i hi
    rw [← hb.levelActive_eq] at hi
    exact (ArrayOrderBook.bit_range hb side i hi).1
  refine ⟨hb.levelActive_eq side, ⟨?_, ?_⟩, ?_, ?_⟩
  · intro hnull p lv hlv hside
    have hmem := hb.linked p lv hlv
    by_cases h0 : b.best side = 0
    · have hbit : bitAt (b.bitmap side) lv.index.val = true :=
        (hb.bits side _).mpr ⟨lv.index.isLt, by
          rw [← hside]; exact List.ne_nil_of_mem hmem⟩
      rcases hb.best side with ⟨_, hnone⟩ | ⟨hne, _⟩
      · rw [hnone] at hbit; cases hbit
      · exact hne h0
    · obtain ⟨hv, hsome, _⟩ := hb.bestLevel_some h0
      rw [hsome] at hnull
      cases hnull
  · intro hnone
    by_cases h0 : b.best side = 0
    · exact BookInv.bestLevel_null h0
    · obtain ⟨hv, _, hne⟩ := hb.bestLevel_some h0
      obtain ⟨p, hp⟩ := List.exists_mem_of_ne_nil _ hne
      exact absurd rfl (hnone p _ ((hb.queue _).level p hp))
  · by_cases h0 : b.best side = 0
    · exact Or.inl (BookInv.bestLevel_null h0)
    · obtain ⟨hv, hsome, hne⟩ := hb.bestLevel_some h0
      obtain ⟨_, hact, hall⟩ := (hb.isBest_levels side).resolve_left fun h => h0 h.1
      exact Or.inr ⟨_, hsome, rfl, hact, hb.price _ hne, hall⟩
  · intro start hv hall
    refine IsBest.unique ?_ (hb.isBest_levels side)
    cases side with
    | buy => exact ArrayOrderBook.scanBestBid_isBest hpos _ hall
    | sell =>
        refine ArrayOrderBook.scanBestAsk_isBest hpos _ _ ?_ hall
        have := hv.index_lt
        omega

/-- In every book a run of admissible calls reaches from the empty one, the
bitmaps mark the levels that hold orders, the best levels are the best of
those, and the bitmap search agrees with the level scan. -/
theorem runOps_best_prices (stdHash : OrderId → Nat) (orders : Heap)
    (hun : ∀ p, (orders p).level = none) (ops : List BookOp)
    (hadm : admissibleRun (.init stdHash orders) ops = true) :
    ∃ b, runOps (.init stdHash orders) ops = .ok b ∧
      SideRight b .buy ∧ SideRight b .sell := by
  obtain ⟨b, Q, hok, hb⟩ := runOps_inv (init_inv stdHash hun) hadm
  exact ⟨b, hok, hb.sideRight .buy, hb.sideRight .sell⟩

/-- Two bids 64 prices apart, the better one cancelled, and an ask moved. -/
theorem runOps_best_prices_two_bids :
    ∃ b, runOps (.init UInt64.toNat fun _ => default)
        [.add 0 ⟨1, 7, .buy, 100, 10⟩, .add 1 ⟨2, 7, .buy, 164, 5⟩,
          .add 2 ⟨3, 8, .sell, 170, 5⟩, .cancel 2, .replace 3 4 6 169] = .ok b ∧
      SideRight b .buy ∧ SideRight b .sell :=
  runOps_best_prices UInt64.toNat (fun _ => default) (fun _ => rfl) _
    (by decide +kernel)

end OpenHft
