import Mathlib.Algebra.BigOperators.Group.Finset.Piecewise
import OpenHft.Model.Gateway
import OpenHft.Proofs.Conservation

/-!
# Executed positions

`PositionManager` adds an unsigned quantity to an `int` and stores the result as an `int`,
so what it keeps for an account is the true net modulo 2³². Nothing is lost on the way: a
position that has left the range of an `int` and come back is right again. What counts is
only whether the net itself is in the range, and as the nets of all accounts sum to zero,
so do the positions of accounts whose nets are.
-/

namespace OpenHft

open OpenHft.Lib PriceTime

namespace PositionManager

variable {account : AccountId}

theorem position_store (m : PositionManager) (accountId : AccountId) (value : Int32) :
    (m.store accountId value).position account =
      if accountId = account then value else m.position account := by
  by_cases h : accountId = account
  · subst h
    simp [position, store]
  · simp [position, store, h, Function.update_of_ne (Ne.symm h)]

theorem onTrade_position (m : PositionManager) (t : Trade) :
    (m.onTrade t).position account =
      m.position account + Int32.ofInt (t.signedFor account) := by
  rw [Trade.signedFor, Int32.ofInt_add, onTrade]
  simp only [position_store, signedQuantity]
  by_cases hbuy : t.buyAccountId = account
  · by_cases hsell : t.sellAccountId = account
    · simp [hbuy, hsell, Int32.ofInt_neg, Int32.ofInt_eq_ofNat, Int32.sub_eq_add_neg,
        Int32.add_assoc]
    · simp [hbuy, hsell, Int32.ofInt_eq_ofNat]
  · by_cases hsell : t.sellAccountId = account
    · simp [hbuy, hsell, Int32.ofInt_neg, Int32.ofInt_eq_ofNat, Int32.sub_eq_add_neg]
    · simp [hbuy, hsell]

theorem afterTrades_position (account : AccountId) (trades : List Trade) :
    (afterTrades trades).position account = Int32.ofInt (executed account trades) := by
  have hrun : ∀ m : PositionManager, (trades.foldl onTrade m).position account =
      m.position account + Int32.ofInt (executed account trades) := by
    induction trades with
    | nil => intro m; simp
    | cons t trades ih =>
        intro m
        rw [List.foldl_cons, ih, onTrade_position, executed_cons, Int32.ofInt_add,
          Int32.add_assoc]
  rw [afterTrades, hrun]
  exact Int32.zero_add _

/-- The shares that the account bought. -/
def bought (account : AccountId) (trades : List Trade) : Nat :=
  (trades.map fun t => if t.buyAccountId = account then t.quantity.toNat else 0).sum

/-- What the account has sold. -/
def sold (account : AccountId) (trades : List Trade) : Nat :=
  (trades.map fun t => if t.sellAccountId = account then t.quantity.toNat else 0).sum

theorem executed_eq (account : AccountId) (trades : List Trade) :
    executed account trades = (bought account trades : Int) - sold account trades := by
  induction trades with
  | nil => rfl
  | cons t trades ih =>
      simp only [executed_cons, ih, bought, sold, List.map_cons, List.sum_cons,
        Trade.signedFor, signedQuantity]
      split <;> split <;> omega

/-- An `int` has the net of its account if and only if the net is in the range. -/
theorem position_eq_iff (account : AccountId) (trades : List Trade) :
    ((afterTrades trades).position account).toInt = executed account trades ↔
      -2 ^ 31 ≤ executed account trades ∧ executed account trades < 2 ^ 31 := by
  rw [afterTrades_position, Int32.toInt_ofInt, Int.bmod_eq_iff (by decide)]
  simp

/-- A trade takes from one account what it gives to another. -/
theorem sum_signedFor (t : Trade) {accounts : Finset AccountId}
    (hbuy : t.buyAccountId ∈ accounts) (hsell : t.sellAccountId ∈ accounts) :
    ∑ account ∈ accounts, t.signedFor account = 0 := by
  simp only [Trade.signedFor, Finset.sum_add_distrib, Finset.sum_ite_eq, hbuy, hsell, if_true,
    signedQuantity]
  omega

theorem sum_executed {trades : List Trade} {accounts : Finset AccountId}
    (h : ∀ t ∈ trades, t.buyAccountId ∈ accounts ∧ t.sellAccountId ∈ accounts) :
    ∑ account ∈ accounts, executed account trades = 0 := by
  induction trades with
  | nil => simp
  | cons t trades ih =>
      obtain ⟨hbuy, hsell⟩ := h t List.mem_cons_self
      simp only [executed_cons, Finset.sum_add_distrib, sum_signedFor t hbuy hsell]
      rw [ih fun x hx => h x (List.mem_cons_of_mem t hx)]
      rfl

end PositionManager

open PositionManager

/-- The position of every account is what it bought less what it sold, and the positions of
all of them sum to zero, if and only if no account's net has left the range of an `int`. -/
theorem positions_exact_iff (trades : List Trade) :
    ((∀ account, ((afterTrades trades).position account).toInt =
        (bought account trades : Int) - sold account trades) ∧
      ∀ accounts : Finset AccountId,
        (∀ t ∈ trades, t.buyAccountId ∈ accounts ∧ t.sellAccountId ∈ accounts) →
          ∑ account ∈ accounts, ((afterTrades trades).position account).toInt = 0) ↔
    ∀ account, -2 ^ 31 ≤ (bought account trades : Int) - sold account trades ∧
      (bought account trades : Int) - sold account trades < 2 ^ 31 := by
  simp only [← executed_eq, ← position_eq_iff]
  refine and_iff_left_of_imp ?_
  intro hexact accounts hall
  simp only [hexact, sum_executed hall]

/-- A trade of 2³¹ shares: the buyer comes out 2³¹ short, like the seller. -/
theorem large_trade_breaks_positions :
    let trades : List Trade := [⟨1003, 1002, 1001, 1, 2, 10, 2147483648⟩]
    ((afterTrades trades).position 1).toInt = -2147483648 ∧
      (bought 1 trades : Int) - sold 1 trades = 2147483648 ∧
      ((afterTrades trades).position 1).toInt + ((afterTrades trades).position 2).toInt ≠ 0 := by
  decide

end OpenHft
