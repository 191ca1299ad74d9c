import Mathlib.Algebra.BigOperators.Group.List.Basic
import OpenHft.Proofs.Reference

/-!
# What an account has at stake

An account's exposure is what it has bought less what it has sold, with every order it
still has in the book counted as if it were filled. A trade moves quantity from two
orders of the book into the two positions and leaves both exposures alone, so the only
thing that changes an exposure is a submission, by the signed quantity of the order
submitted. This is a fact about the reference matcher; the trades of a sweep are followed
by induction on the list it goes through.
-/

namespace OpenHft

open OpenHft.Lib

/-- What filling the order would move the account's position by. -/
def OrderData.signedFor (account : AccountId) (o : OrderData) : Int :=
  if o.accountId = account then signedQuantity o.side o.quantity else 0

/-- What the trade moves the account's position by. -/
def Trade.signedFor (account : AccountId) (t : Trade) : Int :=
  (if t.buyAccountId = account then signedQuantity .buy t.quantity else 0) +
    if t.sellAccountId = account then signedQuantity .sell t.quantity else 0

namespace PriceTime

variable {account : AccountId} {R : Book} {s : Submission}

/-- What the account has bought less what it has sold. -/
def executed (account : AccountId) (trades : List Trade) : Int :=
  (trades.map (Trade.signedFor account)).sum

/-- What the account's orders would move its position by. -/
def pending (account : AccountId) (orders : List OrderData) : Int :=
  (orders.map (OrderData.signedFor account)).sum

/-- An account's position with its resting orders counted as filled. -/
def exposure (account : AccountId) (R : Book) : Int :=
  executed account R.trades + pending account R.orders

@[simp] theorem executed_nil : executed account [] = 0 := rfl

@[simp] theorem executed_cons (t : Trade) (trades : List Trade) :
    executed account (t :: trades) = t.signedFor account + executed account trades := by
  simp [executed]

@[simp] theorem executed_append (trades trades' : List Trade) :
    executed account (trades ++ trades') =
      executed account trades + executed account trades' := by
  simp [executed]

@[simp] theorem pending_nil : pending account [] = 0 := rfl

@[simp] theorem pending_cons (o : OrderData) (orders : List OrderData) :
    pending account (o :: orders) = o.signedFor account + pending account orders := by
  simp [pending]

@[simp] theorem pending_append (orders orders' : List OrderData) :
    pending account (orders ++ orders') =
      pending account orders + pending account orders' := by
  simp [pending]

theorem pending_perm {orders orders' : List OrderData} (h : orders.Perm orders') :
    pending account orders = pending account orders' :=
  (h.map _).sum_eq

theorem signedFor_zero {o : OrderData} (h : o.quantity = 0) : o.signedFor account = 0 := by
  cases hside : o.side <;> simp [OrderData.signedFor, signedQuantity, hside, h]

theorem signedQuantity_sub (side : Side) {a b : Quantity} (h : b ≤ a) :
    signedQuantity side (a - b) = signedQuantity side a - signedQuantity side b := by
  have hle := UInt32.le_iff_toNat_le.mp h
  cases side with
  | buy =>
      simp only [signedQuantity, UInt32.toNat_sub_of_le a b h]
      omega
  | sell =>
      simp only [signedQuantity, UInt32.toNat_sub_of_le a b h]
      omega

theorem signedFor_lower (account : AccountId) (o : OrderData) {quantity : Quantity}
    (h : quantity ≤ o.quantity) :
    ({ o with quantity := o.quantity - quantity } : OrderData).signedFor account =
      o.signedFor account -
        if o.accountId = account then signedQuantity o.side quantity else 0 := by
  by_cases ha : o.accountId = account
  · simp [OrderData.signedFor, ha, signedQuantity_sub o.side h]
  · simp [OrderData.signedFor, ha]

/-- A trade takes from the two orders what it gives to the two positions. -/
theorem tradeOf_signedFor (account : AccountId) {incoming resting : OrderData}
    (quantity : Quantity) (sequence : UInt64) (hside : resting.side = incoming.side.opposite) :
    (tradeOf incoming resting quantity sequence).signedFor account =
      (if incoming.accountId = account then signedQuantity incoming.side quantity else 0) +
        if resting.accountId = account then signedQuantity resting.side quantity else 0 := by
  cases hi : incoming.side with
  | buy => simp [tradeOf, hi, Trade.signedFor, hside, Side.opposite]
  | sell => simp [tradeOf, hi, Trade.signedFor, hside, Side.opposite, Int.add_comm]

theorem sweep_exposure (account : AccountId) (incoming : OrderData) (sequence : UInt64)
    (l : List OrderData)
    (hside : ∀ r ∈ l, r.side = incoming.side.opposite) :
    executed account (sweep incoming sequence l).trades +
        (sweep incoming sequence l).incoming.signedFor account +
        pending account (sweep incoming sequence l).resting =
      incoming.signedFor account + pending account l := by
  induction l generalizing incoming sequence with
  | nil => simp [sweep]
  | cons r rest ih =>
      rw [sweep]
      split
      · simp
      · obtain ⟨hi, hr⟩ := Quantity.min_le incoming.quantity r.quantity
        have hlower := signedFor_lower account incoming hi
        have htrade := tradeOf_signedFor account (min incoming.quantity r.quantity)
          (sequence + 1) (hside r List.mem_cons_self)
        dsimp only
        split
        · next hfilled =>
            have hrest := ih { incoming with
                quantity := incoming.quantity - min incoming.quantity r.quantity }
              (sequence + 1) fun x hx => hside x (List.mem_cons_of_mem r hx)
            have hsigned : r.signedFor account = if r.accountId = account then
                signedQuantity r.side (min incoming.quantity r.quantity) else 0 := by
              rw [OrderData.signedFor, ← hfilled]
            simp only [executed_cons, pending_cons]
            omega
        · have hleft := signedFor_lower account r hr
          simp only [executed_cons, executed_nil, pending_cons]
          omega

theorem pending_swept (account : AccountId) (R : Book) (side : Side) (sw : Sweep) :
    pending account (R.swept side sw).orders + pending account (R.resting side) =
      pending account R.orders + pending account sw.resting := by
  cases side <;> simp [Book.orders, Book.swept] <;> omega

theorem exposure_rest (o : OrderData) :
    exposure account (R.rest o) = exposure account R + o.signedFor account := by
  rw [Book.rest]
  split
  · next h => rw [signedFor_zero h, Int.add_zero]
  · rw [exposure, exposure, pending_perm (orders_insertBehind R o), pending_cons]
    show executed account R.trades + _ = _
    omega

/-- A submission changes the exposure of its own account, by what it asks for. -/
theorem exposure_submit (hw : Ranked R) :
    exposure account (R.submit s) =
      exposure account R + (R.incoming s).signedFor account := by
  have hsweep := sweep_exposure account (R.incoming s) (R.sequence + 1)
    (R.resting s.side.opposite) fun r hr => (hw.placed _ r hr).1
  have hswept := pending_swept account R s.side.opposite
    (sweep (R.incoming s) (R.sequence + 1) (R.resting s.side.opposite))
  rw [Book.submit, exposure_rest, exposure, exposure]
  show executed account (R.trades ++ _) + _ + _ = _
  rw [executed_append]
  omega

/-! ## Quantities only fall -/

/-- No order of the book asks for more than this. -/
def AtMost (n : Nat) (R : Book) : Prop := ∀ o ∈ R.orders, o.quantity.toNat ≤ n

theorem sweep_incoming_le (incoming : OrderData) (sequence : UInt64) (l : List OrderData) :
    (sweep incoming sequence l).incoming.quantity.toNat ≤ incoming.quantity.toNat := by
  induction l generalizing incoming sequence with
  | nil => exact Nat.le_refl _
  | cons r rest ih =>
      have hle := (Quantity.min_le incoming.quantity r.quantity).1
      have hsub : (incoming.quantity - min incoming.quantity r.quantity).toNat ≤
          incoming.quantity.toNat := by
        rw [UInt32.toNat_sub_of_le _ _ hle]
        omega
      rw [sweep]
      split
      · exact Nat.le_refl _
      · dsimp only
        split
        · exact Nat.le_trans (ih _ _) hsub
        · exact hsub

theorem sweep_resting_le {n : Nat} {incoming : OrderData} {sequence : UInt64}
    {l : List OrderData} (h : ∀ o ∈ l, o.quantity.toNat ≤ n) :
    ∀ o ∈ (sweep incoming sequence l).resting, o.quantity.toNat ≤ n := by
  induction l generalizing incoming sequence with
  | nil => exact h
  | cons r rest ih =>
      rw [sweep]
      split
      · exact h
      · dsimp only
        split
        · exact ih fun o ho => h o (List.mem_cons_of_mem r ho)
        · intro o ho
          rcases List.mem_cons.mp ho with rfl | ho
          · have hle := (Quantity.min_le incoming.quantity r.quantity).2
            have := h r List.mem_cons_self
            rw [UInt32.toNat_sub_of_le _ _ hle]
            omega
          · exact h o (List.mem_cons_of_mem r ho)

theorem AtMost.submit {n : Nat} (h : AtMost n R) (hs : s.quantity.toNat ≤ n) :
    AtMost n (R.submit s) := by
  intro o ho
  obtain ⟨side, ho⟩ := Book.mem_orders.mp ho
  have hside : ∀ side, ∀ o ∈ R.resting side, o.quantity.toNat ≤ n := fun side o ho =>
    h o (Book.mem_orders.mpr ⟨side, ho⟩)
  rcases mem_rest ho with ho | ⟨rfl, _, _⟩
  · rcases mem_swept ho with ⟨_, ho⟩ | ⟨_, ho⟩
    · exact sweep_resting_le (hside _) o ho
    · exact hside side o ho
  · exact Nat.le_trans (sweep_incoming_le _ _ _) hs

theorem pending_le (account : AccountId) {n : Nat} {orders : List OrderData}
    (h : ∀ o ∈ orders, o.quantity.toNat ≤ n) :
    (pending account orders).natAbs ≤ orders.length * n := by
  induction orders with
  | nil => simp
  | cons o orders ih =>
      have hrest := ih fun x hx => h x (List.mem_cons_of_mem o hx)
      have ho : (o.signedFor account).natAbs ≤ n := by
        have := h o List.mem_cons_self
        rw [OrderData.signedFor]
        split
        · cases o.side <;> simp only [signedQuantity] <;> omega
        · omega
      rw [pending_cons, List.length_cons, Nat.add_mul, Nat.one_mul]
      omega

end PriceTime

end OpenHft
