import OpenHft.Proofs.SideLists

/-!
# What price-time priority guarantees

Facts about the reference matcher alone, by induction on the list an order
sweeps: what the sweep changes (quantities, never an order's terms), where it
stops, and what its trades look like. From these, one submission keeps the book
well formed, uncrossed and free of empty orders, and every trade is within the
limits of both its orders.
-/

namespace OpenHft

open OpenHft.Lib

/-- An order without its quantity: what it keeps for life. -/
def OrderData.terms (o : OrderData) : OrderData := { o with quantity := 0 }

theorem OrderData.terms_eq_iff {a b : OrderData} : a.terms = b.terms ↔
    a.id = b.id ∧ a.accountId = b.accountId ∧ a.side = b.side ∧ a.price = b.price := by
  cases a
  cases b
  simp [OrderData.terms]

namespace PriceTime

section Sweep

variable {incoming : OrderData} {sequence : UInt64} {l : List OrderData}

/-- The sweep leaves the incoming order's terms alone. -/
theorem sweep_incoming_terms (incoming : OrderData) (sequence : UInt64)
    (l : List OrderData) :
    (sweep incoming sequence l).incoming.terms = incoming.terms := by
  induction l generalizing incoming sequence with
  | nil => rfl
  | cons r rest ih =>
      rw [sweep]
      split
      · rfl
      · dsimp only
        split
        · exact ih _ (sequence + 1)
        · rfl

/-- What rests after a sweep are orders that rested before. -/
theorem sweep_resting_terms {o : OrderData}
    (ho : o ∈ (sweep incoming sequence l).resting) :
    ∃ x ∈ l, o.terms = x.terms := by
  induction l generalizing incoming sequence with
  | nil => exact ⟨o, ho, rfl⟩
  | cons r rest ih =>
      rw [sweep] at ho
      split at ho
      · exact ⟨o, ho, rfl⟩
      · dsimp only at ho
        split at ho
        · obtain ⟨x, hx, heq⟩ := ih ho
          exact ⟨x, List.mem_cons_of_mem r hx, heq⟩
        · rcases List.mem_cons.mp ho with rfl | ho
          · exact ⟨r, List.mem_cons_self, rfl⟩
          · exact ⟨o, List.mem_cons_of_mem r ho, rfl⟩

/-- No resting order is left empty. -/
theorem sweep_resting_pos (hpos : ∀ o ∈ l, o.quantity ≠ 0) :
    ∀ o ∈ (sweep incoming sequence l).resting, o.quantity ≠ 0 := by
  induction l generalizing incoming sequence with
  | nil => exact hpos
  | cons r rest ih =>
      rw [sweep]
      split
      · exact hpos
      · dsimp only
        split
        · exact ih fun o ho => hpos o (List.mem_cons_of_mem r ho)
        · next hleft =>
            intro o ho
            rcases List.mem_cons.mp ho with rfl | ho
            · exact fun h0 => hleft (Quantity.sub_eq_zero_iff.mp h0)
            · exact hpos o (List.mem_cons_of_mem r ho)

/-- An order with quantity left after the sweep does not cross the head of what
it left. -/
theorem sweep_stops {r : OrderData} {rest : List OrderData}
    (hq : (sweep incoming sequence l).incoming.quantity ≠ 0)
    (hr : (sweep incoming sequence l).resting = r :: rest) :
    reaches incoming.side incoming.price r.price = false := by
  induction l generalizing incoming sequence with
  | nil => cases hr
  | cons x xs ih =>
      rw [sweep] at hq hr
      split at hq
      · next hstop =>
          rw [if_pos hstop] at hr
          cases hr
          exact hstop.resolve_left hq
      · next hgo =>
          rw [if_neg hgo] at hr
          dsimp only at hq hr
          split at hq
          · next hfilled =>
              rw [if_pos hfilled] at hr
              have hrest := ih hq hr
              exact hrest
          · next hleft =>
              rcases Quantity.min_cases incoming.quantity x.quantity with
                ⟨heq, _⟩ | ⟨heq, _⟩
              · exact absurd (Quantity.sub_eq_zero_iff.mpr heq.symm) hq
              · exact absurd heq.symm hleft

/-- A trade of the sweep is with an order the incoming one reaches. -/
theorem sweep_trades {t : Trade} (ht : t ∈ (sweep incoming sequence l).trades) :
    ∃ r ∈ l, ∃ quantity seq, t = tradeOf incoming r quantity seq ∧
      reaches incoming.side incoming.price r.price = true := by
  induction l generalizing incoming sequence with
  | nil => cases ht
  | cons r rest ih =>
      rw [sweep] at ht
      split at ht
      · cases ht
      · next hgo =>
          have hreach := Bool.eq_true_of_not_eq_false (not_or.mp hgo).2
          dsimp only at ht
          split at ht
          · rcases List.mem_cons.mp ht with rfl | ht
            · exact ⟨r, List.mem_cons_self, _, _, rfl, hreach⟩
            · obtain ⟨x, hx, quantity, seq, heq, hx'⟩ := ih ht
              exact ⟨x, List.mem_cons_of_mem r hx, quantity, seq, heq, hx'⟩
          · cases List.mem_singleton.mp ht
            exact ⟨r, List.mem_cons_self, _, _, rfl, hreach⟩

/-- What is left is still in order. -/
theorem sweep_sorted (incoming : OrderData) (sequence : UInt64)
    (h : ByPriority OrderData.rank l) :
    ByPriority OrderData.rank (sweep incoming sequence l).resting := by
  induction l generalizing incoming sequence with
  | nil => exact h
  | cons r rest ih =>
      obtain ⟨hhead, htail⟩ := List.pairwise_cons.mp h
      rw [sweep]
      split
      · exact h
      · dsimp only
        split
        · exact ih _ _ htail
        · exact List.pairwise_cons.mpr ⟨hhead, htail⟩

end Sweep

/-! ## Submitting one order -/

section Submit

variable {R : Book} {s : Submission}

/-- Every order of the book has something left. -/
def Positive (R : Book) : Prop := ∀ o ∈ R.orders, o.quantity ≠ 0

/-- Every bid is below every ask. -/
def Uncrossed (R : Book) : Prop :=
  ∀ b ∈ R.resting .buy, ∀ a ∈ R.resting .sell, b.price < a.price

/-- The members of a book after a sweep: on the side swept, of what the sweep
left, and on the other side as before. -/
theorem mem_swept {side side' : Side} {sw : Sweep} {o : OrderData}
    (ho : o ∈ (R.swept side sw).resting side') :
    side' = side ∧ o ∈ sw.resting ∨ side' ≠ side ∧ o ∈ R.resting side' := by
  have ho' : o ∈ Function.update R.resting side sw.resting side' := ho
  by_cases h : side' = side
  · subst h
    rw [Function.update_self] at ho'
    exact Or.inl ⟨rfl, ho'⟩
  · rw [Function.update_of_ne h] at ho'
    exact Or.inr ⟨h, ho'⟩

/-- The members of a book after the rest of an order has gone into it. -/
theorem mem_rest {o x : OrderData} {side : Side} (hx : x ∈ (R.rest o).resting side) :
    x ∈ R.resting side ∨ x = o ∧ side = o.side ∧ o.quantity ≠ 0 := by
  rw [Book.rest] at hx
  split at hx
  · exact Or.inl hx
  · next hq =>
      have hx' : x ∈ Function.update R.resting o.side
        (insertBehind OrderData.rank o (R.resting o.side)) side := hx
      by_cases h : side = o.side
      · subst h
        rw [Function.update_self] at hx'
        rcases mem_insertBehind.mp hx' with rfl | hx'
        · exact Or.inr ⟨rfl, rfl, hq⟩
        · exact Or.inl hx'
      · rw [Function.update_of_ne h] at hx'
        exact Or.inl hx'

theorem Positive.submit (hpos : Positive R) : Positive (R.submit s) := by
  intro o ho
  obtain ⟨side, ho⟩ := Book.mem_orders.mp ho
  have hside : ∀ side, ∀ o ∈ R.resting side, o.quantity ≠ 0 := fun side o ho =>
    hpos o (Book.mem_orders.mpr ⟨side, ho⟩)
  rcases mem_rest ho with ho | ⟨rfl, _, hq⟩
  · rcases mem_swept ho with ⟨_, ho⟩ | ⟨_, ho⟩
    · exact sweep_resting_pos (hside _) o ho
    · exact hside side o ho
  · exact hq

theorem Positive.run (hpos : Positive R) (subs : List Submission) :
    Positive (R.run subs) := by
  induction subs generalizing R with
  | nil => exact hpos
  | cons s subs ih => exact ih hpos.submit

/-- An order that does not reach the head of the other side's list reaches
nothing on it. -/
theorem reaches_mono {side : Side} {price : Price} {r x : OrderData}
    (hr : r.side = side.opposite) (hx : x.side = side.opposite)
    (hle : r.rank ≤ x.rank) (h : reaches side price r.price = false) :
    reaches side price x.price = false := by
  rw [OrderData.rank, OrderData.rank, hr, hx] at hle
  cases side with
  | buy =>
      have hle' : r.price.toInt ≤ x.price.toInt := hle
      simp only [reaches, ge_iff_le, decide_eq_false_iff_not, Int64.le_iff_toInt_le]
        at h ⊢
      omega
  | sell =>
      have hle' : -r.price.toInt ≤ -x.price.toInt := hle
      simp only [reaches, decide_eq_false_iff_not, Int64.le_iff_toInt_le] at h ⊢
      omega

/-- The two sides are uncrossed seen from either of them. -/
theorem uncrossed_iff (side : Side) : Uncrossed R ↔
    ∀ o ∈ R.resting side, ∀ x ∈ R.resting side.opposite,
      reaches side o.price x.price = false := by
  cases side with
  | buy =>
      simp only [Uncrossed, reaches, ge_iff_le, decide_eq_false_iff_not, Int64.not_le,
        Side.opposite]
  | sell =>
      simp only [Uncrossed, reaches, decide_eq_false_iff_not, Int64.not_le,
        Side.opposite]
      exact ⟨fun h o ho x hx => h x hx o ho, fun h b hb a ha => h a ha b hb⟩

theorem Uncrossed.submit (hu : Uncrossed R) (hw : Ranked R) :
    Uncrossed (R.submit s) := by
  rw [uncrossed_iff s.side] at hu ⊢
  intro o ho x hx
  have hterms := OrderData.terms_eq_iff.mp (sweep_incoming_terms (R.incoming s)
    (R.sequence + 1) (R.resting s.side.opposite))
  have hx' : x ∈ (sweep (R.incoming s) (R.sequence + 1)
      (R.resting s.side.opposite)).resting := by
    rcases mem_rest hx with hx | ⟨_, hside, _⟩
    · rcases mem_swept hx with ⟨_, hx⟩ | ⟨hne, _⟩
      · exact hx
      · exact absurd rfl hne
    · rw [hterms.2.2.1] at hside
      exact absurd hside (Side.opposite_ne s.side)
  obtain ⟨y, hy, hxy⟩ := sweep_resting_terms hx'
  obtain ⟨_, _, hxside, hxprice⟩ := OrderData.terms_eq_iff.mp hxy
  rcases mem_rest ho with ho | ⟨rfl, _, hq⟩
  · rcases mem_swept ho with ⟨hside, _⟩ | ⟨_, ho⟩
    · exact absurd hside.symm (Side.opposite_ne s.side)
    · rw [hxprice]
      exact hu o ho y hy
  · obtain ⟨r, rest, hr⟩ := List.exists_cons_of_ne_nil (List.ne_nil_of_mem hx')
    have hstop := sweep_stops hq hr
    have hsorted := sweep_sorted (R.incoming s) (R.sequence + 1)
      (hw.sorted s.side.opposite)
    rw [hr] at hsorted hx'
    rw [hterms.2.2.2]
    rcases List.mem_cons.mp hx' with rfl | hx'
    · exact hstop
    · obtain ⟨z, hz, hrz⟩ := sweep_resting_terms (hr ▸ List.mem_cons_self :
        r ∈ (sweep (R.incoming s) (R.sequence + 1) (R.resting s.side.opposite)).resting)
      obtain ⟨_, _, hrside, _⟩ := OrderData.terms_eq_iff.mp hrz
      refine reaches_mono ?_ ?_ ((List.pairwise_cons.mp hsorted).1 x hx') hstop
      · rw [hrside]; exact (hw.placed _ z hz).1
      · rw [hxside]; exact (hw.placed _ y hy).1

/-! ## The limits of a trade's orders -/

/-- The trade is between a buy and a sell order of the log, at a price within
the limits of both. -/
def WithinLimits (log : List OrderData) (t : Trade) : Prop :=
  ∃ b ∈ log, ∃ a ∈ log, b.side = .buy ∧ a.side = .sell ∧
    b.id = t.buyOrderId ∧ b.accountId = t.buyAccountId ∧
    a.id = t.sellOrderId ∧ a.accountId = t.sellAccountId ∧
    t.price ≤ b.price ∧ a.price ≤ t.price

/-- Whatever the book holds or has traded goes back to the log of the orders
submitted. -/
structure Logged (log : List OrderData) (R : Book) : Prop where
  resting : ∀ o ∈ R.orders, ∃ x ∈ log, x.terms = o.terms
  trades : ∀ t ∈ R.trades, WithinLimits log t

theorem tradeOf_withinLimits {log : List OrderData} {i r x y : OrderData}
    {quantity : Quantity} {seq : UInt64} (hx : x ∈ log) (hxi : x.terms = i.terms)
    (hy : y ∈ log) (hyr : y.terms = r.terms) (hside : r.side = i.side.opposite)
    (hreach : reaches i.side i.price r.price = true) :
    WithinLimits log (tradeOf i r quantity seq) := by
  obtain ⟨hxid, hxacc, hxside, hxprice⟩ := OrderData.terms_eq_iff.mp hxi
  obtain ⟨hyid, hyacc, hyside, hyprice⟩ := OrderData.terms_eq_iff.mp hyr
  cases hi : i.side with
  | buy =>
      rw [hi] at hside hreach
      simp only [reaches, ge_iff_le, decide_eq_true_eq] at hreach
      refine ⟨x, hx, y, hy, hxside.trans hi, hyside.trans hside, ?_⟩
      simp only [tradeOf, hi, hxid, hxacc, hyid, hyacc, hxprice, hyprice]
      exact ⟨trivial, trivial, trivial, trivial, hreach, Int64.le_refl _⟩
  | sell =>
      rw [hi] at hside hreach
      simp only [reaches, decide_eq_true_eq] at hreach
      refine ⟨y, hy, x, hx, hyside.trans hside, hxside.trans hi, ?_⟩
      simp only [tradeOf, hi, hxid, hxacc, hyid, hyacc, hxprice, hyprice]
      exact ⟨trivial, trivial, trivial, trivial, Int64.le_refl _, hreach⟩

theorem WithinLimits.mono {log log' : List OrderData} {t : Trade}
    (hsub : ∀ o ∈ log, o ∈ log') (h : WithinLimits log t) : WithinLimits log' t := by
  obtain ⟨b, hb, a, ha, hrest⟩ := h
  exact ⟨b, hsub b hb, a, hsub a ha, hrest⟩

theorem Logged.submit {log : List OrderData} (h : Logged log R) (hw : Ranked R) :
    Logged (log ++ [R.incoming s]) (R.submit s) := by
  have hold : ∀ o ∈ log, o ∈ log ++ [R.incoming s] := fun o ho =>
    List.mem_append_left _ ho
  have hnew : R.incoming s ∈ log ++ [R.incoming s] := by simp
  have hback : ∀ side, ∀ o ∈ R.resting side, ∃ x ∈ log ++ [R.incoming s],
      x.terms = o.terms := by
    intro side o ho
    obtain ⟨x, hx, heq⟩ := h.resting o (Book.mem_orders.mpr ⟨side, ho⟩)
    exact ⟨x, hold x hx, heq⟩
  refine ⟨fun o ho => ?_, fun t ht => ?_⟩
  · obtain ⟨side, ho⟩ := Book.mem_orders.mp ho
    rcases mem_rest ho with ho | ⟨rfl, _, _⟩
    · rcases mem_swept ho with ⟨_, ho⟩ | ⟨_, ho⟩
      · obtain ⟨y, hy, hoy⟩ := sweep_resting_terms ho
        rw [hoy]
        exact hback _ y hy
      · exact hback side o ho
    · exact ⟨_, hnew, (sweep_incoming_terms _ _ _).symm⟩
  · have ht' : t ∈ R.trades ++ (sweep (R.incoming s) (R.sequence + 1)
        (R.resting s.side.opposite)).trades := by
      rw [Book.submit, Book.rest] at ht
      split at ht
      · exact ht
      · exact ht
    rcases List.mem_append.mp ht' with ht' | ht'
    · exact (h.trades t ht').mono hold
    · obtain ⟨r, hr, quantity, seq, rfl, hreach⟩ := sweep_trades ht'
      obtain ⟨y, hy, hyr⟩ := hback _ r hr
      exact tradeOf_withinLimits hnew rfl hy hyr (hw.placed _ r hr).1 hreach

/-- What holds of a reference book along every run, with the log of the orders
submitted. -/
structure Sound (log : List OrderData) (R : Book) : Prop where
  positive : Positive R
  uncrossed : Uncrossed R
  logged : Logged log R

theorem Sound.empty : Sound [] .empty where
  positive := fun _ h => absurd h List.not_mem_nil
  uncrossed := fun _ h => absurd h List.not_mem_nil
  logged := ⟨fun _ h => absurd h List.not_mem_nil, fun _ h => absurd h List.not_mem_nil⟩

theorem Sound.submit {log : List OrderData} (h : Sound log R) (hw : Ranked R) :
    Sound (log ++ [R.incoming s]) (R.submit s) :=
  ⟨h.positive.submit, h.uncrossed.submit hw, h.logged.submit hw⟩

theorem Sound.mono {log : List OrderData} (h : Sound log R) (o : OrderData) :
    Sound (log ++ [o]) R := by
  have hold : ∀ x ∈ log, x ∈ log ++ [o] := fun x hx => List.mem_append_left _ hx
  refine ⟨h.positive, h.uncrossed, fun x hx => ?_, fun t ht => ?_⟩
  · obtain ⟨y, hy, heq⟩ := h.logged.resting x hx
    exact ⟨y, hold y hy, heq⟩
  · exact (h.logged.trades t ht).mono hold

end Submit

end PriceTime

end OpenHft
