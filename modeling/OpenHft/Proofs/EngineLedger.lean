import OpenHft.Proofs.EngineWrap

/-!
# Nothing is lost between submission and trade

The ledger of the reference matcher, carried over to runs of the engine with orders of
any quantity: what an order came with is what its trades moved and what still rests of
it. An id identifies an order as long as the sequencer does not give it out again, and
that much must be asked of a run (`idsNew`), even of ids whose orders are long gone:
once the counter has gone round, two orders can be in the book under one id
(`wrapped_run_rests_twice`). Runs of fewer than 2⁶³ - 500 calls are free of it.
-/

namespace OpenHft

open OpenHft.Lib PriceTime

namespace MatchingEngine

/-- No call of the run is given an id that an earlier call was given. -/
def idsNew (e : MatchingEngine) (given : List OrderId) : List Submission → Bool
  | [] => true
  | s :: subs =>
      (decide (e.orderPool.available = 0) || !given.contains (e.sequence + 1)) &&
        match e.submitOrder s.accountId s.side s.price s.quantity with
        | .ok (_, e') =>
            e'.idsNew (if e.orderPool.available = 0 then given
              else (e.sequence + 1) :: given) subs
        | .error _ => true

end MatchingEngine

namespace Refines

variable {e : MatchingEngine} {Q : Queues} {R : Book} {s : Submission}
  {log : List OrderData} {given : List OrderId}

/-- An id that no call was given is not in the index. -/
theorem fresh_of_new (h : Refines e Q [] R) (hlog : Ledger log R)
    (hgiven : ∀ id ∈ log.map OrderData.id, id ∈ given)
    (hnew : (decide (e.orderPool.available = 0) || !given.contains (e.sequence + 1)) = true) :
    (decide (e.orderPool.available = 0) ||
      !e.book.orderIndex.contains (e.sequence + 1)) = true := by
  rw [Bool.or_eq_true, decide_eq_true_eq] at hnew ⊢
  refine hnew.imp id fun hnot => ?_
  rw [Bool.not_eq_true', List.contains_eq_mem, decide_eq_false_iff_not, h.sequence] at hnot
  rw [Bool.not_eq_true', h.contains_eq_false_iff]
  intro o ho heq
  exact hnot (heq ▸ hgiven _ (hlog.resting o ho))

/-- The ids given once the call is made. -/
def givenAfter (e : MatchingEngine) (given : List OrderId) : List OrderId :=
  if e.orderPool.available = 0 then given else (e.sequence + 1) :: given

/-- One call: the order is logged under the id it returns, or refused with id 0. -/
theorem enterLogged (h : Refines e Q [] R) (hlog : Ledger log R)
    (hgiven : ∀ id ∈ log.map OrderData.id, id ∈ given) (hprice : ValidPrice s.price)
    (hnew : (decide (e.orderPool.available = 0) || !given.contains (e.sequence + 1)) = true) :
    ∃ id e' Q' log', e.submitOrder s.accountId s.side s.price s.quantity = .ok (id, e') ∧
      Refines e' Q' [] (R.enterWithin defaultOrderCapacity s) ∧
      Ledger log' (R.enterWithin defaultOrderCapacity s) ∧ (∀ o ∈ log, o ∈ log') ∧
      (id ≠ 0 → s.order id ∈ log') ∧
      ∀ id ∈ log'.map OrderData.id, id ∈ givenAfter e given := by
  obtain ⟨id, e', Q', hok, h', hroom, hfull⟩ :=
    h.enterWithin hprice (h.fresh_of_new hlog hgiven hnew)
  by_cases hnone : e.orderPool.available = 0
  · obtain ⟨rfl, rfl⟩ := hfull hnone
    have hstep : R.enterWithin defaultOrderCapacity s = R :=
      if_pos (h.available_eq_zero_iff.mp hnone)
    refine ⟨0, e', Q', log, hok, h', ?_, fun o ho => ho, fun hne => absurd rfl hne, ?_⟩
    · rw [hstep]
      exact hlog
    · rw [givenAfter, if_pos hnone]
      exact hgiven
  · have hstep : R.enterWithin defaultOrderCapacity s = R.enter s :=
      if_neg fun hlen => hnone (h.available_eq_zero_iff.mpr hlen)
    have hid : id = R.sequence + 1 := hroom hnone
    rw [decide_eq_false hnone, Bool.false_or, Bool.not_eq_true', List.contains_eq_mem,
      decide_eq_false_iff_not, h.sequence] at hnew
    refine ⟨id, e', Q', log ++ [R.incoming s], hok, h', ?_,
      fun o ho => List.mem_append_left _ ho, fun _ => ?_, fun i hi => ?_⟩
    · rw [hstep]
      exact hlog.taken (enter_taken R s) fun hmem => hnew (hgiven _ hmem)
    · rw [hid]
      exact List.mem_append_right _ (List.mem_singleton.mpr rfl)
    · rw [givenAfter, if_neg hnone]
      rw [List.map_append, List.mem_append] at hi
      rcases hi with hi | hi
      · exact List.mem_cons_of_mem _ (hgiven i hi)
      · rw [List.mem_singleton.mp hi, h.sequence]
        exact List.mem_cons_self

/-- A whole run, with the log of the orders it has taken. -/
theorem enterAll {subs : List Submission} (h : Refines e Q [] R) (hlog : Ledger log R)
    (hgiven : ∀ id ∈ log.map OrderData.id, id ∈ given)
    (hprices : ∀ s ∈ subs, ValidPrice s.price) (hnew : e.idsNew given subs = true) :
    ∃ ids e' Q' log', e.submitAll subs = .ok (ids, e') ∧
      Refines e' Q' [] (R.enterAllWithin defaultOrderCapacity subs) ∧
      Ledger log' (R.enterAllWithin defaultOrderCapacity subs) ∧
      (∀ o ∈ log, o ∈ log') ∧
      ∀ o ∈ submittedOrders ids subs, o.id ≠ 0 → o ∈ log' := by
  induction subs generalizing e Q R log given with
  | nil =>
      exact ⟨[], e, Q, log, rfl, h, hlog, fun o ho => ho,
        fun o ho => absurd ho List.not_mem_nil⟩
  | cons s subs ih =>
      rw [MatchingEngine.idsNew, Bool.and_eq_true] at hnew
      obtain ⟨hnew, hnew'⟩ := hnew
      obtain ⟨id, e₁, Q₁, log₁, hok, h₁, hlog₁, hsub₁, hlogged, hgiven₁⟩ :=
        h.enterLogged hlog hgiven (hprices s List.mem_cons_self) hnew
      rw [hok] at hnew'
      obtain ⟨ids, e', Q', log', hok', h', hlog', hsub, hall⟩ := ih h₁ hlog₁ hgiven₁
        (fun x hx => hprices x (List.mem_cons_of_mem s hx)) hnew'
      refine ⟨id :: ids, e', Q', log', MatchingEngine.submitAll_cons hok hok', h', hlog',
        fun o ho => hsub o (hsub₁ o ho), fun o ho hne => ?_⟩
      rw [submittedOrders, List.zipWith_cons_cons, List.mem_cons] at ho
      rcases ho with rfl | ho
      · exact hsub _ (hlogged hne)
      · exact hall o ho hne

end Refines

/-! ## Short runs -/

namespace Refines

variable {e : MatchingEngine} {Q : Queues} {R : Book}

theorem idsNew_of_numbered {subs : List Submission} {given : List OrderId} {n : Nat}
    (h : Refines e Q [] R) (hnumbered : Numbered R n)
    (hgiven : ∀ id ∈ given, id.toNat ≤ R.sequence.toNat)
    (hprices : ∀ s ∈ subs, ValidPrice s.price)
    (hn : 1000 + 2 * (n + subs.length) < 2 ^ 64) : e.idsNew given subs = true := by
  induction subs generalizing e Q R given n with
  | nil => rfl
  | cons s subs ih =>
      rw [List.length_cons] at hn
      have hdrawn := hnumbered.drawn
      have hsucc : (R.sequence + 1).toNat = R.sequence.toNat + 1 := toNat_succ (by omega)
      have hnot : given.contains (e.sequence + 1) = false := by
        rw [List.contains_eq_mem, decide_eq_false_iff_not, h.sequence]
        intro hmem
        have := hgiven _ hmem
        omega
      obtain ⟨id, e₁, Q₁, hok, h₁, -, hfull⟩ := h.enterWithin
        (hprices s List.mem_cons_self) (h.fresh_of_numbered hnumbered (by omega))
      have hprices' : ∀ x ∈ subs, ValidPrice x.price := fun x hx =>
        hprices x (List.mem_cons_of_mem s hx)
      rw [MatchingEngine.idsNew, hnot, hok, Bool.not_false, Bool.or_true, Bool.true_and]
      by_cases hnone : e.orderPool.available = 0
      · obtain ⟨-, rfl⟩ := hfull hnone
        simp only [if_pos hnone]
        exact ih h hnumbered hgiven hprices' (by omega)
      · simp only [if_neg hnone]
        rw [Book.enterWithin, if_neg fun hlen => hnone (h.available_eq_zero_iff.mpr hlen)] at h₁
        obtain ⟨-, hmono⟩ := (enter_taken R s).drawn_le (by omega)
        refine ih h₁ (hnumbered.taken (enter_taken R s) (by omega)) (fun id hid => ?_)
          hprices' (by omega)
        rcases List.mem_cons.mp hid with rfl | hid
        · rw [h.sequence, hsucc]
          exact hmono
        · have := hgiven id hid
          omega

end Refines

/-- Every run short enough for the counter gives out no id twice. -/
theorem idsNew_of_length (stdHash : OrderId → Nat) (subs : List Submission)
    (hprices : ∀ s ∈ subs, ValidPrice s.price) (hlen : subs.length < 2 ^ 63 - 500) :
    (MatchingEngine.init stdHash).idsNew [] subs = true :=
  (init_refines stdHash).idsNew_of_numbered Numbered.empty
    (fun _ hid => absurd hid List.not_mem_nil) hprices (by omega)

/-! ## Whole runs -/

/-- Conservation: after every run, the quantity an order came with is what the trades
naming it have moved and what still rests of it, and no id rests twice. -/
theorem submitAll_conserves (stdHash : OrderId → Nat) (subs : List Submission)
    (hprices : ∀ s ∈ subs, ValidPrice s.price)
    (hids : (MatchingEngine.init stdHash).idsNew [] subs = true) :
    ∃ ids e, (MatchingEngine.init stdHash).submitAll subs = .ok (ids, e) ∧
      (∀ o ∈ submittedOrders ids subs, o.id ≠ 0 →
        o.quantity.toNat =
          tradedUnder o.id e.published + restingUnder o.id e.restingOrders) ∧
      (e.restingOrders.map OrderData.id).Nodup := by
  obtain ⟨ids, e, Q, log, hok, h, hlog, -, hall⟩ :=
    (init_refines stdHash).enterAll Ledger.empty (fun _ hid => hid) hprices hids
  refine ⟨ids, e, hok, fun o ho hne => ?_, ?_⟩
  · rw [h.trades, restingUnder_perm h.restingOrders_perm]
    exact hlog.balance o (hall o ho hne)
  · rw [(h.restingOrders_perm.map OrderData.id).nodup_iff]
    exact h.ranked.unique

/-- An order without quantity that rests, one that trades nothing with it and then rests
as well although it crosses the next, and one that fills two. -/
theorem submitAll_conserves_empty_order :
    ∃ ids e, (MatchingEngine.init UInt64.toNat).submitAll
        [⟨1, .sell, 10, 0⟩, ⟨2, .sell, 11, 5⟩, ⟨3, .buy, 12, 7⟩, ⟨4, .sell, 9, 9⟩] =
          .ok (ids, e) ∧
      (∀ o ∈ submittedOrders ids
          [⟨1, .sell, 10, 0⟩, ⟨2, .sell, 11, 5⟩, ⟨3, .buy, 12, 7⟩, ⟨4, .sell, 9, 9⟩],
        o.id ≠ 0 → o.quantity.toNat =
          tradedUnder o.id e.published + restingUnder o.id e.restingOrders) ∧
      (e.restingOrders.map OrderData.id).Nodup :=
  submitAll_conserves UInt64.toNat _ (by decide)
    (idsNew_of_length UInt64.toNat _ (by decide) (by decide))

/-- Once the sequencer has gone round, two orders can be in the book under one id. -/
theorem wrapped_run_rests_twice :
    (∀ s ∈ Wrap.shortRun, ValidPrice s.price) ∧
      ∀ stdHash, ∃ ids e,
        (MatchingEngine.init stdHash).submitAll Wrap.shortRun = .ok (ids, e) ∧
        ¬ (e.restingOrders.map OrderData.id).Nodup := by
  refine ⟨Wrap.shortRun_valid, fun stdHash => ?_⟩
  obtain ⟨ids, e, hok, x, p, h⟩ := Wrap.shortRun_namesakes stdHash
  refine ⟨_, e, hok, fun hnodup => h.ne ?_⟩
  rw [MatchingEngine.restingOrders, List.map_map] at hnodup
  refine List.inj_on_of_nodup_map hnodup ?_ ?_ (h.first.2.2.trans h.second.2.2.symm)
  · exact List.mem_filter.mpr ⟨List.mem_range.mpr h.first.1, h.first.2.1⟩
  · exact List.mem_filter.mpr ⟨List.mem_range.mpr h.second.1, h.second.2.1⟩

end OpenHft
