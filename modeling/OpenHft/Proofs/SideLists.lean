import OpenHft.Proofs.BestPrices
import OpenHft.Proofs.BookContent
import OpenHft.Spec.PriceTime

/-!
# One list per side, one queue per level

The reference matcher keeps each side as one list; the book keeps one queue per
level. A side's list falls apart into the levels' queues by price, and since
the list is in order of rank nothing is lost: the first order of the list is the
first order of the best level, and an order inserted behind its rank is the
last order of its level.
-/

namespace OpenHft

open OpenHft.Lib

namespace PriceTime

/-- The queues a reference book amounts to. -/
def Book.content (R : Book) : Content := fun lv =>
  (R.resting lv.side).filter fun o => priceToIndex o.price = lv.index.val

/-- What every reachable reference book satisfies: each side's list is in order
and holds orders of that side, prices are in range, no id occurs twice. -/
structure Ranked (R : Book) : Prop where
  sorted : ∀ side, ByPriority OrderData.rank (R.resting side)
  placed : ∀ side, ∀ o ∈ R.resting side, o.side = side ∧ ValidPrice o.price
  unique : (R.orders.map OrderData.id).Nodup

theorem Book.empty_ranked : Ranked .empty where
  sorted := fun _ => List.Pairwise.nil
  placed := fun _ _ h => absurd h List.not_mem_nil
  unique := List.nodup_nil

theorem Book.mem_orders {R : Book} {o : OrderData} :
    o ∈ R.orders ↔ ∃ side, o ∈ R.resting side := by
  rw [orders, List.mem_append]
  constructor
  · rintro (h | h)
    · exact ⟨_, h⟩
    · exact ⟨_, h⟩
  · rintro ⟨side, h⟩
    cases side with
    | buy => exact Or.inl h
    | sell => exact Or.inr h

/-! ## Rank and price -/

section Rank

variable {a b : OrderData} {side : Side}

theorem rank_eq_iff (ha : a.side = side) (hb : b.side = side)
    (hva : ValidPrice a.price) (hvb : ValidPrice b.price) :
    a.rank = b.rank ↔ priceToIndex a.price = priceToIndex b.price := by
  have ha' := hva.priceToIndex_toInt
  have hb' := hvb.priceToIndex_toInt
  cases side with
  | buy => rw [OrderData.rank, OrderData.rank, ha, hb]; dsimp only; omega
  | sell => rw [OrderData.rank, OrderData.rank, ha, hb]; dsimp only; omega

theorem noWorse_of_rank_le (ha : a.side = side) (hb : b.side = side)
    (hva : ValidPrice a.price) (hvb : ValidPrice b.price) (h : a.rank ≤ b.rank) :
    noWorse side (priceToIndex a.price) (priceToIndex b.price) := by
  have ha' := hva.priceToIndex_toInt
  have hb' := hvb.priceToIndex_toInt
  rw [OrderData.rank, OrderData.rank, ha, hb] at h
  cases side with
  | buy => show priceToIndex b.price ≤ priceToIndex a.price; dsimp only at h; omega
  | sell => show priceToIndex a.price ≤ priceToIndex b.price; dsimp only at h; omega

end Rank

/-! ## The content of a list -/

section Content

variable {R : Book} {side : Side} {l : List OrderData} {o r : OrderData}
  {rest : List OrderData} {lv : LevelPtr}

theorem mem_content : o ∈ R.content lv ↔
    o ∈ R.resting lv.side ∧ priceToIndex o.price = lv.index.val := by
  rw [Book.content, List.mem_filter, decide_eq_true_eq]

theorem content_fresh (hw : Ranked R) {id : OrderId} :
    R.content.Fresh id ↔ ∀ o ∈ R.orders, o.id ≠ id := by
  constructor
  · intro h o ho
    obtain ⟨side, ho⟩ := Book.mem_orders.mp ho
    have hv := (hw.placed side o ho).2
    exact h (levelAt side o.price hv) o (mem_content.mpr ⟨ho, rfl⟩)
  · intro h lv o ho
    exact h o (Book.mem_orders.mpr ⟨_, (mem_content.mp ho).1⟩)

theorem content_setSide :
    (R.setSide side l).content lv =
      if lv.side = side then l.filter fun o => priceToIndex o.price = lv.index.val
      else R.content lv := by
  show (Function.update R.resting side l lv.side).filter _ = _
  by_cases h : lv.side = side
  · subst h
    rw [if_pos rfl, Function.update_self]
  · rw [if_neg h, Function.update_of_ne h]
    rfl

/-- The first order of a side's list is the first of its level. -/
theorem content_head (h : R.resting side = r :: rest) (hv : ValidPrice r.price) :
    R.content (levelAt side r.price hv) =
      r :: rest.filter fun o => priceToIndex o.price = priceToIndex r.price := by
  show (R.resting side).filter _ = _
  rw [h, List.filter_cons_of_pos (by simp [levelAt])]
  rfl

/-- Inserting an order behind its rank appends it to its level. -/
theorem content_insertBehind (hw : Ranked R) (hv : ValidPrice o.price) :
    (R.setSide o.side
        (insertBehind OrderData.rank o (R.resting o.side))).content =
      R.content.push (levelAt o.side o.price hv) o := by
  have hrank : ∀ x ∈ R.resting o.side,
      (priceToIndex x.price = priceToIndex o.price ↔ x.rank = o.rank) := by
    intro x hx
    obtain ⟨hs, hvx⟩ := hw.placed o.side x hx
    exact (rank_eq_iff hs rfl hvx hv).symm
  funext lv
  rw [content_setSide, Content.push]
  by_cases hlv : lv = levelAt o.side o.price hv
  · subst hlv
    rw [Function.update_self, levelAt_side, if_pos rfl]
    refine (hw.sorted o.side).filter_insertBehind_self (decide_eq_true rfl) ?_
    intro x hx
    rw [decide_eq_true_eq]
    exact hrank x hx
  · rw [Function.update_of_ne hlv]
    split
    · next hside =>
        rw [filter_insertBehind_of_neg, ← hside]
        · rfl
        · rw [decide_eq_true_eq]
          exact fun hidx => hlv ((levelPtr_eq_iff lv.index.isLt).mpr ⟨hside, hidx.symm⟩)
    · rfl

/-- The other orders of a side do not have the head's id, nor do those of the
other side. -/
theorem Ranked.head_id (hw : Ranked R) (h : R.resting side = r :: rest) :
    (∀ o ∈ rest, o.id ≠ r.id) ∧ ∀ o ∈ R.resting side.opposite, o.id ≠ r.id := by
  have hu := hw.unique
  rw [Book.orders, List.map_append, List.nodup_append] at hu
  obtain ⟨hbuy, hsell, hdisj⟩ := hu
  have hother : ∀ o ∈ R.resting .buy, ∀ o' ∈ R.resting .sell, o.id ≠ o'.id :=
    fun o ho o' ho' => hdisj o.id (List.mem_map_of_mem ho) o'.id
      (List.mem_map_of_mem ho')
  have hself : r ∈ R.resting side := by rw [h]; exact List.mem_cons_self
  have hnd : ((r :: rest).map OrderData.id).Nodup := by
    rw [← h]
    cases side with
    | buy => exact hbuy
    | sell => exact hsell
  rw [List.map_cons, List.nodup_cons] at hnd
  refine ⟨fun o ho heq => hnd.1 ?_, ?_⟩
  · rw [← heq]
    exact List.mem_map_of_mem ho
  · cases side with
    | buy => exact fun o ho heq => hother r hself o ho heq.symm
    | sell => exact fun o ho heq => hother o ho r hself heq

/-- Taking the head off a side's list is removing its id from the content. -/
theorem content_tail (hw : Ranked R) (h : R.resting side = r :: rest) :
    (R.setSide side rest).content = R.content.remove r.id := by
  obtain ⟨hrest, hother⟩ := hw.head_id h
  funext lv
  rw [content_setSide, Content.remove, Book.content, List.filter_filter]
  split
  · next hside =>
      rw [hside, h, List.filter_cons_of_neg (by simp)]
      refine List.filter_congr fun o ho => ?_
      rw [decide_eq_true (hrest o ho), Bool.true_and]
  · next hside =>
      refine List.filter_congr fun o ho => ?_
      rw [Side.eq_opposite hside] at ho
      rw [decide_eq_true (hother o ho), Bool.true_and]

/-- A changed quantity of the head is a changed quantity of its id. -/
theorem content_head_quantity (hw : Ranked R) (h : R.resting side = r :: rest)
    (g : OrderData → OrderData) (hg : ∀ o, o.id ≠ r.id → g o = o)
    (hprice : (g r).price = r.price) :
    (R.setSide side (g r :: rest)).content = fun lv => (R.content lv).map g := by
  obtain ⟨hrest, hother⟩ := hw.head_id h
  have hfix : ∀ l : List OrderData, (∀ o ∈ l, o.id ≠ r.id) → ∀ p : OrderData → Bool,
      (l.filter p).map g = l.filter p := by
    intro l hl p
    rw [List.map_congr_left fun o ho => hg o (hl o (List.mem_filter.mp ho).1)]
    exact List.map_id' _
  funext lv
  rw [content_setSide, Book.content]
  split
  · next hside =>
      rw [hside, h]
      by_cases hr : priceToIndex r.price = lv.index.val
      · rw [List.filter_cons_of_pos (by simpa [hprice] using hr),
          List.filter_cons_of_pos (by simpa using hr), List.map_cons,
          hfix rest hrest]
      · rw [List.filter_cons_of_neg (by simpa [hprice] using hr),
          List.filter_cons_of_neg (by simpa using hr), hfix rest hrest]
  · next hside =>
      rw [hfix]
      rw [Side.eq_opposite hside]
      exact hother

end Content

/-! ## Keeping a reference book well formed -/

section Ranked

variable {R : Book} {side : Side} {r : OrderData} {rest : List OrderData}

theorem orders_setSide (R : Book) (side : Side) (l : List OrderData) :
    (R.setSide side l).orders =
      match side with
      | .buy => l ++ R.resting .sell
      | .sell => R.resting .buy ++ l := by
  cases side <;> simp [Book.orders, Book.setSide]

theorem Ranked.setSide (hw : Ranked R) {l : List OrderData}
    (hsorted : ByPriority OrderData.rank l)
    (hplaced : ∀ o ∈ l, o.side = side ∧ ValidPrice o.price)
    (hunique : ((R.setSide side l).orders.map OrderData.id).Nodup) :
    Ranked (R.setSide side l) := by
  refine ⟨fun s => ?_, fun s => ?_, hunique⟩
  · show ByPriority OrderData.rank (Function.update R.resting side l s)
    by_cases hs : s = side
    · subst hs
      rw [Function.update_self]
      exact hsorted
    · rw [Function.update_of_ne hs]
      exact hw.sorted s
  · show ∀ o ∈ Function.update R.resting side l s, _
    by_cases hs : s = side
    · subst hs
      rw [Function.update_self]
      exact hplaced
    · rw [Function.update_of_ne hs]
      exact hw.placed s

theorem Ranked.tail (hw : Ranked R) (h : R.resting side = r :: rest) :
    Ranked (R.setSide side rest) := by
  have hsorted := hw.sorted side
  have hplaced := hw.placed side
  rw [h] at hsorted hplaced
  refine hw.setSide (List.pairwise_cons.mp hsorted).2
    (fun o ho => hplaced o (List.mem_cons_of_mem r ho)) ?_
  refine hw.unique.sublist (List.Sublist.map _ ?_)
  rw [orders_setSide]
  cases side with
  | buy =>
      rw [Book.orders, h]
      exact (List.sublist_cons_self r rest).append_right _
  | sell =>
      rw [Book.orders, h]
      exact (List.sublist_cons_self r rest).append_left _

/-- The head may change its quantity. -/
theorem Ranked.head (hw : Ranked R) (h : R.resting side = r :: rest)
    {r' : OrderData} (hid : r'.id = r.id) (hside : r'.side = r.side)
    (hprice : r'.price = r.price) : Ranked (R.setSide side (r' :: rest)) := by
  have hsorted := hw.sorted side
  have hplaced := hw.placed side
  rw [h] at hsorted hplaced
  obtain ⟨hhead, htail⟩ := List.pairwise_cons.mp hsorted
  have hrank : r'.rank = r.rank := by rw [OrderData.rank, OrderData.rank, hside, hprice]
  refine hw.setSide (List.pairwise_cons.mpr ⟨fun o ho => ?_, htail⟩) ?_ ?_
  · rw [hrank]
    exact hhead o ho
  · intro o ho
    rcases List.mem_cons.mp ho with rfl | ho
    · rw [hside, hprice]
      exact hplaced r List.mem_cons_self
    · exact hplaced o (List.mem_cons_of_mem r ho)
  · have hmap : (R.setSide side (r' :: rest)).orders.map OrderData.id =
        R.orders.map OrderData.id := by
      rw [orders_setSide]
      cases side with
      | buy => simp [Book.orders, h, hid]
      | sell => simp [Book.orders, h, hid]
    rw [hmap]
    exact hw.unique

theorem orders_insertBehind (R : Book) (o : OrderData) :
    (R.setSide o.side
      (insertBehind OrderData.rank o (R.resting o.side))).orders.Perm
      (o :: R.orders) := by
  rw [orders_setSide, Book.orders]
  cases o.side with
  | buy => exact (List.perm_orderedInsert _ o _).append_right _
  | sell =>
      exact ((List.perm_orderedInsert _ o _).append_left _).trans List.perm_middle

theorem Ranked.insert (hw : Ranked R) {o : OrderData} (hv : ValidPrice o.price)
    (hfresh : ∀ x ∈ R.orders, x.id ≠ o.id) :
    Ranked (R.setSide o.side
      (insertBehind OrderData.rank o (R.resting o.side))) := by
  refine hw.setSide (hw.sorted o.side).insertBehind (fun x hx => ?_) ?_
  · rcases mem_insertBehind.mp hx with rfl | hx
    · exact ⟨rfl, hv⟩
    · exact hw.placed o.side x hx
  · rw [((orders_insertBehind R o).map OrderData.id).nodup_iff, List.map_cons,
      List.nodup_cons]
    refine ⟨fun hmem => ?_, hw.unique⟩
    obtain ⟨x, hx, heq⟩ := List.mem_map.mp hmem
    exact hfresh x hx heq

end Ranked

/-! ## The best price -/

section Best

variable {R : Book} {b : ArrayOrderBook} {Q : Queues} {side : Side} {r : OrderData}
  {rest : List OrderData}

theorem queue_ne_nil_iff (h : BookHolds b Q R.content) {lv : LevelPtr} :
    Q lv ≠ [] ↔ ∃ o ∈ R.resting lv.side, priceToIndex o.price = lv.index.val := by
  have hC := h.content lv
  have hmap : Q lv = [] ↔ R.content lv = [] := by
    rw [hC, List.map_eq_nil_iff]
  rw [ne_eq, hmap, Book.content, List.filter_eq_nil_iff]
  simp

theorem best_of_nil (h : BookHolds b Q R.content) (hr : R.resting side = []) :
    b.best side = 0 := by
  refine IsBest.unique (h.inv.best side) (Or.inl ⟨rfl, fun i => ?_⟩)
  cases hbit : bitAt (b.bitmap side) i with
  | false => rfl
  | true =>
      obtain ⟨hlt, hne⟩ := (h.inv.bits side i).mp hbit
      obtain ⟨o, ho, _⟩ := (queue_ne_nil_iff h).mp hne
      rw [hr] at ho
      cases ho

theorem best_of_cons (h : BookHolds b Q R.content) (hw : Ranked R)
    (hr : R.resting side = r :: rest) : b.best side = r.price := by
  have hmem : r ∈ R.resting side := by rw [hr]; exact List.mem_cons_self
  obtain ⟨hside, hv⟩ := hw.placed side r hmem
  refine IsBest.unique (h.inv.best side) (Or.inr ⟨hv.ne_zero, ?_, fun j hj => ?_⟩)
  · refine (h.inv.bits side _).mpr ⟨hv.index_lt, ?_⟩
    exact (queue_ne_nil_iff h).mpr ⟨r, hmem, rfl⟩
  · obtain ⟨hlt, hne⟩ := (h.inv.bits side j).mp hj
    obtain ⟨o, ho, rfl⟩ := (queue_ne_nil_iff h).mp hne
    obtain ⟨hoside, hvo⟩ := hw.placed side o ho
    refine noWorse_of_rank_le hside hoside hv hvo ?_
    have hsorted := hw.sorted side
    rw [hr] at hsorted ho
    rcases List.mem_cons.mp ho with rfl | ho
    · exact Int.le_refl _
    · exact (List.pairwise_cons.mp hsorted).1 o ho

end Best

end PriceTime

end OpenHft
