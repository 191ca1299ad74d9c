import Mathlib.Algebra.BigOperators.Group.List.Basic
import OpenHft.Proofs.BookRun

/-!
# `total_quantity`

A level keeps the sum of the quantities queued on it, modulo 2³² because the
field is 32 bits wide. `push_back` and `remove` keep it up to date; the last
branch of `reduceOrder`, which lowers a quantity in place, does not. So the sum
is right along a run exactly as long as no call takes that branch:
`totals_step` says what one call does, and `runOps_totals_iff` is the same for
a whole run, in both directions.
-/

namespace OpenHft

open OpenHft.Lib

/-- The quantities queued on a level, added without wrapping. -/
def queuedQuantity (h : Heap) (l : List OrderPtr) : Nat :=
  (l.map fun p => (h p).quantity.toNat).sum

/-- Every `total_quantity` is the sum over the queue of its level. -/
def Totals (b : ArrayOrderBook) (Q : Queues) : Prop :=
  ∀ lv, (b.levels lv).totalQuantity.toNat =
    queuedQuantity b.orders (Q lv) % 2 ^ 32

/-- The same of a book by itself: whatever its levels spell. -/
def TotalsExact (b : ArrayOrderBook) : Prop :=
  ∃ Q : Queues, (∀ lv, IsQueue b.orders (b.levels lv) lv (Q lv)) ∧ Totals b Q

/-- The queues are determined by the book. -/
theorem BookInv.totalsExact_iff {b : ArrayOrderBook} {Q : Queues}
    (hb : BookInv b Q) : TotalsExact b ↔ Totals b Q := by
  refine ⟨fun ⟨Q', hq, ht⟩ => ?_, fun ht => ⟨Q, hb.queue, ht⟩⟩
  rwa [show Q = Q' from funext fun lv => (hb.queue lv).unique (hq lv)]

section Sums

variable {h h' : Heap} {l : List OrderPtr} {p : OrderPtr}

theorem queuedQuantity_congr
    (heq : ∀ p ∈ l, (h' p).quantity = (h p).quantity) :
    queuedQuantity h' l = queuedQuantity h l := by
  unfold queuedQuantity
  rw [List.map_congr_left fun p hp => by rw [heq p hp]]

theorem queuedQuantity_append :
    queuedQuantity h (l ++ [p]) = queuedQuantity h l + (h p).quantity.toNat := by
  simp [queuedQuantity]

theorem queuedQuantity_erase (hp : p ∈ l) :
    (h p).quantity.toNat + queuedQuantity h (l.erase p) = queuedQuantity h l :=
  List.sum_map_erase (fun p => (h p).quantity.toNat) hp

end Sums

section Effects

variable {b b' : ArrayOrderBook} {Q : Queues} {p : OrderPtr} {lv : LevelPtr}
  {id : OrderId}

theorem Totals.modify_unlinked (ht : Totals b Q) (hb : BookInv b Q)
    (hp : (b.orders p).level = none) (f : Order → Order) :
    Totals { b with orders := b.orders.modify p f } Q := by
  intro lv
  have hsame : queuedQuantity (b.orders.modify p f) (Q lv) =
      queuedQuantity b.orders (Q lv) := by
    refine queuedQuantity_congr fun q hq => ?_
    rw [Heap.modify_of_ne]
    rintro rfl
    exact hb.not_mem_of_unlinked hp lv hq
  rw [hsame]
  exact ht lv

theorem ArrayOrderBook.AddEffect.totals (h : AddEffect b b' p lv)
    (ht : Totals b Q) : Totals b' (Q.push lv p) := by
  have hquantity : ∀ q, (b'.orders q).quantity = (b.orders q).quantity :=
    fun q => congrArg OrderData.quantity (h.data q)
  intro lv'
  rw [queuedQuantity_congr fun q _ => hquantity q]
  by_cases hlv : lv' = lv
  · subst hlv
    rw [h.level, PriceLevel.pushBack_totalQuantity, Queues.push,
      Function.update_self, queuedQuantity_append, UInt32.toNat_add, ht lv',
      Nat.mod_add_mod]
  · rw [h.levels _ hlv, Queues.push, Function.update_of_ne hlv]
    exact ht lv'

theorem ArrayOrderBook.CancelEffect.totals (h : CancelEffect b b' id p lv)
    (hb : BookInv b Q) (hp : p ∈ Q lv) (ht : Totals b Q) :
    Totals b' (Q.drop lv p) := by
  have hquantity : ∀ q, (b'.orders q).quantity = (b.orders q).quantity :=
    fun q => congrArg OrderData.quantity (h.data hb hp q)
  intro lv'
  rw [queuedQuantity_congr fun q _ => hquantity q]
  by_cases hlv : lv' = lv
  · subst hlv
    rw [h.level, PriceLevel.remove_eq ((hb.queue lv').not_self hp).1, Queues.drop,
      Function.update_self, UInt32.toNat_sub, ht lv']
    have hsum := queuedQuantity_erase (h := b.orders) hp
    have hlt := (b.orders p).quantity.toNat_lt
    omega
  · rw [h.levels _ hlv, Queues.drop, Function.update_of_ne hlv]
    exact ht lv'

/-- Lowering one quantity in place breaks the total of its level: the level is
not told. -/
theorem not_totals_lowerQuantity (hb : BookInv b Q) (hp : p ∈ Q lv)
    {quantity : Quantity} (hpos : quantity ≠ 0)
    (hlt : quantity < (b.orders p).quantity) (ht : Totals b Q) :
    ¬ Totals (b.lowerQuantity p quantity) Q := by
  intro ht'
  have hbefore := ht lv
  have hafter : (b.levels lv).totalQuantity.toNat =
      queuedQuantity (b.lowerQuantity p quantity).orders (Q lv) % 2 ^ 32 := ht' lv
  have hrest : queuedQuantity (b.lowerQuantity p quantity).orders ((Q lv).erase p) =
      queuedQuantity b.orders ((Q lv).erase p) := by
    refine queuedQuantity_congr fun q hq => ?_
    have hne : q ≠ p := ((hb.queue lv).dll.nodup.mem_erase_iff.mp hq).1
    simp only [ArrayOrderBook.lowerQuantity, Heap.modify_of_ne _ _ hne]
  have hself : ((b.lowerQuantity p quantity).orders p).quantity =
      (b.orders p).quantity - quantity := by
    simp only [ArrayOrderBook.lowerQuantity, Heap.modify_self]
  rw [← queuedQuantity_erase hp] at hbefore hafter
  rw [hrest, hself, UInt32.toNat_sub_of_le _ _ (UInt32.le_of_lt hlt)] at hafter
  have hq0 : 0 < quantity.toNat := Nat.pos_of_ne_zero fun e => hpos (UInt32.toNat_inj.mp e)
  have hq := UInt32.lt_iff_toNat_lt.mp hlt
  have hmax := (b.orders p).quantity.toNat_lt
  omega

/-- What one call does to the totals. -/
theorem totals_step {op : BookOp} {Q' : Queues} (hb : BookInv b Q)
    (ht : Totals b Q) (h : BookOp.Outcome b Q op b' Q') :
    Totals b' Q' ↔ op.partialReduction b = false := by
  cases h with
  | add order d hv b' hun hadd =>
      exact iff_of_true (hadd.totals (ht.modify_unlinked hb hun _)) rfl
  | noop op hop => exact iff_of_true ht hop
  | removed op id p lv b' hop hf hp heff =>
      exact iff_of_true (heff.totals hb hp ht) hop
  | reduced op id quantity p lv hop hf hp hpos hq =>
      refine iff_of_false (not_totals_lowerQuantity hb hp hpos hq ht) ?_
      have hpart : op.partialReduction b = true := by
        rcases hop with rfl | rfl <;>
          simp only [BookOp.partialReduction, hf, Bool.and_eq_true, decide_eq_true_eq] <;>
          exact ⟨hpos, hq⟩
      rw [hpart]
      exact Bool.noConfusion
  | replaced originalOrderId newOrderId quantity price hv p lv b₁ b' hf hp hcancel
      hadd =>
      have hun : (b₁.orders p).level = none := by
        rw [hcancel.orderLevel hb hp, if_pos rfl]
      have ht₁ := (hcancel.totals hb hp ht).modify_unlinked (hcancel.inv hb hf hp) hun
      exact iff_of_true (hadd.totals (ht₁ _)) rfl

end Effects

/-- No call of the run lowers a quantity in place. -/
def partialFree (b : ArrayOrderBook) : List BookOp → Bool
  | [] => true
  | op :: ops =>
      !op.partialReduction b &&
        match op.apply b with
        | .ok b' => partialFree b' ops
        | .error _ => true

/-- Along a run from a book whose totals are right, they are right in every
state exactly if no call lowers a quantity in place. -/
theorem totals_run {ops : List BookOp} {b : ArrayOrderBook} {Q : Queues}
    (hb : BookInv b Q) (ht : Totals b Q) (hadm : admissibleRun b ops = true) :
    (∀ pre, pre <+: ops → ∃ b', runOps b pre = .ok b' ∧ TotalsExact b') ↔
      partialFree b ops = true := by
  induction ops generalizing b Q with
  | nil =>
      refine iff_of_true (fun pre hpre => ?_) rfl
      rw [List.prefix_nil.mp hpre]
      exact ⟨b, rfl, hb.totalsExact_iff.mpr ht⟩
  | cons op ops ih =>
      obtain ⟨hop, hrest⟩ := admissibleRun_cons hadm
      obtain ⟨b₁, Q₁, hok, hout⟩ := BookOp.apply_outcome hb hop
      have hb₁ := hout.inv hb
      have hstep := totals_step hb ht hout
      have hfree : partialFree b (op :: ops) = true ↔
          op.partialReduction b = false ∧ partialFree b₁ ops = true := by
        simp only [partialFree, hok, Bool.and_eq_true, Bool.not_eq_true']
      rw [hfree, ← hstep]
      constructor
      · intro hall
        obtain ⟨b', hok', hexact⟩ := hall [op] (List.prefix_append [op] ops)
        rw [runOps_cons hok] at hok'
        cases hok'
        have ht₁ := hb₁.totalsExact_iff.mp hexact
        refine ⟨ht₁, (ih hb₁ ht₁ (hrest b₁ hok)).mp fun pre hpre => ?_⟩
        rw [← runOps_cons hok]
        exact hall (op :: pre) (List.cons_prefix_cons.mpr ⟨rfl, hpre⟩)
      · rintro ⟨ht₁, hfree₁⟩ pre hpre
        cases pre with
        | nil => exact ⟨b, rfl, hb.totalsExact_iff.mpr ht⟩
        | cons op' pre =>
            obtain ⟨rfl, hpre'⟩ := List.cons_prefix_cons.mp hpre
            rw [runOps_cons hok]
            exact (ih hb₁ ht₁ (hrest b₁ hok)).mpr hfree₁ pre hpre'

/-- In a run of admissible calls from the empty book, every `total_quantity` is
the sum of the quantities queued on its level after every call, exactly if no
call reduces or executes a resting order by less than its quantity. -/
theorem runOps_totals_iff (stdHash : OrderId → Nat) (orders : Heap)
    (hun : ∀ p, (orders p).level = none) (ops : List BookOp)
    (hadm : admissibleRun (.init stdHash orders) ops = true) :
    (∀ pre, pre <+: ops →
      ∃ b, runOps (.init stdHash orders) pre = .ok b ∧ TotalsExact b) ↔
      partialFree (.init stdHash orders) ops = true :=
  totals_run (init_inv stdHash hun) (fun _ => rfl) hadm

/-- A run with a removal and a replacement, whose totals are right
throughout. -/
theorem runOps_totals_without_partial :
    partialFree (.init UInt64.toNat fun _ => default)
        [.add 0 ⟨1, 7, .buy, 100, 10⟩, .add 1 ⟨2, 7, .sell, 105, 5⟩,
          .replace 2 3 6 104, .execute 1 10] = true ∧
      ∀ pre, pre <+: [BookOp.add 0 ⟨1, 7, .buy, 100, 10⟩, .add 1 ⟨2, 7, .sell, 105, 5⟩,
          .replace 2 3 6 104, .execute 1 10] →
        ∃ b, runOps (.init UInt64.toNat fun _ => default) pre = .ok b ∧
          TotalsExact b :=
  ⟨by decide +kernel,
    (runOps_totals_iff UInt64.toNat (fun _ => default) (fun _ => rfl) _
      (by decide +kernel)).mpr (by decide +kernel)⟩

/-- An order of 10 reduced by 4: its level still says 10, and 6 are queued. -/
theorem reduceOrder_leaves_total :
    admissibleRun (.init UInt64.toNat fun _ => default)
      [.add 0 ⟨1, 7, .buy, 100, 10⟩, .reduce 1 4] = true ∧
    (∃ b, runOps (.init UInt64.toNat fun _ => default)
        [.add 0 ⟨1, 7, .buy, 100, 10⟩, .reduce 1 4] = .ok b ∧
      (b.levels (levelAt .buy 100 (by decide))).totalQuantity = 10 ∧
      (b.levels (levelAt .buy 100 (by decide))).head = some 0 ∧ (b.orders 0).next = none ∧
      (b.orders 0).quantity = 6) ∧
    ¬ ∀ pre, pre <+: [BookOp.add 0 ⟨1, 7, .buy, 100, 10⟩, .reduce 1 4] →
      ∃ b, runOps (.init UInt64.toNat fun _ => default) pre = .ok b ∧
        TotalsExact b := by
  refine ⟨by decide +kernel, ⟨_, rfl, ?_⟩, fun hall => ?_⟩
  · decide +kernel
  · have h := (totals_run (init_inv UInt64.toNat fun _ => rfl) (fun _ => rfl)
      (by decide +kernel)).mp hall
    exact absurd h (by decide +kernel)

end OpenHft
