import Arby.PowerTrade.BookInvariants

/-! The two sides of the book beside each other. Each side is what its own ticks make of it, except
that an execution on the sell side takes its quantity from `aggregate_bids_`. -/

namespace Arby.PowerTrade

open Trading Kit

/-- The snapshot without the orders of the side other than `d`. -/
def Snapshot.onSide (snap : Snapshot) (d : SideType) : Snapshot :=
  match d with
  | .buy => { bids := snap.bids, offers := [], bids_buy := snap.bids_buy }
  | .sell => { bids := [], offers := snap.offers, offers_sell := snap.offers_sell }

/-- What is left of a tick for side `d`. -/
def TickRecord.onSide (d : SideType) : TickRecord → Option TickRecord
  | .snapshot snap => some (.snapshot (snap.onSide d))
  | .add a => if a.side = d then some (.add a) else none
  | .remove r => if r.side = d then some (.remove r) else none
  | .execute e => if e.side = d then some (.execute e) else none

namespace BookSide

variable {κ : Type} [LinearOrder κ] {s : BookSide κ} {x : QtyType}

/-- The side with `x` off its aggregate. -/
def shift (s : BookSide κ) (x : QtyType) : BookSide κ := { s with aggregate := s.aggregate - x }

@[simp] theorem shift_zero : s.shift 0 = s := by
  simp [shift]

theorem add_shift (price : κ) (order : OrderQty) :
    (s.shift x).add price order = (s.add price order).shift x := by
  have hLevel : (s.shift x).level price = ((s.level price).1.shift x, (s.level price).2) := by
    simp only [level, shift]
    split <;> rfl
  rw [add, hLevel]
  simp [add, append, shift, sub_add_eq_add_sub]

theorem remove_shift (id : String) (entry : CacheEntry) :
    (s.shift x).remove id entry = (s.remove id entry).map (·.shift x) := by
  have hDeref : (s.shift x).deref entry = s.deref entry := rfl
  simp only [remove, hDeref, Option.bind_eq_bind, Option.pure_def, Option.map_bind]
  congr 1
  funext found
  obtain ⟨detail, order⟩ := found
  simp [shift, eraseOrder, sub_right_comm]

theorem execute_shift (id : String) (entry : CacheEntry) (qty : QtyType) :
    (s.shift x).execute id entry qty = (s.execute id entry qty).map (·.shift x) := by
  have hDeref : (s.shift x).deref entry = s.deref entry := rfl
  simp only [execute, hDeref, Option.bind_eq_bind, Option.map_bind]
  congr 1
  funext found
  obtain ⟨detail, order⟩ := found
  simp only [Function.comp_apply]
  generalize order.qty - (if qty = 0 then 1 else 0) = left
  by_cases hLeft : left ≠ 0
  · rw [if_pos hLeft, if_pos hLeft]
    by_cases hEmpty : eraseNode detail.orders entry.iqty = []
    · simp [hEmpty]
    · simp [hEmpty, shift]
  · rw [if_neg hLeft, if_neg hLeft]
    rfl

end BookSide

namespace OrderBook

/-- What tick `t` adds to the quantity that executions on the sell side have taken from the
aggregate of the bids since the last snapshot. -/
def strayAfter (stray : QtyType) (book : OrderBook) : TickRecord → QtyType
  | .snapshot _ => 0
  | .execute e =>
    if e.side = .sell ∧ (book.offers.cache.lookup e.orderId).isSome then stray + e.qty else stray
  | _ => stray

/-- That quantity at the end of a run. -/
def strayQty : QtyType → OrderBook → List TickRecord → QtyType
  | stray, _, [] => stray
  | stray, book, t :: ticks =>
    match book.replayTick t with
    | some book' => strayQty (strayAfter stray book t) book' ticks
    | none => stray

/-- The part of a stray quantity that side `d` is short of. -/
def shortOf (d : SideType) (stray : QtyType) : QtyType :=
  match d with
  | .buy => stray
  | .sell => 0

/-- Both sides afterwards are as their own ticks alone make them. -/
def SidesIndependent (ticks : List TickRecord) : Prop :=
  ∃ book, run OrderBook.replayTick {} ticks = some book ∧
    ∀ d, ∃ alone, run OrderBook.replayTick {} (ticks.filterMap (TickRecord.onSide d)) = some alone ∧
      book.side d = alone.side d

variable {d : SideType} {stray : QtyType} {book book' alone : OrderBook} {t : TickRecord}

theorem executeAggregate_shift (s : BookSide (Key d)) (x qty : QtyType) :
    { s.shift x with aggregate := executeAggregate d (s.shift x).aggregate qty } =
      ({ s with aggregate := executeAggregate d s.aggregate qty } : BookSide (Key d)).shift x := by
  cases d <;> simp [BookSide.shift, executeAggregate, sub_right_comm]

theorem orders_onSide (snap : Snapshot) (d : SideType) : (snap.onSide d).orders d = snap.orders d := by
  cases d <;> rfl

theorem shadow_remove {r : Remove} {x : QtyType} (h : book.side r.side = (alone.side r.side).shift x)
    (hStep : book.remove r = some book') :
    ∃ alone', alone.remove r = some alone' ∧ book'.side r.side = (alone'.side r.side).shift x := by
  have hCache : (book.side r.side).cache = (alone.side r.side).cache := by rw [h]; rfl
  rcases remove_cases hStep with ⟨hNone, rfl⟩ | ⟨entry, s', he, hs', hSelf, -⟩
  · rw [hCache] at hNone
    exact ⟨alone, remove_absent hNone, h⟩
  · rw [hCache] at he
    rw [h, BookSide.remove_shift] at hs'
    obtain ⟨s, hs, rfl⟩ := Option.map_eq_some_iff.mp hs'
    obtain ⟨alone', hAlone, hSelf', -⟩ := remove_found he hs
    exact ⟨alone', hAlone, by rw [hSelf, hSelf']⟩

theorem shadow_execute {e : Execute} {x : QtyType}
    (h : book.side e.side = (alone.side e.side).shift x) (hStep : book.execute e = some book') :
    ∃ alone', alone.execute e = some alone' ∧ book'.side e.side = (alone'.side e.side).shift x := by
  have hCache : (book.side e.side).cache = (alone.side e.side).cache := by rw [h]; rfl
  rcases execute_cases hStep with ⟨hNone, rfl⟩ | ⟨entry, s', he, hs', hSelf, -⟩
  · rw [hCache] at hNone
    exact ⟨alone, execute_absent hNone, h⟩
  · rw [hCache] at he
    rw [h, BookSide.execute_shift] at hs'
    obtain ⟨s, hs, rfl⟩ := Option.map_eq_some_iff.mp hs'
    obtain ⟨alone', hAlone, hSelf', -⟩ := execute_found he hs
    refine ⟨alone', hAlone, ?_⟩
    rw [hSelf, hSelf']
    exact executeAggregate_shift s x e.qty

/-- An execution on the other side leaves this side alone but for the stray quantity. -/
theorem side_execute_ne {e : Execute} (hd : d ≠ e.side) (hStep : book.execute e = some book')
    (h : book.side d = (alone.side d).shift (shortOf d stray)) :
    book'.side d = (alone.side d).shift (shortOf d (strayAfter stray book (.execute e))) := by
  obtain ⟨id, price, qty, ts, side⟩ := e
  rcases execute_cases hStep with ⟨hNone, rfl⟩ | ⟨entry, s', he, -, -, hOther, -⟩
  · cases side
    · simpa [strayAfter] using h
    · have hOffers : book'.offers.cache.lookup id = none := hNone
      simpa [strayAfter, hOffers] using h
  · rw [hOther d hd, h]
    cases side
    · cases d
      · exact absurd rfl hd
      · simp [executeAggregate, shortOf]
    · cases d
      · have hOffers : book.offers.cache.lookup id = some entry := he
        simp [executeAggregate, shortOf, strayAfter, hOffers, BookSide.shift, sub_sub]
      · exact absurd rfl hd

theorem shortOf_execute_self (e : Execute) :
    shortOf e.side (strayAfter stray book (.execute e)) = shortOf e.side stray := by
  obtain ⟨id, price, qty, ts, side⟩ := e
  cases side <;> simp [shortOf, strayAfter]

/-- One tick on both books: side `d` of the full book is short of the stray quantity, the book of
the ticks of side `d` alone is not. -/
theorem shadow_step (h : book.side d = (alone.side d).shift (shortOf d stray))
    (hStep : book.replayTick t = some book') :
    ∃ alone', (t.onSide d).elim (some alone) alone.replayTick = some alone' ∧
      book'.side d = (alone'.side d).shift (shortOf d (strayAfter stray book t)) := by
  cases t with
  | snapshot snap =>
    refine ⟨_, rfl, ?_⟩
    rw [side_snapshot book snap hStep, side_snapshot alone (snap.onSide d) rfl, orders_onSide, h]
    cases d <;> exact BookSide.shift_zero.symm
  | add a =>
    obtain rfl := Option.some.inj hStep
    by_cases hd : a.side = d
    · subst hd
      refine ⟨alone.add a, by simp [TickRecord.onSide, OrderBook.replayTick], ?_⟩
      rw [side_add_self, side_add_self, h, BookSide.add_shift]
      rfl
    · refine ⟨alone, by simp [TickRecord.onSide, hd], ?_⟩
      rw [side_add_ne book a (Ne.symm hd), h]
      rfl
  | remove r =>
    by_cases hd : r.side = d
    · subst hd
      obtain ⟨alone', hAlone, hSide⟩ := shadow_remove h hStep
      exact ⟨alone', by simpa [TickRecord.onSide, OrderBook.replayTick] using hAlone, hSide⟩
    · refine ⟨alone, by simp [TickRecord.onSide, hd], ?_⟩
      rcases remove_cases hStep with ⟨-, rfl⟩ | ⟨-, -, -, -, -, hOther, -⟩
      · exact h
      · rw [hOther d (Ne.symm hd)]
        exact h
  | execute e =>
    by_cases hd : e.side = d
    · subst hd
      obtain ⟨alone', hAlone, hSide⟩ := shadow_execute h hStep
      refine ⟨alone', by simpa [TickRecord.onSide, OrderBook.replayTick] using hAlone, ?_⟩
      rw [shortOf_execute_self]
      exact hSide
    · exact ⟨alone, by simp [TickRecord.onSide, hd], side_execute_ne (Ne.symm hd) hStep h⟩

theorem shadow_run {ticks : List TickRecord}
    (h : book.side d = (alone.side d).shift (shortOf d stray))
    (hRun : run OrderBook.replayTick book ticks = some book') :
    ∃ alone', run OrderBook.replayTick alone (ticks.filterMap (TickRecord.onSide d)) = some alone' ∧
      book'.side d = (alone'.side d).shift (shortOf d (strayQty stray book ticks)) := by
  rw [run_filterMap]
  induction ticks generalizing book alone stray with
  | nil =>
    obtain rfl := Option.some.inj hRun
    exact ⟨alone, rfl, h⟩
  | cons t ticks ih =>
    obtain ⟨book₁, h₁, hRest⟩ := Option.bind_eq_some_iff.mp hRun
    obtain ⟨alone₁, hAlone, hSide⟩ := shadow_step h h₁
    obtain ⟨alone', hAlone', hSide'⟩ := ih hSide hRest
    refine ⟨alone', by rw [run_cons, hAlone]; exact hAlone', ?_⟩
    rw [strayQty, h₁]
    exact hSide'

/-- The replay of `ticks` from the empty book has a result when no execution empties a level. -/
theorem replay_isSome_iff (ticks : List TickRecord) :
    (run OrderBook.replayTick {} ticks).isSome ↔
      Along OrderBook.replayTick (fun book t => ¬book.EmptiesLevel t) {} ticks :=
  isSome_run_iff (I := fun book => book.Placed ∧ book.Linked)
    (fun _ t h => h.2.replayTick_isSome h.1 t)
    (fun _ _ _ h hStep => ⟨h.1.replayTick hStep, h.2.replayTick h.1 hStep⟩)
    ⟨placed_empty, linked_empty⟩

/-- The sides do not interfere exactly when no execution empties a level, which leaves the replay
without a defined result, and the executions on the sell side since the last snapshot, of orders
that were found, come to a quantity of 0. -/
theorem sidesIndependent_iff (ticks : List TickRecord) : SidesIndependent ticks ↔
    Along OrderBook.replayTick (fun book t => ¬book.EmptiesLevel t) {} ticks ∧
      strayQty 0 {} ticks = 0 := by
  have hStart : ∀ d, ({} : OrderBook).side d = (({} : OrderBook).side d).shift (shortOf d 0) := by
    intro d
    cases d <;> exact BookSide.shift_zero.symm
  rw [← replay_isSome_iff]
  constructor
  · rintro ⟨book, hRun, hSides⟩
    refine ⟨by rw [hRun]; rfl, ?_⟩
    obtain ⟨alone, hAlone, hEq⟩ := hSides .buy
    obtain ⟨alone', hAlone', hShift⟩ := shadow_run (hStart .buy) hRun
    obtain rfl := Option.some.inj (hAlone.symm.trans hAlone')
    have hAggregate := congrArg BookSide.aggregate (hEq.symm.trans hShift)
    exact sub_eq_self.mp hAggregate.symm
  · rintro ⟨hSome, hStray⟩
    obtain ⟨book, hRun⟩ := Option.isSome_iff_exists.mp hSome
    refine ⟨book, hRun, fun d => ?_⟩
    obtain ⟨alone, hAlone, hShift⟩ := shadow_run (hStart d) hRun
    refine ⟨alone, hAlone, ?_⟩
    rw [hShift, hStray]
    cases d <;> exact BookSide.shift_zero

/-- Two offers at one price, the first of which is filled. -/
def filledOffer : List TickRecord :=
  [.add ⟨"1", 101, 1, 1, .sell⟩, .add ⟨"2", 101, 2, 2, .sell⟩, .execute ⟨"1", 101, 1, 3, .sell⟩]

/-- No bid was ever added, and the aggregate of the bids is -1. -/
theorem filledOffer_interferes : ¬SidesIndependent filledOffer := by
  rintro ⟨book, hRun, hSides⟩
  obtain ⟨alone, hAlone, hEq⟩ := hSides .buy
  have hBook : (run OrderBook.replayTick {} filledOffer).map (·.bids.aggregate) = some (-1) := by
    decide +kernel
  have hNone : (run OrderBook.replayTick {} (filledOffer.filterMap (TickRecord.onSide .buy))).map
      (·.bids.aggregate) = some 0 := by
    decide +kernel
  rw [hRun, Option.map_some] at hBook
  rw [hAlone, Option.map_some] at hNone
  have hBids : book.bids.aggregate = alone.bids.aggregate := congrArg BookSide.aggregate hEq
  rw [Option.some.inj hBook, Option.some.inj hNone] at hBids
  exact absurd hBids (by decide +kernel)

end OrderBook

end Arby.PowerTrade
