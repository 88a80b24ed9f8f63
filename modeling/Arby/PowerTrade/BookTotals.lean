import Arby.PowerTrade.LiveBook
import Mathlib.Algebra.Order.BigOperators.Group.List

/-! The redundant totals of the book: orders, levels and sides. They agree for as long as no
execution names a resting order: `execute` takes the order away and leaves the depth of its level
as it was. -/

namespace Arby.PowerTrade

open Trading Kit LiveOrder

namespace BookSide

variable {κ : Type} [LinearOrder κ]

/-- The totals of the side agree and none is negative. -/
structure Sound (s : BookSide κ) : Prop where
  levels : ∀ node ∈ s.ladder.values, node.val.orders ≠ [] ∧
    node.val.aggregateDepth = (node.val.orders.map fun order => order.val.qty).sum ∧
    0 ≤ node.val.aggregateDepth
  aggregate : s.aggregate = (s.ladder.values.map fun node => node.val.aggregateDepth).sum
  nonneg : 0 ≤ s.aggregate

instance (s : BookSide κ) : Decidable s.Sound :=
  decidable_of_iff
    ((∀ node ∈ s.ladder.values, node.val.orders ≠ [] ∧
      node.val.aggregateDepth = (node.val.orders.map fun order => order.val.qty).sum ∧
      0 ≤ node.val.aggregateDepth) ∧
    s.aggregate = (s.ladder.values.map fun node => node.val.aggregateDepth).sum ∧ 0 ≤ s.aggregate)
    ⟨fun h => ⟨h.1, h.2.1, h.2.2⟩, fun h => ⟨h.1, h.2, h.3⟩⟩

variable {d : SideType} {s s' : BookSide (Key d)} {live : List LiveOrder}

theorem Represents.sum_depths (h : s.Represents live) :
    (s.ladder.values.map fun node => node.val.aggregateDepth).sum = LiveOrder.total live := by
  have hDepth : ∀ e ∈ s.ladder.entries, e.2.val.aggregateDepth =
      ((live.filter fun o => toKey d o.price = e.1).map LiveOrder.qty).sum := by
    intro e he
    obtain ⟨p, hp⟩ := toKey_surjective d e.1
    have hFind : s.ladder.find? (toKey d p) = some e.2 :=
      OrdMap.find?_eq_some.mpr (hp ▸ he)
    rw [(h.queue hFind).2.1, ← hp]
    simp [LiveOrder.total, atPrice, (toKey_injective d).eq_iff]
  have hKeys : ∀ o ∈ live, toKey d o.price ∈ s.ladder.entries.map Prod.fst := by
    intro o ho
    obtain ⟨node, hp⟩ := Option.isSome_iff_exists.mp ((h.keys o.price).mpr ⟨o, ho, rfl⟩)
    exact List.mem_map_of_mem (OrdMap.find?_eq_some.mp hp)
  have hSum := OrdMap.sum_by_key s.ladder.nodup_keys (fun o => toKey d o.price) LiveOrder.qty hKeys
  rw [List.map_map] at hSum
  rw [OrdMap.values, List.map_map, LiveOrder.total, ← hSum]
  exact congrArg List.sum (List.map_congr_left hDepth)

theorem total_nonneg (hPos : ∀ o ∈ live, 0 < o.qty) : 0 ≤ LiveOrder.total live :=
  List.sum_nonneg fun q hq => by
    obtain ⟨o, ho, rfl⟩ := List.mem_map.mp hq
    exact (hPos o ho).le

theorem Represents.depth_eq (h : s.Represents live) {p : PriceType} {node : Node LevelData}
    (hp : s.ladder.find? (toKey d p) = some node) :
    node.val.aggregateDepth = (node.val.orders.map fun order => order.val.qty).sum := by
  obtain ⟨-, hDepth, hOrders⟩ := h.queue hp
  have hQtys := congrArg (List.map OrderQty.qty) hOrders
  rw [List.map_map, List.map_map] at hQtys
  rw [hDepth, LiveOrder.total]
  exact congrArg List.sum hQtys.symm

theorem Represents.sound (h : s.Represents live) (hPos : ∀ o ∈ live, 0 < o.qty) : s.Sound where
  levels node hNode := by
    obtain ⟨key, hp⟩ := OrdMap.mem_values.mp hNode
    obtain ⟨p, rfl⟩ := toKey_surjective d key
    obtain ⟨hAt, hDepth, hOrders⟩ := h.queue hp
    refine ⟨fun hEmpty => hAt ?_, h.depth_eq hp, ?_⟩
    · rw [hEmpty] at hOrders
      exact List.map_eq_nil_iff.mp hOrders.symm
    · rw [hDepth]
      exact total_nonneg fun o ho => hPos o (mem_atPrice.mp ho).1
  aggregate := h.aggregate.trans h.sum_depths.symm
  nonneg := h.aggregate ▸ total_nonneg hPos

/-- The assertions of a removal hold: what is left of the level and of the side is a sum of
quantities. -/
theorem Represents.removeAsserts (h : s.Represents live) (hPos : ∀ o ∈ live, 0 < o.qty)
    {id : String} {entry : CacheEntry} (he : s.cache.lookup id = some entry) :
    s.removeAsserts entry = true := by
  obtain ⟨qty, hr⟩ := (h.indexed id entry).mp he
  obtain ⟨p, detail, hLive, hp, ho⟩ := h.restsAt hr
  have hWithout : ∀ o ∈ without live id, 0 < o.qty := fun o ho => hPos o (mem_without.mp ho).1
  have hDepth : 0 ≤ detail.aggregateDepth - qty := by
    rw [(h.erase_level hp ho).1]
    exact total_nonneg fun o ho => hWithout o (mem_atPrice.mp ho).1
  have hAggregate : 0 ≤ s.aggregate - qty := by
    rw [h.aggregate, ← total_without h.ids hLive]
    exact total_nonneg hWithout
  rw [BookSide.removeAsserts, h.placed.deref.mpr ⟨_, hp, ho⟩]
  simp [hDepth, hAggregate]

/-- An execution of a resting order leaves a level whose depth is not the sum of its queue. -/
theorem Represents.not_sound_execute (h : s.Represents live) (hPos : ∀ o ∈ live, 0 < o.qty)
    {id : String} {entry : CacheEntry} {qty : QtyType} (hQty : 0 < qty)
    (he : s.cache.lookup id = some entry) (hx : s.execute id entry qty = some s') :
    ¬∀ node ∈ s'.ladder.values,
      node.val.aggregateDepth = (node.val.orders.map fun order => order.val.qty).sum := by
  obtain ⟨detail, order, hd, hCases⟩ := execute_eq_some.mp hx
  obtain ⟨q, hr⟩ := (h.indexed id entry).mp he
  obtain ⟨p, detail', hLive, hp, ho⟩ := h.restsAt hr
  obtain ⟨rfl, rfl⟩ := Prod.mk.inj (Option.some.inj
    (hd.symm.trans (h.placed.deref.mpr ⟨_, hp, ho⟩)))
  have hOrder : 0 < q := hPos _ hLive
  have hLeft : leftQty ⟨id, q⟩ qty = q := by simp [leftQty, hQty.ne']
  rcases hCases with ⟨-, hNonempty, rfl⟩ | ⟨hZero, -⟩
  · intro hLevels
    have hFind := find?_eraseOrder_self (c := detail) hp
    rw [if_neg hNonempty] at hFind
    have hSum := hLevels _ (OrdMap.mem_values.mpr ⟨_, hFind⟩)
    obtain ⟨hDepth, hOrders⟩ := h.erase_level hp ho
    have hQtys := congrArg (fun l => (l.map OrderQty.qty).sum) hOrders
    simp only [List.map_map] at hQtys
    have hRest : detail.aggregateDepth = detail.aggregateDepth - q := by
      rw [hDepth]
      exact hSum.trans hQtys
    exact hOrder.ne' (sub_eq_self.mp hRest.symm)
  · rw [hLeft] at hZero
    exact absurd hZero hOrder.ne'

end BookSide

namespace OrderBook

variable {book book' : OrderBook} {live : LiveBook} {t : TickRecord}

/-- The totals of both sides agree, and the assertions of every removal hold. -/
structure Sound (book : OrderBook) : Prop where
  sides : ∀ d, (book.side d).Sound
  asserts : ∀ r, book.removeAsserts r = true

/-- The tick's quantities are positive, it adds no id that rests on its side, and it executes no
more than is left of the order that it names. -/
def Admissible (book : OrderBook) : TickRecord → Prop
  | .snapshot snap => ∀ d, ((snap.orders d).map Add.orderId).Nodup ∧ ∀ a ∈ snap.orders d, 0 < a.qty
  | .add a => 0 < a.qty ∧ (book.side a.side).rests a.orderId = false
  | .remove _ => True
  | .execute e => 0 < e.qty ∧ ∀ node ∈ (book.side e.side).ladder.values,
      ∀ order ∈ node.val.orders, order.val.orderid = e.orderId → e.qty ≤ order.val.qty

instance (book : OrderBook) (t : TickRecord) : Decidable (book.Admissible t) :=
  match t with
  | .add _ | .remove _ | .execute _ | .snapshot _ => by
    dsimp only [Admissible]
    infer_instance

/-- The tick executes an order that rests on its side. -/
def ExecutesResting (book : OrderBook) : TickRecord → Prop
  | .execute e => (book.side e.side).rests e.orderId = true
  | _ => False

instance (book : OrderBook) (t : TickRecord) : Decidable (book.ExecutesResting t) :=
  match t with
  | .add _ | .remove _ | .execute _ | .snapshot _ => by
    dsimp only [ExecutesResting]
    infer_instance

theorem removeAsserts_side (book : OrderBook) (r : Remove) : book.removeAsserts r =
    ((book.side r.side).cache.lookup r.orderId).elim true (book.side r.side).removeAsserts := by
  cases h : r.side <;> simp only [OrderBook.removeAsserts, h] <;> rfl

def LivePositive (live : LiveBook) : Prop := ∀ d, ∀ o ∈ live.orders d, 0 < o.qty

theorem Refines.sound (h : book.Refines live) (hPos : LivePositive live) : book.Sound where
  sides d := (h.sides d).sound (hPos d)
  asserts r := by
    rw [removeAsserts_side]
    cases he : (book.side r.side).cache.lookup r.orderId with
    | none => rfl
    | some entry => exact (h.sides r.side).removeAsserts (hPos r.side) he

/-- An admissible tick that executes no resting order is a tick of the reference, or changes
nothing. -/
theorem Refines.admissible_step (h : book.Refines live) (ht : book.Admissible t)
    (hNot : ¬book.ExecutesResting t) :
    ∃ book', book.replayTick t = some book' ∧ book'.Refines (live.step t) := by
  cases t with
  | snapshot snap => exact h.step ⟨(ht .buy).1, (ht .sell).1⟩
  | add a =>
    refine h.step fun o ho hid => ?_
    exact Bool.eq_false_iff.mp ht.2 ((h.sides a.side).rests_iff.mpr ⟨o, ho, hid⟩)
  | remove r => exact h.step trivial
  | execute e =>
    have hNone : (book.side e.side).cache.lookup e.orderId = none := by
      rw [(h.sides e.side).lookup_none]
      intro o ho hid
      exact hNot ((h.sides e.side).rests_iff.mpr ⟨o, ho, hid⟩)
    exact ⟨book, execute_absent hNone, h⟩

theorem LivePositive.step (h : LivePositive live) (ht : book.Admissible t) :
    LivePositive (live.step t) := by
  cases t with
  | snapshot snap =>
    intro d o ho
    obtain ⟨a, ha, rfl⟩ := List.mem_map.mp ho
    exact (ht d).2 a ha
  | add a =>
    intro d o ho
    by_cases hd : d = a.side
    · subst hd
      rw [LiveBook.step, LiveBook.orders_update_self] at ho
      rcases List.mem_append.mp ho with ho | ho
      · exact h _ o ho
      · exact List.mem_singleton.mp ho ▸ ht.1
    · rw [LiveBook.step, LiveBook.orders_update_ne live hd] at ho
      exact h d o ho
  | remove r =>
    intro d o ho
    rw [LiveBook.step] at ho
    split at ho
    · by_cases hd : d = r.side
      · subst hd
        rw [LiveBook.orders_update_self] at ho
        exact h _ o (mem_without.mp ho).1
      · rw [LiveBook.orders_update_ne live hd] at ho
        exact h d o ho
    · exact h d o ho
  | execute e => exact h

theorem Refines.not_sound (h : book.Refines live) (hPos : LivePositive live)
    (ht : book.Admissible t) (hx : book.ExecutesResting t) (hStep : book.replayTick t = some book') :
    ¬book'.Sound := by
  cases t with
  | snapshot | add | remove => exact hx.elim
  | execute e =>
    intro hSound
    rcases execute_cases hStep with ⟨hNone, -⟩ | ⟨entry, s', he, hs', hSelf, -⟩
    · obtain ⟨o, ho, hid⟩ := (h.sides e.side).rests_iff.mp hx
      exact (h.sides e.side).lookup_none.mp hNone o ho hid
    · refine (h.sides e.side).not_sound_execute (hPos e.side) ht.1 he hs' fun node hNode => ?_
      have hLevels := (hSound.sides e.side).levels
      rw [hSelf] at hLevels
      exact (hLevels node hNode).2.1

/-- Over admissible ticks the totals agree after every tick exactly when no tick executes a resting
order. -/
theorem replay_sound_iff (ticks : List TickRecord)
    (hAdmissible : Along OrderBook.replayTick Admissible {} ticks) :
    Safe OrderBook.replayTick (fun _ _ book => book.Sound) {} ticks ↔
      Along OrderBook.replayTick (fun book t => ¬book.ExecutesResting t) {} ticks := by
  refine safe_iff_along (I := fun book => ∃ live, book.Refines live ∧ LivePositive live)
    (fun book t ⟨live, hRefines, hPos⟩ ht => ⟨fun hNot => ?_, fun ⟨book', hStep, hSound⟩ hx => ?_⟩)
    (fun book t book' ⟨live, hRefines, hPos⟩ ht hNot hStep => ?_)
    ⟨{}, refines_empty, fun _ _ h => nomatch h⟩ hAdmissible
  · obtain ⟨book', hStep, hRefines'⟩ := hRefines.admissible_step ht hNot
    exact ⟨book', hStep, hRefines'.sound (hPos.step ht)⟩
  · exact hRefines.not_sound hPos ht hx hStep hSound
  · obtain ⟨book₁, h₁, hRefines'⟩ := hRefines.admissible_step ht hNot
    obtain rfl := Option.some.inj (h₁.symm.trans hStep)
    exact ⟨_, hRefines', hPos.step ht⟩

/-- Two bids at one price, and the removal of an id that does not rest and of the first bid. -/
def cancelledBid : List TickRecord :=
  [.add ⟨"1", 100, 1, 1, .buy⟩, .add ⟨"2", 100, 2, 2, .buy⟩, .remove ⟨"3", 3, .buy⟩,
    .remove ⟨"1", 4, .buy⟩]

theorem cancelledBid_sound :
    Safe OrderBook.replayTick (fun _ _ book => book.Sound) {} cancelledBid :=
  (replay_sound_iff cancelledBid (by decide +kernel)).mpr (by decide +kernel)

/-- Two bids at one price, the first of which is filled. -/
def filledBid : List TickRecord :=
  [.add ⟨"1", 100, 1, 1, .buy⟩, .add ⟨"2", 100, 2, 2, .buy⟩, .execute ⟨"1", 100, 1, 3, .buy⟩]

/-- The depth of the level stays 3 with an order of 2 in its queue. -/
theorem filledBid_unsound : Along OrderBook.replayTick Admissible {} filledBid ∧
    ¬Safe OrderBook.replayTick (fun _ _ book => book.Sound) {} filledBid := by
  refine ⟨by decide +kernel, fun h => ?_⟩
  have hSides : Safe OrderBook.replayTick (fun _ _ book => ∀ d, (book.side d).Sound) {} filledBid :=
    h.mono fun _ _ _ hs => hs.sides
  exact absurd hSides (by decide +kernel)

end OrderBook

end Arby.PowerTrade
