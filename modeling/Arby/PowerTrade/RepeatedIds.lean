import Arby.PowerTrade.BookTotals

/-! What becomes of an id that is added while it rests. The cache keeps the position of the last
addition only, so that a removal takes that order away and leaves the one before. -/

namespace Arby.PowerTrade

open Trading Kit

namespace BookSide

variable {d : SideType} {s : BookSide (Key d)} {live : List LiveOrder}

/-- No id rests in two nodes. -/
def Once (s : BookSide (Key d)) : Prop :=
  ∀ id e f q q', s.RestsAt e ⟨id, q⟩ → s.RestsAt f ⟨id, q'⟩ → e = f

/-- No order of `id` rests, and every depth is that of the orders which rest: none of `id` remains. -/
structure Gone (s : BookSide (Key d)) (id : String) : Prop where
  rests : s.rests id = false
  levels : ∀ node ∈ s.ladder.values,
    node.val.aggregateDepth = (node.val.orders.map fun order => order.val.qty).sum
  aggregate : s.aggregate = (s.ladder.values.map fun node => node.val.aggregateDepth).sum

/-- An id that rests once more is in two nodes. -/
theorem Placed.once_add (h : s.Placed) {price : Key d} {order : OrderQty}
    (hOnce : (s.add price order).Once) : s.rests order.orderid = false ∧ s.Once := by
  constructor
  · rw [← Bool.not_eq_true, rests_iff]
    rintro ⟨entry, qty, hRests⟩
    have hOld : (s.add price order).RestsAt entry ⟨order.orderid, qty⟩ :=
      h.restsAt_add.mpr (.inl hRests)
    have hNew : (s.add price order).RestsAt (s.newEntry price) ⟨order.orderid, order.qty⟩ :=
      h.restsAt_add.mpr (.inr ⟨rfl, rfl⟩)
    have hSame := hOnce _ _ _ _ _ hOld hNew
    -- The new node has an address that the side had not given out yet.
    have hBelow : entry.iqty < s.fresh := (h.restsAt_below hRests).2
    have hFresh : s.fresh ≤ (s.newEntry price).iqty := level_fresh
    rw [hSame] at hBelow
    omega
  · intro id e f q q' he hf
    exact hOnce id e f q q' (h.restsAt_add.mpr (.inl he)) (h.restsAt_add.mpr (.inl hf))

theorem Placed.once_addAll (h : s.Placed) {orders : List Add} (hOnce : (s.addAll orders).Once) :
    (orders.map Add.orderId).Nodup ∧ (∀ a ∈ orders, s.rests a.orderId = false) ∧ s.Once := by
  induction orders generalizing s with
  | nil => exact ⟨List.nodup_nil, by simp, hOnce⟩
  | cons a orders ih =>
    obtain ⟨hNodup, hNew, hOnceAdd⟩ := ih (h.add _ _) hOnce
    obtain ⟨hRests, hOnceSide⟩ := h.once_add hOnceAdd
    have hApart : ∀ b ∈ orders, s.rests b.orderId = false ∧ a.orderId ≠ b.orderId := by
      intro b hb
      have hAbsent := hNew b hb
      rw [h.rests_add, Bool.or_eq_false_iff] at hAbsent
      exact ⟨hAbsent.1, of_decide_eq_false hAbsent.2⟩
    refine ⟨?_, ?_, hOnceSide⟩
    · rw [List.map_cons, List.nodup_cons]
      refine ⟨fun hMem => ?_, hNodup⟩
      obtain ⟨b, hb, hSame⟩ := List.mem_map.mp hMem
      exact (hApart b hb).2 hSame.symm
    · intro b hb
      rcases List.mem_cons.mp hb with rfl | hb
      · exact hRests
      · exact (hApart b hb).1

theorem Represents.once (h : s.Represents live) : s.Once :=
  fun _ _ _ _ _ he hf => h.indexed.unique he hf

theorem Represents.gone (h : s.Represents live) {id : String} (hId : ∀ o ∈ live, o.id ≠ id) :
    s.Gone id where
  rests := by
    rw [← Bool.not_eq_true, h.rests_iff]
    rintro ⟨o, ho, hSame⟩
    exact hId o ho hSame
  levels node hNode := by
    obtain ⟨key, hp⟩ := OrdMap.mem_values.mp hNode
    obtain ⟨p, rfl⟩ := toKey_surjective d key
    exact h.depth_eq hp
  aggregate := h.aggregate.trans h.sum_depths.symm

end BookSide

namespace OrderBook

variable {book book' : OrderBook} {live : LiveBook} {t : TickRecord}

/-- Every id rests at most once on each side, and after a removal no more on its side. -/
def Lawful (_ : OrderBook) (t : TickRecord) (book : OrderBook) : Prop :=
  (∀ d, (book.side d).Once) ∧
    match t with
    | .remove r => (book.side r.side).Gone r.orderId
    | .snapshot _ | .add _ | .execute _ => True

theorem Refines.admits_of_freshIds (h : book.Refines live) (ht : t.isExecute = false)
    (hFresh : book.FreshIds t) : live.Admits t := by
  cases t with
  | snapshot snap => exact ⟨hFresh .buy, hFresh .sell⟩
  | add a =>
    intro o ho hId
    have hRests := (h.sides a.side).rests_iff.mpr ⟨o, ho, hId⟩
    rw [show (book.side a.side).rests a.orderId = false from hFresh] at hRests
    cases hRests
  | remove r => trivial
  | execute e => cases ht

theorem Refines.lawful (h : book.Refines live) (ht : t.isExecute = false)
    (hFresh : book.FreshIds t) :
    ∃ book', book.replayTick t = some book' ∧ book'.Refines (live.step t) ∧ Lawful book t book' := by
  obtain ⟨book', hStep, h'⟩ := h.step (h.admits_of_freshIds ht hFresh)
  refine ⟨book', hStep, h', fun d => (h'.sides d).once, ?_⟩
  cases t with
  | remove r =>
    refine (h'.sides r.side).gone ?_
    intro o ho
    rw [LiveBook.step] at ho
    split at ho
    · rw [LiveBook.orders_update_self] at ho
      exact (LiveOrder.mem_without.mp ho).2
    · rename_i hAbsent
      intro hId
      exact hAbsent ⟨o, ho, hId⟩
  | add | snapshot | execute => trivial

/-- A tick after which no id rests twice repeats none. -/
theorem Placed.freshIds (h : book.Placed) (hStep : book.replayTick t = some book')
    (hOnce : ∀ d, (book'.side d).Once) : book.FreshIds t := by
  cases t with
  | snapshot snap =>
    intro d
    have hSide := hOnce d
    rw [side_snapshot book snap hStep] at hSide
    exact (BookSide.placed_reset.once_addAll hSide).1
  | add a =>
    obtain rfl := Option.some.inj hStep
    have hSide := hOnce a.side
    rw [side_add_self] at hSide
    exact ((h a.side).once_add hSide).1
  | remove | execute => trivial

/-- Over snapshots, additions and removals the law holds after every tick exactly when no tick adds
an id that rests on its side. -/
theorem lawful_run_iff {ticks : List TickRecord} (hTicks : ∀ t ∈ ticks, t.isExecute = false) :
    Safe OrderBook.replayTick Lawful {} ticks ↔ Along OrderBook.replayTick FreshIds {} ticks := by
  refine safe_iff_along (I := fun book => ∃ live, book.Refines live)
    (A := fun _ t => t.isExecute = false) ?_ ?_ ⟨{}, refines_empty⟩ (along_of_forall hTicks _)
  · rintro book t ⟨live, h⟩ ht
    constructor
    · intro hFresh
      obtain ⟨book', hStep, -, hLawful⟩ := h.lawful ht hFresh
      exact ⟨book', hStep, hLawful⟩
    · rintro ⟨book', hStep, hLawful⟩
      exact Placed.freshIds (fun d => (h.sides d).placed) hStep hLawful.1
  · rintro book t book' ⟨live, h⟩ ht hFresh hStep
    obtain ⟨book₁, hStep₁, h₁, -⟩ := h.lawful ht hFresh
    obtain rfl := Option.some.inj (hStep₁.symm.trans hStep)
    exact ⟨_, h₁⟩

/-- A bid of a snapshot is removed and added again. -/
def returningBid : List TickRecord :=
  [.snapshot (.ofSides [⟨"1", 100, 1, 1, .buy⟩] []), .remove ⟨"1", 2, .buy⟩,
    .add ⟨"1", 101, 2, 3, .buy⟩, .remove ⟨"1", 4, .buy⟩]

theorem returningBid_lawful : Safe OrderBook.replayTick Lawful {} returningBid :=
  (lawful_run_iff (by decide)).mpr (by decide +kernel)

/-- A bid of a snapshot is added again, and removed. -/
def repeatedBid : List TickRecord :=
  [.snapshot (.ofSides [⟨"1", 100, 1, 1, .buy⟩] []), .add ⟨"1", 101, 2, 2, .buy⟩,
    .remove ⟨"1", 3, .buy⟩]

/-- The bid of the snapshot rests on after the removal. -/
theorem repeatedBid_unlawful : (∀ t ∈ repeatedBid, t.isExecute = false) ∧
    ¬ Safe OrderBook.replayTick Lawful {} repeatedBid := by
  refine ⟨by decide, ?_⟩
  rintro ⟨book₁, h₁, -, book₂, h₂, -, book₃, h₃, ⟨-, hGone⟩, -⟩
  have hRun : run OrderBook.replayTick {} repeatedBid = some book₃ := by
    simp only [repeatedBid, run_cons, h₁, h₂, h₃, Option.bind_some, run_nil]
  have hRests : (run OrderBook.replayTick {} repeatedBid).any
      (fun book => (book.side .buy).rests "1") = true := by
    decide +kernel
  rw [hRun, Option.any_some, hGone.rests] at hRests
  cases hRests

end OrderBook

end Arby.PowerTrade
