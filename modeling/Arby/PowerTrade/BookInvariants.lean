import Arby.Kit.Run
import Arby.PowerTrade.Replay

/-! The invariants of a book that is changed by replayed ticks only, and when a replay has a
result: its only undefined step is an execution that empties a level. -/

namespace Arby.PowerTrade

open Trading Kit

namespace BookSide

variable {d : SideType} {s : BookSide (Key d)}

theorem Placed.addAll (h : s.Placed) (orders : List Add) : (s.addAll orders).Placed := by
  induction orders generalizing s with
  | nil => exact h
  | cons a orders ih => exact ih (h.add _ _)

theorem Linked.addAll (h : s.Placed) (hl : s.Linked) (orders : List Add) :
    (s.addAll orders).Linked := by
  induction orders generalizing s with
  | nil => exact hl
  | cons a orders ih => exact ih (h.add _ _) (hl.add h _ _)

theorem Placed.rests_add (h : s.Placed) {price : Key d} {order : OrderQty} {id : String} :
    (s.add price order).rests id = (s.rests id || order.orderid = id) := by
  rw [Bool.eq_iff_iff, Bool.or_eq_true, rests_iff, rests_iff, decide_eq_true_eq]
  simp only [h.restsAt_add]
  constructor
  · rintro ⟨e, q, hq | ⟨-, rfl⟩⟩
    · exact .inl ⟨e, q, hq⟩
    · exact .inr rfl
  · rintro (⟨e, q, hq⟩ | rfl)
    · exact ⟨e, q, .inl hq⟩
    · exact ⟨_, order.qty, .inr ⟨rfl, rfl⟩⟩

theorem Indexed.addAll (h : s.Placed) (hi : s.Indexed) {orders : List Add}
    (hIds : (orders.map Add.orderId).Nodup) (hNew : ∀ a ∈ orders, s.rests a.orderId = false) :
    (s.addAll orders).Indexed := by
  induction orders generalizing s with
  | nil => exact hi
  | cons a orders ih =>
    obtain ⟨ha, hIds⟩ := List.nodup_cons.mp hIds
    refine ih (h.add _ _) (hi.add h _ a.order (hNew a (by simp))) hIds fun b hb => ?_
    have hne : a.orderId ≠ b.orderId := fun e => ha (e ▸ List.mem_map_of_mem hb)
    rw [h.rests_add, hNew b (List.mem_cons_of_mem _ hb), Bool.false_or]
    exact decide_eq_false hne

theorem placed_reset : s.reset.Placed := placed_empty _

theorem indexed_reset : s.reset.Indexed := indexed_empty _

/-- The execution of `qty` of order `orderId` takes the last order of a level away. -/
def EmptiesLevel (s : BookSide (Key d)) (orderId : String) (qty : QtyType) : Prop :=
  ∃ entry detail order, s.cache.lookup orderId = some entry ∧ s.deref entry = some (detail, order) ∧
    leftQty order qty ≠ 0 ∧ eraseNode detail.orders entry.iqty = []

instance (s : BookSide (Key d)) (orderId : String) (qty : QtyType) :
    Decidable (s.EmptiesLevel orderId qty) :=
  decidable_of_iff (∃ entry ∈ s.cache.lookup orderId, ∃ x ∈ s.deref entry,
      leftQty x.2 qty ≠ 0 ∧ eraseNode x.1.orders entry.iqty = [])
    ⟨fun ⟨entry, he, x, hx, h⟩ => ⟨entry, x.1, x.2, he, hx, h⟩,
      fun ⟨entry, detail, order, he, hd, h⟩ => ⟨entry, he, (detail, order), hd, h⟩⟩

theorem Linked.deref (h : s.Placed) (hl : s.Linked) {id : String} {entry : CacheEntry}
    (he : s.cache.lookup id = some entry) :
    ∃ detail qty, s.deref entry = some (detail, ⟨id, qty⟩) := by
  obtain ⟨q, hq⟩ := hl id entry he
  obtain ⟨detail, hd⟩ := h.restsAt.mp hq
  exact ⟨detail, q, hd⟩

theorem Linked.remove_isSome (h : s.Placed) (hl : s.Linked) {id : String} {entry : CacheEntry}
    (he : s.cache.lookup id = some entry) : (s.remove id entry).isSome := by
  obtain ⟨detail, q, hd⟩ := hl.deref h he
  exact Option.isSome_iff_exists.mpr ⟨_, remove_eq_some.mpr ⟨detail, _, hd, rfl⟩⟩

theorem Linked.execute_isSome (h : s.Placed) (hl : s.Linked) {id : String} {entry : CacheEntry}
    {qty : QtyType} (he : s.cache.lookup id = some entry) :
    (s.execute id entry qty).isSome ↔ ¬s.EmptiesLevel id qty := by
  obtain ⟨detail, q, hd⟩ := hl.deref h he
  simp only [Option.isSome_iff_exists, execute_eq_some]
  constructor
  · rintro ⟨s', d', o', hd', hCases⟩ ⟨entry', d'', o'', he', hd'', hLeft, hEmpty⟩
    obtain rfl := Option.some.inj (he.symm.trans he')
    obtain ⟨rfl, rfl⟩ := Prod.mk.inj (Option.some.inj (hd'.symm.trans hd''))
    rcases hCases with ⟨-, hNonempty, -⟩ | ⟨hZero, -⟩
    · exact hNonempty hEmpty
    · exact hLeft hZero
  · intro hNot
    by_cases hLeft : leftQty ⟨id, q⟩ qty = 0
    · exact ⟨_, detail, _, hd, .inr ⟨hLeft, rfl⟩⟩
    · refine ⟨_, detail, _, hd, .inl ⟨hLeft, fun hEmpty => ?_, rfl⟩⟩
      exact hNot ⟨entry, detail, _, he, hd, hLeft, hEmpty⟩

end BookSide

namespace OrderBook

def Placed (book : OrderBook) : Prop := ∀ d, (book.side d).Placed

def Linked (book : OrderBook) : Prop := ∀ d, (book.side d).Linked

def Indexed (book : OrderBook) : Prop := ∀ d, (book.side d).Indexed

/-- Tick `t` adds no order whose id already rests on its side. -/
def FreshIds (book : OrderBook) : TickRecord → Prop
  | .add a => (book.side a.side).rests a.orderId = false
  | .snapshot snap => ∀ d, ((snap.orders d).map Add.orderId).Nodup
  | .remove _ => True
  | .execute _ => True

/-- The cache finds every order that rests. -/
def FindsAll (book : OrderBook) : Prop := ∀ d, ∀ node ∈ (book.side d).ladder.values,
  ∀ order ∈ node.val.orders,
    (book.side d).cache.lookup order.val.orderid = some ⟨node.addr, order.addr⟩

instance (book : OrderBook) : Decidable book.FindsAll := by dsimp only [FindsAll]; infer_instance

instance (book : OrderBook) (t : TickRecord) : Decidable (book.FreshIds t) :=
  match t with
  | .add _ | .remove _ | .execute _ | .snapshot _ => by
    dsimp only [FreshIds]
    infer_instance

def EmptiesLevel (book : OrderBook) : TickRecord → Prop
  | .execute e => (book.side e.side).EmptiesLevel e.orderId e.qty
  | _ => False

instance (book : OrderBook) (t : TickRecord) : Decidable (book.EmptiesLevel t) :=
  match t with
  | .add _ | .remove _ | .execute _ | .snapshot _ => by
    dsimp only [EmptiesLevel]
    infer_instance

variable {book book' : OrderBook} {t : TickRecord}

/-- A property of sides holds after a replayed tick when the tick's operations preserve it. -/
theorem replayTick_side {P : ∀ d, BookSide (Key d) → Prop} (h : ∀ d, P d (book.side d))
    (hSnapshot : ∀ snap d, t = .snapshot snap →
      P d ((book.side d).reset.addAll (snap.orders d)))
    (hAdd : ∀ a, t = .add a →
      P a.side ((book.side a.side).add (toKey a.side a.price) a.order))
    (hRemove : ∀ r entry s', t = .remove r →
      (book.side r.side).cache.lookup r.orderId = some entry →
      (book.side r.side).remove r.orderId entry = some s' → P r.side s')
    (hExecute : ∀ e entry s', t = .execute e →
      (book.side e.side).cache.lookup e.orderId = some entry →
      (book.side e.side).execute e.orderId entry e.qty = some s' → P e.side s')
    (hAggregate : ∀ d s aggregate, P d s → P d { s with aggregate })
    (hReplay : book.replayTick t = some book') (d : SideType) : P d (book'.side d) := by
  cases t with
  | snapshot snap =>
    rw [side_snapshot book snap hReplay d]
    exact hSnapshot snap d rfl
  | add a =>
    obtain rfl := Option.some.inj hReplay
    by_cases hd : d = a.side
    · subst hd
      rw [side_add_self]
      exact hAdd a rfl
    · rw [side_add_ne book a hd]
      exact h d
  | remove r =>
    rcases remove_cases hReplay with ⟨-, rfl⟩ | ⟨entry, s', he, hs', hSelf, hOther, -⟩
    · exact h d
    · by_cases hd : d = r.side
      · subst hd
        rw [hSelf]
        exact hRemove r entry s' rfl he hs'
      · rw [hOther d hd]
        exact h d
  | execute e =>
    rcases execute_cases hReplay with ⟨-, rfl⟩ | ⟨entry, s', he, hs', hSelf, hOther, -⟩
    · exact h d
    · by_cases hd : d = e.side
      · subst hd
        rw [hSelf]
        exact hAggregate _ s' _ (hExecute e entry s' rfl he hs')
      · rw [hOther d hd]
        exact hAggregate d _ _ (h d)

theorem Placed.replayTick (h : book.Placed) (hReplay : book.replayTick t = some book') :
    book'.Placed :=
  replayTick_side (P := fun _ s => s.Placed) h
    (fun _ _ _ => BookSide.placed_reset.addAll _) (fun a _ => (h a.side).add _ _)
    (fun r _ _ _ _ hs' => (h r.side).remove hs') (fun e _ _ _ _ hs' => (h e.side).execute hs')
    (fun _ _ _ hs => ⟨hs.levels, hs.orders, hs.below, hs.cached⟩) hReplay

theorem Linked.replayTick (h : book.Placed) (hl : book.Linked)
    (hReplay : book.replayTick t = some book') : book'.Linked :=
  replayTick_side (P := fun _ s => s.Linked) hl
    (fun _ _ _ => (BookSide.indexed_reset.linked).addAll BookSide.placed_reset _)
    (fun a _ => (hl a.side).add (h a.side) _ _)
    (fun r _ _ _ he hs' => (hl r.side).remove (h r.side) he hs')
    (fun e _ _ _ he hs' => (hl e.side).execute (h e.side) he hs') (fun _ _ _ hs => hs) hReplay

theorem Indexed.replayTick (h : book.Placed) (hi : t.isSnapshot = true ∨ book.Indexed)
    (hFresh : book.FreshIds t) (hReplay : book.replayTick t = some book') : book'.Indexed := by
  have hSnapshot : ∀ snap d, t = .snapshot snap →
      ((book.side d).reset.addAll (snap.orders d)).Indexed := by
    rintro snap d rfl
    exact BookSide.indexed_reset.addAll BookSide.placed_reset (hFresh d) fun _ _ => rfl
  rcases hi with hTick | hi
  · cases t with
    | snapshot snap =>
      intro d
      rw [side_snapshot book snap hReplay]
      exact hSnapshot snap d rfl
    | add | remove | execute => cases hTick
  · refine replayTick_side (P := fun _ s => s.Indexed) hi hSnapshot (fun a ht => ?_)
      (fun r _ _ _ he hs' => (hi r.side).remove (h r.side) he hs')
      (fun e _ _ _ he hs' => (hi e.side).execute (h e.side) he hs') (fun _ _ _ hs => hs) hReplay
    subst ht
    exact (hi a.side).add (h a.side) _ a.order hFresh

theorem placed_empty : ({} : OrderBook).Placed := by
  intro d
  cases d <;> exact BookSide.placed_empty 0

theorem indexed_empty : ({} : OrderBook).Indexed := by
  intro d
  cases d <;> exact BookSide.indexed_empty 0

theorem linked_empty : ({} : OrderBook).Linked := fun d => (indexed_empty d).linked

theorem Linked.indexed (hl : book.Linked) (hFinds : book.FindsAll) : book.Indexed := by
  refine fun d id entry => ⟨hl d id entry, ?_⟩
  rintro ⟨qty, price, detail, hp, ho⟩
  exact hFinds d _ (OrdMap.mem_values.mpr ⟨price, hp⟩) _ ho

/-- A book that only replayed ticks have changed replays every tick but one that empties a level. -/
theorem Linked.replayTick_isSome (h : book.Placed) (hl : book.Linked) (t : TickRecord) :
    (book.replayTick t).isSome ↔ ¬book.EmptiesLevel t := by
  cases t with
  | snapshot | add => simp [OrderBook.replayTick, EmptiesLevel]
  | remove r =>
    simp only [OrderBook.replayTick, EmptiesLevel, not_false_eq_true, iff_true]
    exact remove_isSome book r fun entry he => (hl r.side).remove_isSome (h r.side) he
  | execute e =>
    constructor
    · rintro hSome ⟨entry, detail, order, he, hEmpties⟩
      obtain ⟨book', hBook⟩ := Option.isSome_iff_exists.mp hSome
      rcases execute_cases hBook with ⟨hNone, -⟩ | ⟨entry', s', he', hs', -⟩
      · cases hNone.symm.trans he
      · refine ((hl e.side).execute_isSome (h e.side) he').mp ?_
          ⟨entry, detail, order, he, hEmpties⟩
        exact Option.isSome_iff_exists.mpr ⟨s', hs'⟩
    · intro hNot
      exact execute_isSome book e fun entry he => ((hl e.side).execute_isSome (h e.side) he).mpr hNot

/-- Every book that a replay from the start reaches is placed and linked. -/
theorem replay_placed_linked {ticks : List TickRecord}
    (hRun : run OrderBook.replayTick {} ticks = some book) : book.Placed ∧ book.Linked :=
  run_invariant (I := fun book => book.Placed ∧ book.Linked)
    (fun _ _ _ h hStep => ⟨h.1.replayTick hStep, h.2.replayTick h.1 hStep⟩)
    ⟨placed_empty, linked_empty⟩ hRun

/-- When no addition repeats an id that rests, the cache finds every resting order. -/
theorem replay_placed_indexed {ticks : List TickRecord}
    (hFresh : Along OrderBook.replayTick FreshIds {} ticks)
    (hRun : run OrderBook.replayTick {} ticks = some book) : book.Placed ∧ book.Indexed :=
  hFresh.invariant (I := fun book => book.Placed ∧ book.Indexed)
    (fun _ _ _ h hTick hStep => ⟨h.1.replayTick hStep, Indexed.replayTick h.1 (.inr h.2) hTick hStep⟩)
    ⟨placed_empty, indexed_empty⟩ hRun

end OrderBook

end Arby.PowerTrade
