import Arby.PowerTrade.Placement

/-! What a replayed tick does to each side of the book. `OrderBook.side` views the two sides
through one function, so that the branches of the book's operations, which repeat each other for
the two sides, have one lemma each. The book's other operations and its invariants build on
`side_snapshot`, `side_add`, `remove_cases` and `execute_cases`, and unfold nothing below them. -/

namespace Arby.PowerTrade

open Trading Kit

/-- The keys of the ladder of side `d`: the best price comes first. -/
def Key : SideType → Type
  | .buy => PriceTypeᵒᵈ
  | .sell => PriceType

instance (d : SideType) : LinearOrder (Key d) :=
  match d with
  | .buy => inferInstanceAs (LinearOrder PriceTypeᵒᵈ)
  | .sell => inferInstanceAs (LinearOrder PriceType)

def toKey (d : SideType) (p : PriceType) : Key d :=
  match d with
  | .buy => OrderDual.toDual p
  | .sell => p

theorem toKey_injective (d : SideType) : Function.Injective (toKey d) := by
  cases d
  · exact OrderDual.toDual.injective
  · exact Function.injective_id

def Add.order (a : Add) : OrderQty := { orderid := a.orderId, qty := a.qty }

/-- The orders of a snapshot for side `d`. -/
def Snapshot.orders (snap : Snapshot) : SideType → List Add
  | .buy => snap.bids
  | .sell => snap.offers

/-- The additions of `orders` to one side. -/
def BookSide.addAll {d : SideType} (s : BookSide (Key d)) (orders : List Add) : BookSide (Key d) :=
  orders.foldl (fun s a => s.add (toKey d a.price) a.order) s

namespace OrderBook

def side (book : OrderBook) (d : SideType) : BookSide (Key d) :=
  match d with
  | .buy => book.bids
  | .sell => book.offers

theorem side_add_self (book : OrderBook) (a : Add) :
    (book.add a).side a.side = (book.side a.side).add (toKey a.side a.price) a.order := by
  cases h : a.side <;> simp only [OrderBook.add, h] <;> rfl

theorem side_add_ne (book : OrderBook) (a : Add) {d : SideType} (hd : d ≠ a.side) :
    (book.add a).side d = book.side d := by
  obtain ⟨id, price, qty, ts, side⟩ := a
  cases side <;> cases d <;> first | exact absurd rfl hd | rfl

theorem lastUpdate_add (book : OrderBook) (a : Add) :
    (book.add a).lastUpdate = max book.lastUpdate a.timestamp := by
  cases h : a.side <;> simp [OrderBook.add, h]

theorem lastUpdate_foldl_add (orders : List Add) (book : OrderBook) :
    (orders.foldl add book).lastUpdate = (orders.map Add.timestamp).foldl max book.lastUpdate := by
  induction orders generalizing book with
  | nil => rfl
  | cons a orders ih => rw [List.foldl_cons, ih, lastUpdate_add, List.map_cons, List.foldl_cons]

theorem side_foldl_add {e : SideType} (orders : List Add) (he : ∀ a ∈ orders, a.side = e)
    (book : OrderBook) (d : SideType) :
    (orders.foldl add book).side d =
      if d = e then (book.side d).addAll orders else book.side d := by
  induction orders generalizing book with
  | nil => simp [BookSide.addAll]
  | cons a orders ih =>
    rw [List.foldl_cons, ih fun x hx => he x (List.mem_cons_of_mem _ hx)]
    have ha : a.side = e := he a (by simp)
    split <;> rename_i hd
    · subst hd
      subst ha
      rw [side_add_self]
      rfl
    · exact side_add_ne book a (ha ▸ hd)

theorem side_snapshot (book : OrderBook) (snap : Snapshot) {book' : OrderBook}
    (h : book.replayTick (.snapshot snap) = some book') (d : SideType) :
    book'.side d = (book.side d).reset.addAll (snap.orders d) := by
  obtain rfl := Option.some.inj h
  have hReset : book.reset.side d = (book.side d).reset := by cases d <;> rfl
  rw [side_foldl_add _ snap.offers_sell, side_foldl_add _ snap.bids_buy, hReset]
  cases d <;> rfl

/-- The two outcomes of a removal that returns: the id is not in the cache and nothing changes, or
the order that its entry refers to is removed from the side of the tick. -/
theorem remove_cases {book book' : OrderBook} {r : Remove} (h : book.remove r = some book') :
    (book.side r.side).cache.lookup r.orderId = none ∧ book' = book ∨
      ∃ entry s', (book.side r.side).cache.lookup r.orderId = some entry ∧
        (book.side r.side).remove r.orderId entry = some s' ∧ book'.side r.side = s' ∧
        (∀ d, d ≠ r.side → book'.side d = book.side d) ∧
        book'.lastUpdate = max r.timestamp book.lastUpdate := by
  obtain ⟨id, ts, d⟩ := r
  cases d
  all_goals
    simp only [OrderBook.remove] at h
    split at h
    · rename_i hNone
      exact .inl ⟨hNone, (Option.some.inj h).symm⟩
    · rename_i entry hSome
      obtain ⟨s', hs', hBook⟩ := Option.bind_eq_some_iff.mp h
      obtain rfl := Option.some.inj hBook
      refine .inr ⟨entry, s', hSome, hs', rfl, fun d hd => ?_, rfl⟩
      cases d
      · first | exact absurd rfl hd | rfl
      · first | exact absurd rfl hd | rfl

/-- `aggregate_bids_` loses the quantity, whichever side the execution names. -/
def executeAggregate (d : SideType) (aggregate qty : QtyType) : QtyType :=
  match d with
  | .buy => aggregate - qty
  | .sell => aggregate

/-- The two outcomes of an execution that returns. -/
theorem execute_cases {book book' : OrderBook} {e : Execute} (h : book.execute e = some book') :
    (book.side e.side).cache.lookup e.orderId = none ∧ book' = book ∨
      ∃ entry s', (book.side e.side).cache.lookup e.orderId = some entry ∧
        (book.side e.side).execute e.orderId entry e.qty = some s' ∧
        book'.side e.side = { s' with aggregate := executeAggregate e.side s'.aggregate e.qty } ∧
        (∀ d, d ≠ e.side → book'.side d = { book.side d with
          aggregate := executeAggregate d (book.side d).aggregate e.qty }) ∧
        book'.lastUpdate = max e.timestamp book.lastUpdate := by
  obtain ⟨id, price, qty, ts, d⟩ := e
  cases d
  all_goals
    simp only [OrderBook.execute] at h
    split at h
    · rename_i hNone
      exact .inl ⟨hNone, (Option.some.inj h).symm⟩
    · rename_i entry hSome
      obtain ⟨s', hs', hBook⟩ := Option.bind_eq_some_iff.mp h
      obtain rfl := Option.some.inj hBook
      refine .inr ⟨entry, s', hSome, hs', rfl, fun d hd => ?_, rfl⟩
      cases d
      · first | exact absurd rfl hd | rfl
      · first | exact absurd rfl hd | rfl

theorem remove_isSome (book : OrderBook) (r : Remove) (h : ∀ entry,
      (book.side r.side).cache.lookup r.orderId = some entry →
        ((book.side r.side).remove r.orderId entry).isSome) : (book.remove r).isSome := by
  obtain ⟨id, ts, d⟩ := r
  cases d
  all_goals
    simp only [OrderBook.remove]
    split
    · rfl
    · rename_i entry hSome
      obtain ⟨s', hs'⟩ := Option.isSome_iff_exists.mp (h entry hSome)
      exact Option.isSome_iff_exists.mpr ⟨_, Option.bind_eq_some_iff.mpr ⟨s', hs', rfl⟩⟩

theorem execute_isSome (book : OrderBook) (e : Execute) (h : ∀ entry,
      (book.side e.side).cache.lookup e.orderId = some entry →
        ((book.side e.side).execute e.orderId entry e.qty).isSome) : (book.execute e).isSome := by
  obtain ⟨id, price, qty, ts, d⟩ := e
  cases d
  all_goals
    simp only [OrderBook.execute]
    split
    · rfl
    · rename_i entry hSome
      obtain ⟨s', hs'⟩ := Option.isSome_iff_exists.mp (h entry hSome)
      exact Option.isSome_iff_exists.mpr ⟨_, Option.bind_eq_some_iff.mpr ⟨s', hs', rfl⟩⟩

theorem remove_absent {book : OrderBook} {r : Remove}
    (h : (book.side r.side).cache.lookup r.orderId = none) : book.remove r = some book := by
  obtain ⟨book', hBook⟩ := Option.isSome_iff_exists.mp <|
    remove_isSome book r fun entry he => by cases h.symm.trans he
  rcases remove_cases hBook with ⟨-, rfl⟩ | ⟨entry, s', he, -⟩
  · exact hBook
  · cases h.symm.trans he

theorem remove_found {book : OrderBook} {r : Remove} {entry : CacheEntry} {s : BookSide (Key r.side)}
    (he : (book.side r.side).cache.lookup r.orderId = some entry)
    (hs : (book.side r.side).remove r.orderId entry = some s) :
    ∃ book', book.remove r = some book' ∧ book'.side r.side = s ∧
      (∀ d, d ≠ r.side → book'.side d = book.side d) ∧
      book'.lastUpdate = max r.timestamp book.lastUpdate := by
  obtain ⟨book', hBook⟩ := Option.isSome_iff_exists.mp <|
    remove_isSome book r fun entry' he' => by
      rw [← Option.some.inj (he.symm.trans he'), hs]; rfl
  refine ⟨book', hBook, ?_⟩
  rcases remove_cases hBook with ⟨hNone, -⟩ | ⟨entry', s', he', hs', hRest⟩
  · cases hNone.symm.trans he
  · obtain rfl := Option.some.inj (he.symm.trans he')
    obtain rfl := Option.some.inj (hs.symm.trans hs')
    exact hRest

theorem execute_absent {book : OrderBook} {e : Execute}
    (h : (book.side e.side).cache.lookup e.orderId = none) : book.execute e = some book := by
  obtain ⟨book', hBook⟩ := Option.isSome_iff_exists.mp <|
    execute_isSome book e fun entry he => by cases h.symm.trans he
  rcases execute_cases hBook with ⟨-, rfl⟩ | ⟨entry, s', he, -⟩
  · exact hBook
  · cases h.symm.trans he

theorem execute_found {book : OrderBook} {e : Execute} {entry : CacheEntry}
    {s : BookSide (Key e.side)} (he : (book.side e.side).cache.lookup e.orderId = some entry)
    (hs : (book.side e.side).execute e.orderId entry e.qty = some s) :
    ∃ book', book.execute e = some book' ∧
      book'.side e.side = { s with aggregate := executeAggregate e.side s.aggregate e.qty } ∧
      (∀ d, d ≠ e.side → book'.side d = { book.side d with
        aggregate := executeAggregate d (book.side d).aggregate e.qty }) ∧
      book'.lastUpdate = max e.timestamp book.lastUpdate := by
  obtain ⟨book', hBook⟩ := Option.isSome_iff_exists.mp <|
    execute_isSome book e fun entry' he' => by
      rw [← Option.some.inj (he.symm.trans he'), hs]; rfl
  refine ⟨book', hBook, ?_⟩
  rcases execute_cases hBook with ⟨hNone, -⟩ | ⟨entry', s', he', hs', hRest⟩
  · cases hNone.symm.trans he
  · obtain rfl := Option.some.inj (he.symm.trans he')
    obtain rfl := Option.some.inj (hs.symm.trans hs')
    exact hRest

end OrderBook

end Arby.PowerTrade
