import Arby.PowerTrade.LiveBook

/-! What a book shows of the live orders. It is all that `operator==` compares, so that books which
were reached in different ways are equal exactly when the same orders queue in them. -/

namespace Arby.PowerTrade

open Trading Kit LiveOrder

namespace LiveOrder

variable {live live' : List LiveOrder}

/-- The price of a level is that of its orders, so that its queue says which they are. -/
theorem atPrice_eq_map (live : List LiveOrder) (p : PriceType) :
    atPrice live p = ((atPrice live p).map order).map fun o => ⟨o.orderid, p, o.qty⟩ := by
  rw [List.map_map]
  conv_lhs => rw [← List.map_id (atPrice live p)]
  refine List.map_congr_left fun o ho => ?_
  obtain ⟨-, rfl⟩ := mem_atPrice.mp ho
  rfl

theorem levelOf_eq_iff {p : PriceType} :
    levelOf live p = levelOf live' p ↔ atPrice live p = atPrice live' p := by
  constructor
  · intro hLevel
    unfold levelOf at hLevel
    split at hLevel <;> rename_i hEmpty <;> split at hLevel <;> rename_i hEmpty'
    · rw [hEmpty, hEmpty']
    · cases hLevel
    · cases hLevel
    · rw [atPrice_eq_map, atPrice_eq_map live', (Prod.mk.inj (Option.some.inj hLevel)).2]
  · intro hQueue
    rw [levelOf, levelOf, hQueue]

/-- Lists with the same queues have the same orders. -/
theorem perm_of_atPrice (h : ∀ p, atPrice live p = atPrice live' p) : live.Perm live' := by
  rw [List.perm_iff_count]
  intro o
  have hCount : ∀ l : List LiveOrder, (atPrice l o.price).count o = l.count o :=
    fun l => List.count_filter (by simp)
  rw [← hCount, h, hCount]

theorem total_of_atPrice (h : ∀ p, atPrice live p = atPrice live' p) : total live = total live' :=
  ((perm_of_atPrice h).map qty).sum_eq

end LiveOrder

/-- The orders of the two references queue alike at every price. -/
structure LiveBook.Alike (live live' : LiveBook) : Prop where
  queues : ∀ d p, atPrice (live.orders d) p = atPrice (live'.orders d) p
  lastUpdate : live.lastUpdate = live'.lastUpdate

namespace BookSide

variable {κ : Type} [LinearOrder κ] {s r : BookSide κ}

theorem content_eq_iff : s.content = r.content ↔
    (∀ k, (s.ladder.find? k).map (fun node => node.val.view) =
      (r.ladder.find? k).map fun node => node.val.view) ∧ s.aggregate = r.aggregate := by
  have hContent : ∀ s : BookSide κ,
      s.content = ((s.ladder.mapVal fun node => node.val.view).entries, s.aggregate) :=
    fun _ => rfl
  rw [hContent, hContent, Prod.mk.injEq, ← OrdMap.ext_iff]
  refine and_congr_left fun _ => ⟨fun hLadder k => ?_, fun hFind => OrdMap.ext_find? fun k => ?_⟩
  · rw [← OrdMap.find?_mapVal, hLadder, OrdMap.find?_mapVal]
  · rw [OrdMap.find?_mapVal, OrdMap.find?_mapVal, hFind]

end BookSide

namespace OrderBook

variable {book r : OrderBook} {live live' : LiveBook}

/-- The levels, the totals and the time of the book are those of the live orders. -/
structure Shows (book : OrderBook) (live : LiveBook) : Prop where
  levels : ∀ d p, ((book.side d).ladder.find? (toKey d p)).map (fun node => node.val.view) =
    levelOf (live.orders d) p
  aggregate : ∀ d, (book.side d).aggregate = total (live.orders d)
  lastUpdate : book.lastUpdate = live.lastUpdate

theorem Refines.shows (h : book.Refines live) : book.Shows live :=
  ⟨fun d => (h.sides d).ladder, fun d => (h.sides d).aggregate, h.lastUpdate⟩

theorem same_iff_sides : book.same r ↔
    book.lastUpdate = r.lastUpdate ∧ ∀ d, (book.side d).content = (r.side d).content := by
  refine and_congr_right fun _ => ⟨fun h d => ?_, fun h => ⟨h .buy, h .sell⟩⟩
  cases d
  · exact h.1
  · exact h.2

theorem same_iff_levels : book.same r ↔ book.lastUpdate = r.lastUpdate ∧ ∀ d,
    (∀ p, ((book.side d).ladder.find? (toKey d p)).map (fun node => node.val.view) =
      ((r.side d).ladder.find? (toKey d p)).map fun node => node.val.view) ∧
    (book.side d).aggregate = (r.side d).aggregate := by
  rw [same_iff_sides]
  refine and_congr_right fun _ => forall_congr' fun d => ?_
  rw [BookSide.content_eq_iff, (toKey_surjective d).forall]

theorem Shows.of_same (h : r.Shows live) (hSame : book.same r) : book.Shows live := by
  obtain ⟨hTime, hSides⟩ := same_iff_levels.mp hSame
  refine ⟨fun d p => ?_, fun d => ?_, hTime.trans h.lastUpdate⟩
  · rw [(hSides d).1 p, h.levels]
  · rw [(hSides d).2, h.aggregate]

/-- Books are equal exactly when the orders that they show queue alike. -/
theorem Shows.same_iff (h : book.Shows live) (h' : r.Shows live') :
    book.same r ↔ live.Alike live' := by
  rw [same_iff_levels, h.lastUpdate, h'.lastUpdate]
  simp only [h.levels, h'.levels, h.aggregate, h'.aggregate, levelOf_eq_iff]
  constructor
  · rintro ⟨hTime, hSides⟩
    exact ⟨fun d => (hSides d).1, hTime⟩
  · intro hAlike
    exact ⟨hAlike.lastUpdate, fun d => ⟨hAlike.queues d, total_of_atPrice (hAlike.queues d)⟩⟩

theorem refines_run {ticks : List TickRecord}
    (hAdmits : Along (always LiveBook.step) LiveBook.Admits {} ticks) :
    ∃ book, run replayTick {} ticks = some book ∧ book.Refines (ticks.foldl LiveBook.step {}) :=
  Along.simulate (R := Refines)
    (fun _ _ _ _ h ht hStep => Option.some.inj hStep ▸ h.step ht) refines_empty hAdmits
    (run_always LiveBook.step {} ticks)

/-- Replayed snapshots, additions and removals: two sequences end in equal books exactly when they
leave the same orders queued alike, with the same latest change, however each got there. -/
theorem replays_same_iff (ticks ticks' : List TickRecord)
    (hAdmits : Along (always LiveBook.step) LiveBook.Admits {} ticks)
    (hAdmits' : Along (always LiveBook.step) LiveBook.Admits {} ticks') :
    ∃ book book', run replayTick {} ticks = some book ∧ run replayTick {} ticks' = some book' ∧
      (book.same book' ↔
        (ticks.foldl LiveBook.step {}).Alike (ticks'.foldl LiveBook.step {})) := by
  obtain ⟨book, hRun, hRefines⟩ := refines_run hAdmits
  obtain ⟨book', hRun', hRefines'⟩ := refines_run hAdmits'
  exact ⟨book, book', hRun, hRun', hRefines.shows.same_iff hRefines'.shows⟩

/-- Orders come and go one by one. -/
def oneByOne : List TickRecord :=
  [.add ⟨"1", 39628, 1, 1, .buy⟩, .add ⟨"2", 39630, 2, 2, .sell⟩, .add ⟨"3", 39628, 3, 3, .buy⟩,
    .remove ⟨"1", 4, .buy⟩, .add ⟨"4", 39627, 1, 4, .buy⟩]

/-- A snapshot lists what they leave. -/
def allAtOnce : List TickRecord :=
  [.snapshot (.ofSides [⟨"4", 39627, 1, 4, .buy⟩, ⟨"3", 39628, 3, 3, .buy⟩]
    [⟨"2", 39630, 2, 2, .sell⟩])]

theorem oneByOne_same_iff : ∃ book book', run replayTick {} oneByOne = some book ∧
    run replayTick {} allAtOnce = some book' ∧
    (book.same book' ↔
      (oneByOne.foldl LiveBook.step {}).Alike (allAtOnce.foldl LiveBook.step {})) :=
  replays_same_iff oneByOne allAtOnce (by decide +kernel) (by decide +kernel)

end OrderBook

end Arby.PowerTrade
