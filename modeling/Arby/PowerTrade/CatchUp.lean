import Arby.PowerTrade.InStep

/-! A book that is assigned to is in step with the book that it was copied from, and one that is in
step stays so through the replay of ticks that name good ids only. -/

namespace Arby.PowerTrade

open Trading Kit

/-! ### Assignment -/

namespace BookSide

section Assign

variable {κ : Type} [LinearOrder κ] {s r : BookSide κ}

theorem lookup_emplace (cache : OrderCache) (orderId id : String) (entry : CacheEntry) :
    (emplace cache orderId entry).lookup id =
      (cache.lookup id).or (if orderId = id then some entry else none) := by
  unfold emplace
  by_cases hid : orderId = id
  · subst hid
    cases h : cache.lookup orderId with
    | none => simp
    | some e => simp [h]
  · rw [if_neg hid, Option.or_none]
    split
    · rfl
    · exact Finmap.lookup_insert_of_ne _ (Ne.symm hid)

/-- An id that has an entry keeps it, and another gets its first position. -/
theorem lookup_reindex (cache : OrderCache) (ladder : Ladder κ) (id : String) :
    (reindex cache ladder).lookup id =
      (cache.lookup id).or (((positions ladder).find? (·.1 = id)).map Prod.snd) := by
  unfold reindex
  generalize positions ladder = ps
  induction ps generalizing cache with
  | nil => simp
  | cons p ps ih =>
    rw [List.foldl_cons, ih, lookup_emplace]
    by_cases hid : p.1 = id <;> cases cache.lookup id <;> simp [hid]

theorem mem_positions {e : CacheEntry} {id : String} : (id, e) ∈ positions s.ladder ↔
    ∃ qty, s.RestsAt e ⟨id, qty⟩ := by
  simp only [positions, List.mem_flatMap, List.mem_map, OrdMap.mem_values, Prod.mk.injEq]
  constructor
  · rintro ⟨level, ⟨price, hp⟩, order, ho, rfl, rfl⟩
    exact ⟨order.val.qty, price, level.val, hp, ho⟩
  · rintro ⟨qty, price, detail, hp, ho⟩
    exact ⟨_, ⟨price, hp⟩, _, ho, rfl, rfl⟩

theorem restsAt_assign {e : CacheEntry} {o : OrderQty} : (s.assign r).RestsAt e o ↔
    ∃ f, e = ⟨s.fresh + f.ilevel, s.fresh + f.iqty⟩ ∧ r.RestsAt f o := by
  constructor
  · rintro ⟨price, detail, hp, ho⟩
    obtain ⟨node, hNode, hCopy⟩ := Option.map_eq_some_iff.mp ((OrdMap.find?_mapVal ..).symm.trans hp)
    obtain ⟨hLevel, rfl⟩ := Node.mk.inj hCopy
    obtain ⟨order, hOrder, hCopy⟩ := List.mem_map.mp ho
    obtain ⟨hQty, rfl⟩ := Node.mk.inj hCopy
    refine ⟨⟨node.addr, order.addr⟩, ?_, price, node.val, hNode, hOrder⟩
    rw [hLevel, hQty]
  · rintro ⟨f, rfl, price, detail, hp, ho⟩
    refine ⟨price, _, (OrdMap.find?_mapVal ..).trans (by rw [hp]; rfl), ?_⟩
    exact List.mem_map.mpr ⟨_, ho, rfl⟩

theorem cache_assign {id : String} {e : CacheEntry} (he : (s.assign r).cache.lookup id = some e) :
    s.cache.lookup id = some e ∨ s.cache.lookup id = none ∧ ∃ qty, (s.assign r).RestsAt e ⟨id, qty⟩ := by
  have hLookup := (lookup_reindex s.cache (s.assign r).ladder id).symm.trans he
  cases hs : s.cache.lookup id with
  | some e' =>
    rw [hs, Option.some_or] at hLookup
    exact .inl hLookup
  | none =>
    rw [hs, Option.none_or] at hLookup
    obtain ⟨p, hp, rfl⟩ := Option.map_eq_some_iff.mp hLookup
    have hid : p.1 = id := by simpa using List.find?_some hp
    exact .inr ⟨rfl, mem_positions.mp (hid ▸ List.mem_of_find?_eq_some hp)⟩

theorem Placed.assign (hs : s.Placed) (hr : r.Placed) : (s.assign r).Placed := by
  have hFind : ∀ p n, (s.assign r).ladder.find? p = some n → ∃ m, r.ladder.find? p = some m ∧
      n.addr = s.fresh + m.addr ∧
      n.val.orders = m.val.orders.map fun o => ⟨s.fresh + o.addr, o.val⟩ := by
    intro p n hn
    obtain ⟨m, hm, rfl⟩ := Option.map_eq_some_iff.mp ((OrdMap.find?_mapVal ..).symm.trans hn)
    exact ⟨m, hm, rfl, rfl⟩
  refine ⟨fun k k' n n' h h' ha => ?_, fun p n hn => ?_, fun p n hn => ?_, fun id e he => ?_⟩
  · obtain ⟨m, hm, hAddr, -⟩ := hFind k n h
    obtain ⟨m', hm', hAddr', -⟩ := hFind k' n' h'
    exact hr.levels k k' m m' hm hm' (by omega)
  · obtain ⟨m, hm, -, hOrders⟩ := hFind p n hn
    have hNodup := (hr.orders p m hm).map (f := fun a => s.fresh + a) fun a b hab => by
      dsimp only at hab
      omega
    rw [List.map_map] at hNodup
    rw [Distinct, hOrders, List.map_map]
    exact hNodup
  · obtain ⟨m, hm, hAddr, hOrders⟩ := hFind p n hn
    obtain ⟨hLevel, hQueue⟩ := hr.below p m hm
    change n.addr < s.fresh + r.fresh ∧ ∀ o ∈ n.val.orders, o.addr < s.fresh + r.fresh
    refine ⟨by omega, fun o ho => ?_⟩
    rw [hOrders] at ho
    obtain ⟨o', ho', rfl⟩ := List.mem_map.mp ho
    have := hQueue o' ho'
    dsimp only
    omega
  · change e.ilevel < s.fresh + r.fresh ∧ e.iqty < s.fresh + r.fresh
    rcases cache_assign he with he | ⟨-, qty, hRests⟩
    · have := hs.cached id e he
      omega
    · rw [restsAt_assign] at hRests
      obtain ⟨f, rfl, hf⟩ := hRests
      have := hr.restsAt_below hf
      dsimp only
      omega

theorem Placed.stale_assign (hs : s.Placed) (hr : r.Placed) {id : String} {e : CacheEntry}
    (he : s.cache.lookup id = some e) : (s.assign r).stale id = true := by
  refine (hs.assign hr).stale_iff.mpr ⟨e, ?_, fun o ho => ?_⟩
  · refine (lookup_reindex s.cache (s.assign r).ladder id).trans ?_
    rw [he, Option.some_or]
  · rw [restsAt_assign] at ho
    obtain ⟨f, rfl, -⟩ := ho
    have := (hs.cached id _ he).1
    dsimp only at this
    omega

theorem matches_assign (hs : s.Placed) (hr : r.Placed) (hi : r.Indexed) :
    Matches (fun p q => p = s.fresh + q ∧ q < r.fresh) (fun id => !(s.assign r).stale id)
      (s.assign r) r where
  addrs := Renaming.shift s.fresh r.fresh
  ladder := by
    unfold OrdMap.Rel
    change List.Forall₂ _ (r.ladder.entries.map _) r.ladder.entries
    rw [List.forall₂_map_left_iff, List.forall₂_same]
    intro e he
    obtain ⟨hLevel, hQueue⟩ := hr.below e.1 e.2 (OrdMap.find?_eq_some.mpr he)
    refine ⟨rfl, ⟨rfl, hLevel⟩, rfl, ?_⟩
    change List.Forall₂ _ (e.2.val.orders.map _) e.2.val.orders
    rw [List.forall₂_map_left_iff, List.forall₂_same]
    exact fun o ho => ⟨⟨rfl, hQueue o ho⟩, rfl⟩
  cache id hid := by
    have hNot : (s.assign r).stale id = false := by simpa using hid
    cases ha : (s.assign r).cache.lookup id with
    | none =>
      cases hf : r.cache.lookup id with
      | none => exact .none
      | some f =>
        exfalso
        obtain ⟨qty, hRests⟩ := (hi id f).mp hf
        have hMem : (id, ⟨s.fresh + f.ilevel, s.fresh + f.iqty⟩) ∈
            positions (s.assign r).ladder := by
          rw [mem_positions]
          exact ⟨qty, restsAt_assign.mpr ⟨f, rfl, hRests⟩⟩
        have hLookup := (lookup_reindex s.cache (s.assign r).ladder id).symm.trans ha
        have hFind := (Option.or_eq_none_iff.mp hLookup).2
        rw [Option.map_eq_none_iff, List.find?_eq_none] at hFind
        exact hFind _ hMem (by simp)
    | some e =>
      rcases cache_assign ha with he | ⟨-, qty, hRests⟩
      · rw [hs.stale_assign hr he] at hNot
        cases hNot
      · rw [restsAt_assign] at hRests
        obtain ⟨f, rfl, hf⟩ := hRests
        rw [(hi id f).mpr ⟨qty, hf⟩]
        obtain ⟨hLevel, hQty⟩ := hr.restsAt_below hf
        exact .some ⟨⟨rfl, hLevel⟩, ⟨rfl, hQty⟩⟩
  aggregate := rfl

theorem inStep_assign (hs : s.Placed) (hr : r.Placed) (hi : r.Indexed) :
    InStep (fun id => !(s.assign r).stale id) (s.assign r) r where
  corresponds := ⟨_, matches_assign hs hr hi⟩
  placed := hs.assign hr
  bad id hid := by simpa using hid

end Assign

theorem InStep.addAll {d : SideType} {s r : BookSide (Key d)} (h : InStep (fun _ => true) s r)
    (orders : List Add) : InStep (fun _ => true) (s.addAll orders) (r.addAll orders) := by
  induction orders generalizing s r with
  | nil => exact h
  | cons a orders ih => exact ih (h.add _ _)

end BookSide

/-! ### Replay -/

namespace OrderBook

/-- The books correspond on the good ids of each side, and the entries of the others are stale. -/
structure InStep (good : SideType → String → Bool) (book r : OrderBook) : Prop where
  lastUpdate : book.lastUpdate = r.lastUpdate
  sides : ∀ d, (book.side d).InStep (good d) (r.side d)

/-- The ids whose cache entries are not stale. -/
def notStale (book : OrderBook) (d : SideType) (id : String) : Bool := !(book.side d).stale id

/-- The good ids after a tick: a snapshot clears the caches, and an added id gets a new entry. -/
def goodAfter (good : SideType → String → Bool) : TickRecord → SideType → String → Bool
  | .snapshot _ => fun _ _ => true
  | .add a => fun d id => good d id || (decide (d = a.side) && decide (id = a.orderId))
  | .remove _ => good
  | .execute _ => good

/-- The tick looks up no id but a good one. -/
def namesGood (good : SideType → String → Bool) : TickRecord → Bool
  | .snapshot _ => true
  | .add _ => true
  | .remove r => good r.side r.orderId
  | .execute e => good e.side e.orderId

/-- Every tick looks up no id but those that are good by then. -/
def namesOnly (good : SideType → String → Bool) : List TickRecord → Bool
  | [] => true
  | t :: ticks => namesGood good t && namesOnly (goodAfter good t) ticks

variable {good : SideType → String → Bool} {book r r' : OrderBook} {t : TickRecord}

theorem InStep.same (h : InStep good book r) : book.same r := by
  have hContent : ∀ d, (book.side d).content = (r.side d).content := by
    intro d
    obtain ⟨ρ, hρ⟩ := (h.sides d).corresponds
    exact hρ.content_eq
  exact ⟨h.lastUpdate, hContent .buy, hContent .sell⟩

theorem InStep.settle (h : InStep good book r) : InStep book.notStale book r :=
  ⟨h.lastUpdate, fun d => (h.sides d).settle⟩

theorem inStep_executeAggregate {good : String → Bool} {d : SideType} {s s' : BookSide (Key d)}
    (h : s.InStep good s') (qty : QtyType) :
    BookSide.InStep good { s with aggregate := OrderBook.executeAggregate d s.aggregate qty }
      { s' with aggregate := OrderBook.executeAggregate d s'.aggregate qty } := by
  obtain ⟨ρ, hρ⟩ := h.corresponds
  rw [hρ.aggregate]
  exact h.setAggregate _

theorem InStep.remove {tick : Remove} (h : InStep good book r)
    (hGood : good tick.side tick.orderId = true) (hStep : r.remove tick = some r') :
    ∃ book', book.remove tick = some book' ∧ InStep good book' r' := by
  have hSide := h.sides tick.side
  rcases remove_cases hStep with ⟨hNone, rfl⟩ | ⟨f, s', hf, hs', hSelf, hOther, hTime⟩
  · obtain ⟨-, -, hAbsent, -⟩ := hSide.lookup hGood
    exact ⟨book, remove_absent (hAbsent hNone), h⟩
  · obtain ⟨e, s, he, hs, hInStep⟩ := hSide.remove hGood hf hs'
    obtain ⟨book', hBook, hSelf', hOther', hTime'⟩ := remove_found he hs
    refine ⟨book', hBook, by rw [hTime, hTime', h.lastUpdate], fun d => ?_⟩
    by_cases hd : d = tick.side
    · subst hd
      rw [hSelf, hSelf']
      exact hInStep
    · rw [hOther d hd, hOther' d hd]
      exact h.sides d

theorem InStep.execute {tick : Execute} (h : InStep good book r)
    (hGood : good tick.side tick.orderId = true) (hStep : r.execute tick = some r') :
    ∃ book', book.execute tick = some book' ∧ InStep good book' r' := by
  have hSide := h.sides tick.side
  rcases execute_cases hStep with ⟨hNone, rfl⟩ | ⟨f, s', hf, hs', hSelf, hOther, hTime⟩
  · obtain ⟨-, -, hAbsent, -⟩ := hSide.lookup hGood
    exact ⟨book, execute_absent (hAbsent hNone), h⟩
  · obtain ⟨e, s, he, hs, hInStep⟩ := hSide.execute hGood hf hs'
    obtain ⟨book', hBook, hSelf', hOther', hTime'⟩ := execute_found he hs
    refine ⟨book', hBook, by rw [hTime, hTime', h.lastUpdate], fun d => ?_⟩
    by_cases hd : d = tick.side
    · subst hd
      rw [hSelf, hSelf']
      exact inStep_executeAggregate hInStep tick.qty
    · rw [hOther d hd, hOther' d hd]
      exact inStep_executeAggregate (h.sides d) tick.qty

theorem InStep.replayTick (h : InStep good book r) (hNames : namesGood good t = true)
    (hStep : r.replayTick t = some r') :
    ∃ book', book.replayTick t = some book' ∧ InStep (goodAfter good t) book' r' := by
  cases t with
  | snapshot snap =>
    refine ⟨_, rfl, ?_, fun d => ?_⟩
    · obtain rfl := Option.some.inj hStep
      rw [lastUpdate_foldl_add, lastUpdate_foldl_add, lastUpdate_foldl_add, lastUpdate_foldl_add]
      rfl
    · rw [side_snapshot book snap rfl, side_snapshot r snap hStep]
      exact (BookSide.inStep_reset _ _).addAll _
  | add a =>
    obtain rfl := Option.some.inj hStep
    refine ⟨_, rfl, by rw [lastUpdate_add, lastUpdate_add, h.lastUpdate], fun d => ?_⟩
    by_cases hd : d = a.side
    · subst hd
      rw [side_add_self, side_add_self]
      have hGood : goodAfter good (.add a) a.side =
          fun id => good a.side id || decide (id = a.order.orderid) := by
        funext id
        simp only [goodAfter, decide_true, Bool.true_and]
        rfl
      rw [hGood]
      exact (h.sides a.side).add (toKey a.side a.price) a.order
    · rw [side_add_ne book a hd, side_add_ne r a hd]
      simpa [goodAfter, hd] using h.sides d
  | remove tick => exact h.remove hNames hStep
  | execute tick => exact h.execute hNames hStep

theorem InStep.run {ticks : List TickRecord} (h : InStep good book r)
    (hNames : namesOnly good ticks = true) (hRun : run OrderBook.replayTick r ticks = some r') :
    ∃ good' book', Kit.run OrderBook.replayTick book ticks = some book' ∧ InStep good' book' r' := by
  induction ticks generalizing good book r with
  | nil =>
    obtain rfl := Option.some.inj hRun
    exact ⟨good, book, rfl, h⟩
  | cons t ticks ih =>
    obtain ⟨hHead, hTail⟩ := Bool.and_eq_true_iff.mp hNames
    obtain ⟨r₁, hr₁, hRest⟩ := Option.bind_eq_some_iff.mp hRun
    obtain ⟨book₁, hBook₁, h₁⟩ := h.replayTick hHead hr₁
    obtain ⟨good', book', hBook', h'⟩ := ih h₁ hTail hRest
    exact ⟨good', book', by rw [run_cons, hBook₁]; exact hBook', h'⟩

theorem placed_assign (hb : book.Placed) (hr : r.Placed) : (book.assign r).Placed := by
  intro d
  cases d
  · exact (hb .buy).assign (hr .buy)
  · exact (hb .sell).assign (hr .sell)

theorem inStep_assign (hb : book.Placed) (hr : r.Placed) (hi : r.Indexed) :
    InStep (book.assign r).notStale (book.assign r) r where
  lastUpdate := rfl
  sides d := by
    cases d
    · exact BookSide.inStep_assign (hb .buy) (hr .buy) (hi .buy)
    · exact BookSide.inStep_assign (hb .sell) (hr .sell) (hi .sell)

/-- An assigned book equals its source, whatever the caches. -/
theorem same_assign (book r : OrderBook) : (book.assign r).same r := by
  have hContent : ∀ {κ : Type} [LinearOrder κ] (s q : BookSide κ), (s.assign q).content = q.content := by
    intro κ _ s q
    simp [BookSide.content, BookSide.assign, BookSide.copyLadder, OrdMap.mapVal, Function.comp_def]
  exact ⟨rfl, hContent _ _, hContent _ _⟩

end OrderBook

end Arby.PowerTrade
