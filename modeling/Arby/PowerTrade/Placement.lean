import Arby.PowerTrade.OrderBook

/-! Where the orders of a side rest. `Placed` says that addresses name nodes: no two levels and no
two orders of a level share one, and none is handed out twice. It holds of every side that the
operations reach, copies included. `Indexed` says that the cache holds the position of every
resting order and nothing else. -/

namespace Arby.PowerTrade.BookSide

open Trading Kit

variable {κ : Type} [LinearOrder κ]

/-- Order `order` rests in the node that `entry` refers to. -/
def RestsAt (s : BookSide κ) (entry : CacheEntry) (order : OrderQty) : Prop :=
  ∃ price detail, s.ladder.find? price = some ⟨entry.ilevel, detail⟩ ∧
    ⟨entry.iqty, order⟩ ∈ detail.orders

structure Placed (s : BookSide κ) : Prop where
  levels : s.ladder.AddrInj
  orders : ∀ price node, s.ladder.find? price = some node → Distinct node.val.orders
  below : ∀ price node, s.ladder.find? price = some node →
    node.addr < s.fresh ∧ ∀ order ∈ node.val.orders, order.addr < s.fresh
  cached : ∀ id entry, s.cache.lookup id = some entry →
    entry.ilevel < s.fresh ∧ entry.iqty < s.fresh

/-- The cache holds the positions of the resting orders. -/
def Indexed (s : BookSide κ) : Prop :=
  ∀ id entry, s.cache.lookup id = some entry ↔ ∃ qty, s.RestsAt entry ⟨id, qty⟩

/-- Every cache entry refers to a resting order of its id. Unlike `Indexed`, this also holds when
an id rests more than once. -/
def Linked (s : BookSide κ) : Prop :=
  ∀ id entry, s.cache.lookup id = some entry → ∃ qty, s.RestsAt entry ⟨id, qty⟩

/-- The level of `price`, empty when the ladder has none. -/
def detail (s : BookSide κ) (price : κ) : LevelData :=
  (s.ladder.find? price).elim {} Node.val

theorem placed_empty (n : ℕ) : Placed ({ fresh := n } : BookSide κ) where
  levels := by intro _ _ _ _ h; cases h
  orders := by intro _ _ h; cases h
  below := by intro _ _ h; cases h
  cached := by intro _ _ h; simp at h

theorem indexed_empty (n : ℕ) : Indexed ({ fresh := n } : BookSide κ) := by
  intro id entry
  refine ⟨fun h => by simp at h, fun ⟨_, _, _, h, _⟩ => by cases h⟩

section Placed

variable {s : BookSide κ}

theorem Placed.deref (h : s.Placed) {entry : CacheEntry} {detail : LevelData} {order : OrderQty} :
    s.deref entry = some (detail, order) ↔
      ∃ price, s.ladder.find? price = some ⟨entry.ilevel, detail⟩ ∧
        ⟨entry.iqty, order⟩ ∈ detail.orders := by
  simp only [BookSide.deref, Option.bind_eq_bind, Option.bind_eq_some_iff, Option.pure_def,
    Option.some.injEq, Prod.mk.injEq]
  constructor
  · rintro ⟨d, hd, o, ho, rfl, rfl⟩
    obtain ⟨price, hp⟩ := OrdMap.exists_of_deref hd
    exact ⟨price, hp, mem_of_deref ho⟩
  · rintro ⟨price, hp, ho⟩
    exact ⟨detail, h.levels.deref hp, order, (h.orders price _ hp).deref.mpr ho, rfl, rfl⟩

theorem Placed.restsAt (h : s.Placed) {entry : CacheEntry} {order : OrderQty} :
    s.RestsAt entry order ↔ ∃ detail, s.deref entry = some (detail, order) := by
  simp only [RestsAt, h.deref]
  exact exists_comm

theorem Placed.restsAt_below (h : s.Placed) {e : CacheEntry} {o : OrderQty} (hr : s.RestsAt e o) :
    e.ilevel < s.fresh ∧ e.iqty < s.fresh := by
  obtain ⟨price, detail, hp, ho⟩ := hr
  obtain ⟨hLevel, hOrders⟩ := h.below price _ hp
  exact ⟨hLevel, hOrders _ ho⟩

theorem Placed.restsAt_unique (h : s.Placed) {entry : CacheEntry} {o o' : OrderQty}
    (ho : s.RestsAt entry o) (ho' : s.RestsAt entry o') : o = o' := by
  obtain ⟨d, hd⟩ := h.restsAt.mp ho
  obtain ⟨d', hd'⟩ := h.restsAt.mp ho'
  exact (Prod.mk.inj (Option.some.inj (hd.symm.trans hd'))).2

theorem rests_iff {id : String} :
    s.rests id = true ↔ ∃ entry qty, s.RestsAt entry ⟨id, qty⟩ := by
  simp only [rests, List.any_eq_true, decide_eq_true_eq, OrdMap.mem_values]
  constructor
  · rintro ⟨level, ⟨price, hp⟩, order, ho, rfl⟩
    exact ⟨⟨level.addr, order.addr⟩, order.val.qty, price, level.val, hp, ho⟩
  · rintro ⟨entry, qty, price, detail, hp, ho⟩
    exact ⟨_, ⟨price, hp⟩, _, ho, rfl⟩

theorem Indexed.rests_iff (hi : s.Indexed) {id : String} :
    s.rests id = true ↔ (s.cache.lookup id).isSome := by
  rw [BookSide.rests_iff, Option.isSome_iff_exists]
  exact ⟨fun ⟨e, q, h⟩ => ⟨e, (hi id e).mpr ⟨q, h⟩⟩, fun ⟨e, h⟩ => ⟨e, (hi id e).mp h⟩⟩

theorem Indexed.unique (hi : s.Indexed) {id : String} {e e' : CacheEntry} {q q' : QtyType}
    (h : s.RestsAt e ⟨id, q⟩) (h' : s.RestsAt e' ⟨id, q'⟩) : e = e' :=
  Option.some.inj (((hi id e).mpr ⟨q, h⟩).symm.trans ((hi id e').mpr ⟨q', h'⟩))

end Placed

theorem Indexed.linked {s : BookSide κ} (hi : s.Indexed) : s.Linked := fun id e => (hi id e).mp

/-! ### The level of a price -/

section Level

variable {s : BookSide κ} {price : κ}

theorem level_of_find {node : Node LevelData} (h : s.ladder.find? price = some node) :
    s.level price = (s, node.addr) := by
  unfold level; rw [h]

theorem detail_of_find {node : Node LevelData} (h : s.ladder.find? price = some node) :
    s.detail price = node.val := by
  rw [detail, h]; rfl

theorem detail_of_none (h : s.ladder.find? price = none) : s.detail price = {} := by
  rw [detail, h]; rfl

@[simp] theorem level_cache : (s.level price).1.cache = s.cache := by
  unfold level; split <;> rfl

@[simp] theorem level_aggregate : (s.level price).1.aggregate = s.aggregate := by
  unfold level; split <;> rfl

theorem level_fresh : s.fresh ≤ (s.level price).1.fresh := by
  unfold level; split <;> simp

theorem find?_level_self :
    (s.level price).1.ladder.find? price = some ⟨(s.level price).2, s.detail price⟩ := by
  unfold level detail
  split <;> rename_i h
  · rw [h]; rfl
  · rw [h]; simp

theorem find?_level_ne {p : κ} (hp : p ≠ price) :
    (s.level price).1.ladder.find? p = s.ladder.find? p := by
  unfold level
  split
  · rfl
  · exact OrdMap.find?_insert_ne _ hp _

theorem Placed.level (h : s.Placed) (price : κ) : (s.level price).1.Placed := by
  unfold BookSide.level
  split
  · exact h
  · have hNode : ∀ {p : κ} {node : Node LevelData},
        (s.ladder.insert price ⟨s.fresh, {}⟩).find? p = some node →
        node = ⟨s.fresh, {}⟩ ∨ s.ladder.find? p = some node := by
      intro p node hp
      by_cases hpp : p = price
      · subst hpp
        rw [OrdMap.find?_insert_self] at hp
        exact .inl (Option.some.inj hp).symm
      · rw [OrdMap.find?_insert_ne _ hpp] at hp
        exact .inr hp
    refine ⟨h.levels.insert (fun p n hp => (h.below p n hp).1.ne) price, fun p n hp => ?_,
      fun p n hp => ?_, fun id e he => ?_⟩
    · rcases hNode hp with rfl | hp
      · exact List.nodup_nil
      · exact h.orders p n hp
    · rcases hNode hp with rfl | hp
      · exact ⟨Nat.lt_succ_self _, by simp⟩
      · obtain ⟨h₁, h₂⟩ := h.below p n hp
        exact ⟨Nat.lt_succ_of_lt h₁, fun o ho => Nat.lt_succ_of_lt (h₂ o ho)⟩
    · obtain ⟨h₁, h₂⟩ := h.cached id e he
      exact ⟨Nat.lt_succ_of_lt h₁, Nat.lt_succ_of_lt h₂⟩

end Level

/-! ### Addition -/

section Add

variable {s : BookSide κ} {price : κ} {order : OrderQty}

/-- The entry that `add` puts in the cache. -/
def newEntry (s : BookSide κ) (price : κ) : CacheEntry := ⟨(s.level price).2, (s.level price).1.fresh⟩

@[simp] theorem cache_add : (s.add price order).cache =
    s.cache.insert order.orderid (s.newEntry price) := by
  simp [add, append, newEntry]

@[simp] theorem aggregate_add : (s.add price order).aggregate = s.aggregate + order.qty := by
  simp [add, append]

theorem find?_add_self : (s.add price order).ladder.find? price =
    some ⟨(s.level price).2,
      { aggregateDepth := (s.detail price).aggregateDepth + order.qty
        orders := (s.detail price).orders ++ [⟨(s.newEntry price).iqty, order⟩] }⟩ :=
  OrdMap.AddrInj.find?_modifyNode_self find?_level_self _

theorem Placed.find?_add_ne (h : s.Placed) {p : κ} (hp : p ≠ price) :
    (s.add price order).ladder.find? p = s.ladder.find? p :=
  ((h.level price).levels.find?_modifyNode_ne find?_level_self hp _).trans (find?_level_ne hp)

theorem Placed.detail_below (h : s.Placed) (price : κ) :
    Distinct (s.detail price).orders ∧ ∀ o ∈ (s.detail price).orders, o.addr < s.fresh := by
  unfold detail
  cases hp : s.ladder.find? price with
  | none => exact ⟨List.nodup_nil, by simp⟩
  | some node => exact ⟨h.orders price node hp, (h.below price node hp).2⟩

theorem Placed.add (h : s.Placed) (price : κ) (order : OrderQty) : (s.add price order).Placed := by
  have hLevel := h.level price
  have hFresh : s.fresh ≤ (s.level price).1.fresh := level_fresh
  have hDetail := h.detail_below price
  have hAddr : (s.level price).2 < (s.level price).1.fresh :=
    (hLevel.below price _ find?_level_self).1
  have hSucc : (s.add price order).fresh = (s.level price).1.fresh + 1 := rfl
  refine ⟨hLevel.levels.modify _ _, fun p n hp => ?_, fun p n hp => ?_, fun id e he => ?_⟩
  · by_cases hpp : p = price
    · subst hpp
      rw [find?_add_self] at hp
      rw [← Option.some.inj hp]
      exact hDetail.1.append fun m hm => by
        have := hDetail.2 m hm
        simp only [newEntry]
        omega
    · rw [h.find?_add_ne hpp] at hp
      exact h.orders p n hp
  · rw [hSucc]
    by_cases hpp : p = price
    · subst hpp
      rw [find?_add_self] at hp
      rw [← Option.some.inj hp]
      refine ⟨by dsimp only; omega, fun o ho => ?_⟩
      rcases List.mem_append.mp ho with ho | ho
      · have := hDetail.2 o ho
        omega
      · rw [List.mem_singleton.mp ho]
        simp only [newEntry]
        omega
    · rw [h.find?_add_ne hpp] at hp
      obtain ⟨h₁, h₂⟩ := h.below p n hp
      exact ⟨by omega, fun o ho => by have := h₂ o ho; omega⟩
  · rw [hSucc]
    rw [cache_add] at he
    by_cases hid : id = order.orderid
    · subst hid
      rw [Finmap.lookup_insert] at he
      rw [← Option.some.inj he]
      simp only [newEntry]
      omega
    · rw [Finmap.lookup_insert_of_ne _ hid] at he
      have := h.cached id e he
      omega

theorem Placed.restsAt_add (h : s.Placed) {e : CacheEntry} {o : OrderQty} :
    (s.add price order).RestsAt e o ↔
      s.RestsAt e o ∨ e = s.newEntry price ∧ o = order := by
  constructor
  · rintro ⟨p, d, hp, ho⟩
    by_cases hpp : p = price
    · subst hpp
      rw [find?_add_self, Option.some.injEq, Node.mk.injEq] at hp
      obtain ⟨ha, rfl⟩ := hp
      rcases List.mem_append.mp ho with ho | ho
      · left
        cases hs : s.ladder.find? p with
        | none => simp [detail_of_none hs] at ho
        | some node =>
          rw [level_of_find hs] at ha
          rw [detail_of_find hs] at ho
          exact ⟨p, node.val, by rw [hs, ← ha], ho⟩
      · right
        obtain ⟨hq, rfl⟩ := Node.mk.inj (List.mem_singleton.mp ho)
        exact ⟨by cases e; simp_all [newEntry], rfl⟩
    · rw [h.find?_add_ne hpp] at hp
      exact .inl ⟨p, d, hp, ho⟩
  · rintro (⟨p, d, hp, ho⟩ | ⟨rfl, rfl⟩)
    · by_cases hpp : p = price
      · subst hpp
        have hSelf : (s.add p order).ladder.find? p = _ := find?_add_self
        rw [level_of_find hp, detail_of_find hp] at hSelf
        exact ⟨p, _, hSelf, List.mem_append_left _ ho⟩
      · exact ⟨p, d, by rw [h.find?_add_ne hpp]; exact hp, ho⟩
    · exact ⟨price, _, find?_add_self, by simp⟩

theorem Indexed.add (h : s.Placed) (hi : s.Indexed) (price : κ) (order : OrderQty)
    (hNew : s.rests order.orderid = false) : (s.add price order).Indexed := by
  intro id e
  simp only [cache_add, h.restsAt_add]
  by_cases hid : id = order.orderid
  · subst hid
    rw [Finmap.lookup_insert, Option.some.injEq]
    constructor
    · rintro rfl
      exact ⟨order.qty, .inr ⟨rfl, rfl⟩⟩
    · rintro ⟨q, hq | ⟨rfl, -⟩⟩
      · exact absurd (BookSide.rests_iff.mpr ⟨e, q, hq⟩) (by simp [hNew])
      · rfl
  · rw [Finmap.lookup_insert_of_ne _ hid, hi id e]
    constructor
    · rintro ⟨q, hq⟩
      exact ⟨q, .inl hq⟩
    · rintro ⟨q, hq | ⟨-, rfl⟩⟩
      · exact ⟨q, hq⟩
      · exact absurd rfl hid

theorem Linked.add (h : s.Placed) (hl : s.Linked) (price : κ) (order : OrderQty) :
    (s.add price order).Linked := by
  intro id e he
  rw [cache_add] at he
  by_cases hid : id = order.orderid
  · subst hid
    rw [Finmap.lookup_insert] at he
    exact ⟨order.qty, h.restsAt_add.mpr (.inr ⟨(Option.some.inj he).symm, rfl⟩)⟩
  · rw [Finmap.lookup_insert_of_ne _ hid] at he
    obtain ⟨q, hq⟩ := hl id e he
    exact ⟨q, h.restsAt_add.mpr (.inl hq)⟩

end Add

/-! ### Removal -/

section Erase

variable {s : BookSide κ} {entry : CacheEntry} {d c : LevelData} {price : κ}

theorem find?_eraseOrder_self (hp : s.ladder.find? price = some ⟨entry.ilevel, d⟩) :
    (s.eraseOrder entry c).ladder.find? price =
      if eraseNode c.orders entry.iqty = [] then none
      else some ⟨entry.ilevel, { c with orders := eraseNode c.orders entry.iqty }⟩ := by
  simp only [eraseOrder]
  split
  · exact OrdMap.find?_eraseNode hp
  · exact OrdMap.AddrInj.find?_modifyNode_self hp _

theorem Placed.find?_eraseOrder_ne (h : s.Placed)
    (hp : s.ladder.find? price = some ⟨entry.ilevel, d⟩) {p : κ} (hne : p ≠ price) :
    (s.eraseOrder entry c).ladder.find? p = s.ladder.find? p := by
  simp only [eraseOrder]
  split
  · exact h.levels.find?_eraseNode_ne hp hne
  · exact h.levels.find?_modifyNode_ne hp hne _

theorem Placed.eraseOrder (h : s.Placed) (hp : s.ladder.find? price = some ⟨entry.ilevel, d⟩)
    (hd : c.orders = d.orders) : (s.eraseOrder entry c).Placed := by
  have hNode : ∀ p n, (s.eraseOrder entry c).ladder.find? p = some n →
      (p = price ∧ n = ⟨entry.ilevel, { c with orders := eraseNode d.orders entry.iqty }⟩) ∨
        s.ladder.find? p = some n := by
    intro p n hn
    by_cases hpp : p = price
    · subst hpp
      rw [find?_eraseOrder_self hp, hd] at hn
      split at hn
      · cases hn
      · exact .inl ⟨rfl, (Option.some.inj hn).symm⟩
    · rw [h.find?_eraseOrder_ne hp hpp] at hn
      exact .inr hn
  refine ⟨?_, fun p n hn => ?_, fun p n hn => ?_, h.cached⟩
  · simp only [BookSide.eraseOrder]
    split
    · exact h.levels.erase _
    · exact h.levels.modify _ _
  · rcases hNode p n hn with ⟨rfl, rfl⟩ | hn
    · exact (h.orders p _ hp).erase _
    · exact h.orders p n hn
  · rcases hNode p n hn with ⟨rfl, rfl⟩ | hn
    · obtain ⟨h₁, h₂⟩ := h.below p _ hp
      exact ⟨h₁, fun o ho => h₂ o (mem_eraseNode.mp ho).1⟩
    · exact h.below p n hn

theorem Placed.restsAt_eraseOrder (h : s.Placed)
    (hp : s.ladder.find? price = some ⟨entry.ilevel, d⟩) (hd : c.orders = d.orders)
    {e : CacheEntry} {o : OrderQty} :
    (s.eraseOrder entry c).RestsAt e o ↔ s.RestsAt e o ∧ e ≠ entry := by
  constructor
  · rintro ⟨p, dp, hdp, ho⟩
    by_cases hpp : p = price
    · subst hpp
      rw [find?_eraseOrder_self hp, hd] at hdp
      split at hdp
      · cases hdp
      · obtain ⟨hLevel, rfl⟩ := Node.mk.inj (Option.some.inj hdp)
        obtain ⟨hMem, hAddr⟩ := mem_eraseNode.mp ho
        refine ⟨⟨p, d, by rw [hp, hLevel], hMem⟩, fun he => hAddr ?_⟩
        rw [he]
    · rw [h.find?_eraseOrder_ne hp hpp] at hdp
      refine ⟨⟨p, dp, hdp, ho⟩, fun he => hpp ?_⟩
      exact h.levels p price _ _ hdp hp (by rw [he])
  · rintro ⟨⟨p, dp, hdp, ho⟩, he⟩
    by_cases hpp : p = price
    · subst hpp
      obtain ⟨hLevel, rfl⟩ := Node.mk.inj (Option.some.inj (hdp.symm.trans hp))
      have hMem : ⟨e.iqty, o⟩ ∈ eraseNode dp.orders entry.iqty := by
        refine mem_eraseNode.mpr ⟨ho, fun hq => he ?_⟩
        cases e
        cases entry
        simp_all
      have hSelf := find?_eraseOrder_self (c := c) hp
      rw [hd, if_neg (List.ne_nil_of_mem hMem), ← hLevel] at hSelf
      exact ⟨p, _, hSelf, hMem⟩
    · exact ⟨p, dp, by rw [h.find?_eraseOrder_ne hp hpp]; exact hdp, ho⟩

theorem Placed.eraseCache (h : s.Placed) (id : String) (aggregate : QtyType) :
    Placed { s with aggregate, cache := s.cache.erase id } where
  levels := h.levels
  orders := h.orders
  below := h.below
  cached ic e he := by
    by_cases hid : ic = id
    · subst hid
      simp at he
    · exact h.cached ic e (by rwa [Finmap.lookup_erase_ne hid] at he)

/-- The order of `id` gone from the ladder and the entry of `id` from the cache. -/
theorem Indexed.eraseCache {s' : BookSide κ} (h : s.Placed) (hi : s.Indexed) {id : String}
    (he : s.cache.lookup id = some entry) (hCache : s'.cache = s.cache.erase id)
    (hRests : ∀ e o, s'.RestsAt e o ↔ s.RestsAt e o ∧ e ≠ entry) : s'.Indexed := by
  obtain ⟨q, hq⟩ := (hi id entry).mp he
  intro ic e
  rw [hCache]
  simp only [hRests]
  by_cases hid : ic = id
  · subst hid
    rw [Finmap.lookup_erase]
    refine ⟨fun h => (nomatch h), fun ⟨q', hq', hne⟩ => absurd ?_ hne⟩
    exact hi.unique hq' hq
  · rw [Finmap.lookup_erase_ne hid, hi ic e]
    refine exists_congr fun q' => ⟨fun h' => ⟨h', ?_⟩, fun h' => h'.1⟩
    rintro rfl
    exact hid (OrderQty.mk.inj (h.restsAt_unique h' hq)).1

/-- The same for `Linked`: no entry but that of `id` refers to the order of `entry`. -/
theorem Linked.eraseCache {s' : BookSide κ} (h : s.Placed) (hl : s.Linked) {id : String}
    (he : s.cache.lookup id = some entry) (hCache : s'.cache = s.cache.erase id)
    (hRests : ∀ e o, s'.RestsAt e o ↔ s.RestsAt e o ∧ e ≠ entry) : s'.Linked := by
  obtain ⟨q, hq⟩ := hl id entry he
  intro ic e he'
  rw [hCache] at he'
  have hid : ic ≠ id := by
    rintro rfl
    simp at he'
  rw [Finmap.lookup_erase_ne hid] at he'
  obtain ⟨q', hq'⟩ := hl ic e he'
  refine ⟨q', (hRests e _).mpr ⟨hq', ?_⟩⟩
  rintro rfl
  exact hid (OrderQty.mk.inj (h.restsAt_unique hq' hq)).1

end Erase

section Remove

variable {s s' : BookSide κ} {id : String} {entry : CacheEntry}

theorem remove_eq_some : s.remove id entry = some s' ↔
    ∃ d o, s.deref entry = some (d, o) ∧
      s' = { s.eraseOrder entry { d with aggregateDepth := d.aggregateDepth - o.qty } with
        aggregate := s.aggregate - o.qty, cache := s.cache.erase id } := by
  simp only [remove, Option.bind_eq_bind, Option.bind_eq_some_iff, Option.pure_def,
    Option.some.injEq, Prod.exists]
  exact exists_congr fun d => exists_congr fun o => and_congr_right fun _ => eq_comm

theorem Placed.restsAt_remove (h : s.Placed) (hr : s.remove id entry = some s') (e : CacheEntry)
    (o : OrderQty) : s'.RestsAt e o ↔ s.RestsAt e o ∧ e ≠ entry := by
  rw [remove_eq_some] at hr
  obtain ⟨d, o', hd, rfl⟩ := hr
  obtain ⟨price, hp, -⟩ := h.deref.mp hd
  exact h.restsAt_eraseOrder (c := { d with aggregateDepth := d.aggregateDepth - o'.qty }) hp rfl

theorem Placed.remove (h : s.Placed) (hr : s.remove id entry = some s') : s'.Placed := by
  rw [remove_eq_some] at hr
  obtain ⟨d, o, hd, rfl⟩ := hr
  obtain ⟨price, hp, -⟩ := h.deref.mp hd
  exact (h.eraseOrder (c := { d with aggregateDepth := d.aggregateDepth - o.qty }) hp
    rfl).eraseCache id _

theorem cache_remove (hr : s.remove id entry = some s') : s'.cache = s.cache.erase id := by
  rw [remove_eq_some] at hr
  obtain ⟨d, o, -, rfl⟩ := hr
  rfl

theorem Indexed.remove (h : s.Placed) (hi : s.Indexed) (he : s.cache.lookup id = some entry)
    (hr : s.remove id entry = some s') : s'.Indexed :=
  hi.eraseCache h he (cache_remove hr) (h.restsAt_remove hr)

theorem Linked.remove (h : s.Placed) (hl : s.Linked) (he : s.cache.lookup id = some entry)
    (hr : s.remove id entry = some s') : s'.Linked :=
  hl.eraseCache h he (cache_remove hr) (h.restsAt_remove hr)

end Remove

/-! ### Execution -/

section Execute

variable {s s' : BookSide κ} {id : String} {entry : CacheEntry} {qty : QtyType}

/-- The quantity that `execute` leaves in the order: see `BookSide.execute`. -/
def leftQty (order : OrderQty) (qty : QtyType) : QtyType := order.qty - if qty = 0 then 1 else 0

theorem execute_eq_some : s.execute id entry qty = some s' ↔
    ∃ d o, s.deref entry = some (d, o) ∧
      (leftQty o qty ≠ 0 ∧ eraseNode d.orders entry.iqty ≠ [] ∧
          s' = { s.eraseOrder entry d with cache := s.cache.erase id } ∨
        leftQty o qty = 0 ∧
          s' = { s with ladder := s.ladder.modifyNode entry.ilevel fun _ => { d with
            orders := modifyNode d.orders entry.iqty fun o' =>
              { o' with qty := leftQty o qty } } }) := by
  simp only [execute, Option.bind_eq_bind, Option.bind_eq_some_iff, Prod.exists]
  refine exists_congr fun d => exists_congr fun o => and_congr_right fun _ => ?_
  change (if leftQty o qty ≠ 0 then _ else _) = _ ↔ _
  by_cases hLeft : leftQty o qty = 0
  · rw [if_neg (not_not.mpr hLeft)]
    constructor
    · intro h
      exact .inr ⟨hLeft, (Option.some.inj h).symm⟩
    · rintro (⟨h, -⟩ | ⟨-, rfl⟩)
      · exact absurd hLeft h
      · rfl
  · rw [if_pos hLeft]
    by_cases hEmpty : eraseNode d.orders entry.iqty = []
    · simp [hLeft, hEmpty]
    · simp [hLeft, hEmpty, eraseOrder, eq_comm]

theorem Placed.modifyOrder (h : s.Placed) {d : LevelData} {price : κ}
    (hp : s.ladder.find? price = some ⟨entry.ilevel, d⟩) (f : OrderQty → OrderQty) :
    Placed { s with ladder := s.ladder.modifyNode entry.ilevel fun _ =>
      { d with orders := modifyNode d.orders entry.iqty f } } := by
  have hNode : ∀ p n, (s.ladder.modifyNode entry.ilevel fun _ =>
        { d with orders := modifyNode d.orders entry.iqty f }).find? p = some n →
      n = ⟨entry.ilevel, { d with orders := modifyNode d.orders entry.iqty f }⟩ ∨
        s.ladder.find? p = some n := by
    intro p n hn
    by_cases hpp : p = price
    · subst hpp
      rw [OrdMap.AddrInj.find?_modifyNode_self hp] at hn
      exact .inl (Option.some.inj hn).symm
    · rw [h.levels.find?_modifyNode_ne hp hpp] at hn
      exact .inr hn
  refine ⟨h.levels.modify _ _, fun p n hn => ?_, fun p n hn => ?_, h.cached⟩
  · rcases hNode p n hn with rfl | hn
    · exact (h.orders price _ hp).modify _ _
    · exact h.orders p n hn
  · rcases hNode p n hn with rfl | hn
    · obtain ⟨h₁, h₂⟩ := h.below price _ hp
      refine ⟨h₁, fun o ho => ?_⟩
      obtain ⟨x, hx, rfl⟩ := List.mem_map.mp ho
      rw [Node.addr_modify]
      exact h₂ x hx
    · exact h.below p n hn

theorem Placed.restsAt_modifyOrder (h : s.Placed) {d : LevelData} {price : κ}
    (hp : s.ladder.find? price = some ⟨entry.ilevel, d⟩) (left : QtyType) {e : CacheEntry} :
    (∃ q, RestsAt { s with ladder := s.ladder.modifyNode entry.ilevel fun _ =>
      { d with orders := modifyNode d.orders entry.iqty fun o => { o with qty := left } } }
        e ⟨id, q⟩) ↔ ∃ q, s.RestsAt e ⟨id, q⟩ := by
  let f : OrderQty → OrderQty := fun o => { o with qty := left }
  have hSelf := OrdMap.AddrInj.find?_modifyNode_self hp fun _ : LevelData =>
    { d with orders := modifyNode d.orders entry.iqty f }
  -- A modified queue has the addresses and the ids of the queue before.
  have hQueue : (∃ q, ⟨e.iqty, ⟨id, q⟩⟩ ∈ modifyNode d.orders entry.iqty f) ↔
      ∃ q, ⟨e.iqty, ⟨id, q⟩⟩ ∈ d.orders := by
    simp only [modifyNode, List.mem_map]
    constructor
    · rintro ⟨q, x, hx, hxe⟩
      have hAddr : x.addr = e.iqty := by rw [← Node.addr_modify entry.iqty f x, hxe]
      have hId : x.val.orderid = id := by
        unfold Node.modify at hxe
        split at hxe
        · exact congrArg OrderQty.orderid (Node.mk.inj hxe).2
        · rw [hxe]
      exact ⟨x.val.qty, by rw [← hAddr, ← hId]; exact hx⟩
    · rintro ⟨q, hx⟩
      by_cases hAddr : e.iqty = entry.iqty
      · refine ⟨left, _, hx, ?_⟩
        rw [hAddr, Node.modify_self]
      · exact ⟨q, _, hx, Node.modify_ne hAddr f⟩
  constructor
  · rintro ⟨q, p, dp, hdp, ho⟩
    by_cases hpp : p = price
    · subst hpp
      obtain ⟨hLevel, rfl⟩ := Node.mk.inj (Option.some.inj (hdp.symm.trans hSelf))
      obtain ⟨q', hq'⟩ := hQueue.mp ⟨q, ho⟩
      exact ⟨q', p, d, by rw [hp, hLevel], hq'⟩
    · rw [h.levels.find?_modifyNode_ne hp hpp] at hdp
      exact ⟨q, p, dp, hdp, ho⟩
  · rintro ⟨q, p, dp, hdp, ho⟩
    by_cases hpp : p = price
    · subst hpp
      obtain ⟨hLevel, rfl⟩ := Node.mk.inj (Option.some.inj (hdp.symm.trans hp))
      obtain ⟨q', hq'⟩ := hQueue.mpr ⟨q, ho⟩
      exact ⟨q', p, _, by rw [hLevel]; exact hSelf, hq'⟩
    · exact ⟨q, p, dp, by rw [h.levels.find?_modifyNode_ne hp hpp]; exact hdp, ho⟩

theorem Placed.execute (h : s.Placed) (hx : s.execute id entry qty = some s') : s'.Placed := by
  rw [execute_eq_some] at hx
  obtain ⟨d, o, hd, ⟨-, -, rfl⟩ | ⟨-, rfl⟩⟩ := hx
  · obtain ⟨price, hp, -⟩ := h.deref.mp hd
    exact (h.eraseOrder hp rfl).eraseCache id _
  · obtain ⟨price, hp, -⟩ := h.deref.mp hd
    exact h.modifyOrder hp _

theorem Indexed.execute (h : s.Placed) (hi : s.Indexed) (he : s.cache.lookup id = some entry)
    (hx : s.execute id entry qty = some s') : s'.Indexed := by
  rw [execute_eq_some] at hx
  obtain ⟨d, o, hd, ⟨-, -, rfl⟩ | ⟨-, rfl⟩⟩ := hx
  · obtain ⟨price, hp, -⟩ := h.deref.mp hd
    exact hi.eraseCache h he rfl fun e o => h.restsAt_eraseOrder hp rfl
  · obtain ⟨price, hp, -⟩ := h.deref.mp hd
    exact fun id' e => (hi id' e).trans (h.restsAt_modifyOrder hp _).symm

theorem Linked.execute (h : s.Placed) (hl : s.Linked) (he : s.cache.lookup id = some entry)
    (hx : s.execute id entry qty = some s') : s'.Linked := by
  rw [execute_eq_some] at hx
  obtain ⟨d, o, hd, ⟨-, -, rfl⟩ | ⟨-, rfl⟩⟩ := hx
  · obtain ⟨price, hp, -⟩ := h.deref.mp hd
    exact hl.eraseCache h he rfl fun e o => h.restsAt_eraseOrder hp rfl
  · obtain ⟨price, hp, -⟩ := h.deref.mp hd
    exact fun id' e he' => (h.restsAt_modifyOrder hp _).mpr (hl id' e he')

end Execute

end Arby.PowerTrade.BookSide
