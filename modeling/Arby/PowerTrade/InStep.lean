import Arby.PowerTrade.BookInvariants

/-! Books in step: two books that hold the same orders in nodes of their own, and whose caches
correspond for the ids that are good. The cache of a book that was assigned to may have entries of
the book that it was before, whose nodes are gone. Their ids are not good. -/

namespace Arby.PowerTrade

open Trading Kit

/-- Levels with the same depth, and with the same orders in corresponding nodes. -/
def LevelData.Rel (ρ : ℕ → ℕ → Prop) (l m : LevelData) : Prop :=
  l.aggregateDepth = m.aggregateDepth ∧ List.Forall₂ (Node.Rel ρ (· = ·)) l.orders m.orders

def CacheEntry.Rel (ρ : ℕ → ℕ → Prop) (e f : CacheEntry) : Prop :=
  ρ e.ilevel f.ilevel ∧ ρ e.iqty f.iqty

namespace BookSide

variable {κ : Type} [LinearOrder κ]

/-- The sides correspond by `ρ`, and their caches on the good ids. -/
structure Matches (ρ : ℕ → ℕ → Prop) (good : String → Bool) (s r : BookSide κ) : Prop where
  addrs : Renaming ρ s.fresh r.fresh
  ladder : OrdMap.Rel (Node.Rel ρ (LevelData.Rel ρ)) s.ladder r.ladder
  cache : ∀ id, good id = true →
    Option.Rel (CacheEntry.Rel ρ) (s.cache.lookup id) (r.cache.lookup id)
  aggregate : s.aggregate = r.aggregate

variable {ρ : ℕ → ℕ → Prop} {good : String → Bool} {s r s' r' : BookSide κ}

theorem level_mono {ρ' : ℕ → ℕ → Prop} (hρ : ∀ p q, ρ p q → ρ' p q) {l m : LevelData}
    (h : LevelData.Rel ρ l m) : LevelData.Rel ρ' l m :=
  ⟨h.1, forall₂_node_mono hρ h.2⟩

theorem Matches.ladder_mono {ρ' : ℕ → ℕ → Prop} (h : Matches ρ good s r)
    (hρ : ∀ p q, ρ p q → ρ' p q) :
    OrdMap.Rel (Node.Rel ρ' (LevelData.Rel ρ')) s.ladder r.ladder :=
  h.ladder.mono fun _ _ hn => ⟨hρ _ _ hn.1, level_mono hρ hn.2⟩

theorem Matches.cache_mono {ρ' : ℕ → ℕ → Prop} (h : Matches ρ good s r)
    (hρ : ∀ p q, ρ p q → ρ' p q) {id : String} (hid : good id = true) :
    Option.Rel (CacheEntry.Rel ρ') (s.cache.lookup id) (r.cache.lookup id) := by
  have hRel := h.cache id hid
  generalize s.cache.lookup id = x at hRel ⊢
  generalize r.cache.lookup id = y at hRel ⊢
  cases hRel with
  | none => exact .none
  | some he => exact .some ⟨hρ _ _ he.1, hρ _ _ he.2⟩

theorem Matches.weaken {good' : String → Bool} (h : Matches ρ good s r)
    (hGood : ∀ id, good' id = true → good id = true) : Matches ρ good' s r :=
  ⟨h.addrs, h.ladder, fun id hid => h.cache id (hGood id hid), h.aggregate⟩

theorem Matches.content_eq (h : Matches ρ good s r) : s.content = r.content := by
  have hOrders : ∀ xs ys : List (Node OrderQty), List.Forall₂ (Node.Rel ρ (· = ·)) xs ys →
      xs.map Node.val = ys.map Node.val := by
    intro xs ys hxy
    induction hxy with
    | nil => rfl
    | cons hx _ ih => rw [List.map_cons, List.map_cons, hx.2, ih]
  have hEntries : ∀ es fs : List (κ × Node LevelData),
      List.Forall₂ (fun e f => e.1 = f.1 ∧ Node.Rel ρ (LevelData.Rel ρ) e.2 f.2) es fs →
      es.map (fun e => (e.1, e.2.val.aggregateDepth, e.2.val.orders.map Node.val)) =
        fs.map (fun e => (e.1, e.2.val.aggregateDepth, e.2.val.orders.map Node.val)) := by
    intro es fs hef
    induction hef with
    | nil => rfl
    | cons he _ ih =>
      rw [List.map_cons, List.map_cons, ih, he.1, he.2.2.1, hOrders _ _ he.2.2.2]
  exact Prod.ext (hEntries _ _ h.ladder) h.aggregate

/-! ### Addition -/

theorem Matches.level (h : Matches ρ good s r) (price : κ) :
    ∃ ρ', Matches ρ' good (s.level price).1 (r.level price).1 ∧
      ρ' (s.level price).2 (r.level price).2 := by
  have hFind := h.ladder.find? price
  unfold BookSide.level
  cases hs : s.ladder.find? price with
  | none =>
    cases hr : r.ladder.find? price with
    | some m =>
      rw [hs, hr] at hFind
      cases hFind
    | none =>
      have hNew := extend_new ρ s.fresh r.fresh
      refine ⟨extend ρ s.fresh r.fresh, ⟨h.addrs.extend, ?_, fun id hid => ?_, h.aggregate⟩, hNew⟩
      · exact (h.ladder_mono fun _ _ => Or.inl).insert price ⟨hNew, rfl, .nil⟩
      · exact h.cache_mono (fun _ _ => Or.inl) hid
  | some n =>
    cases hr : r.ladder.find? price with
    | none =>
      rw [hs, hr] at hFind
      cases hFind
    | some m =>
      rw [hs, hr] at hFind
      cases hFind with
      | some hn => exact ⟨ρ, h, hn.1⟩

theorem Matches.append (h : Matches ρ good s r) {a b : ℕ} (hab : ρ a b) (order : OrderQty) :
    Matches (extend ρ s.fresh r.fresh) (fun id => good id || decide (id = order.orderid))
      (s.append a order) (r.append b order) where
  addrs := h.addrs.extend
  ladder := by
    refine h.addrs.extend.modifyMap (fun l m hlm => ⟨?_, ?_⟩) (.inl hab)
      (h.ladder_mono fun _ _ => Or.inl)
    · exact congrArg (· + order.qty) hlm.1
    · exact List.rel_append hlm.2 (.cons ⟨extend_new .., rfl⟩ .nil)
  cache id hid := by
    simp only [BookSide.append]
    by_cases hEq : id = order.orderid
    · subst hEq
      rw [Finmap.lookup_insert, Finmap.lookup_insert]
      exact .some ⟨.inl hab, extend_new ..⟩
    · rw [Finmap.lookup_insert_of_ne _ hEq, Finmap.lookup_insert_of_ne _ hEq]
      rw [decide_eq_false hEq, Bool.or_false] at hid
      exact h.cache_mono (fun _ _ => Or.inl) hid
  aggregate := congrArg (· + order.qty) h.aggregate

theorem Matches.add (h : Matches ρ good s r) (price : κ) (order : OrderQty) :
    ∃ ρ', Matches ρ' (fun id => good id || decide (id = order.orderid))
      (s.add price order) (r.add price order) := by
  obtain ⟨ρ', hLevel, hAddr⟩ := h.level price
  exact ⟨_, hLevel.append hAddr order⟩

/-! ### Removal and execution -/

section Entry

variable {e f : CacheEntry}

theorem Matches.deref (h : Matches ρ good s r) (he : CacheEntry.Rel ρ e f) :
    Option.Rel (fun x y => LevelData.Rel ρ x.1 y.1 ∧ x.2 = y.2) (s.deref e) (r.deref f) := by
  have hLevel := h.addrs.derefMap h.ladder he.1
  unfold BookSide.deref
  generalize s.ladder.deref e.ilevel = x at hLevel ⊢
  generalize r.ladder.deref f.ilevel = y at hLevel ⊢
  cases hLevel with
  | none => exact .none
  | @some l m hlm =>
    have hOrder := h.addrs.deref hlm.2 he.2
    simp only [Option.bind_eq_bind, Option.bind_some]
    generalize Kit.deref l.orders e.iqty = x at hOrder ⊢
    generalize Kit.deref m.orders f.iqty = y at hOrder ⊢
    cases hOrder with
    | none => exact .none
    | some hEq => exact .some ⟨hlm, hEq⟩

theorem Matches.deref_some (h : Matches ρ good s r) (he : CacheEntry.Rel ρ e f) {m : LevelData}
    {o : OrderQty} (hm : r.deref f = some (m, o)) :
    ∃ l, s.deref e = some (l, o) ∧ LevelData.Rel ρ l m := by
  have hDeref := h.deref he
  rw [hm] at hDeref
  generalize hs : s.deref e = x at hDeref
  cases hDeref with
  | @some x _ hx =>
    obtain ⟨l, o'⟩ := x
    obtain ⟨hl, rfl⟩ := hx
    exact ⟨l, rfl, hl⟩

theorem Matches.eraseOrder (h : Matches ρ good s r) (he : CacheEntry.Rel ρ e f) {l m : LevelData}
    (hlm : LevelData.Rel ρ l m) : Matches ρ good (s.eraseOrder e l) (r.eraseOrder f m) where
  addrs := h.addrs
  ladder := by
    have hOrders := h.addrs.eraseNode hlm.2 he.2
    have hEmpty : eraseNode l.orders e.iqty = [] ↔ eraseNode m.orders f.iqty = [] := by
      rw [← List.length_eq_zero_iff, ← List.length_eq_zero_iff, hOrders.length_eq]
    simp only [BookSide.eraseOrder]
    by_cases hNil : eraseNode l.orders e.iqty = []
    · rw [if_pos hNil, if_pos (hEmpty.mp hNil)]
      exact h.addrs.eraseMap h.ladder he.1
    · rw [if_neg hNil, if_neg fun hm => hNil (hEmpty.mpr hm)]
      exact h.addrs.modifyMap (fun _ _ _ => ⟨hlm.1, hOrders⟩) he.1 h.ladder
  cache := h.cache
  aggregate := h.aggregate

theorem Matches.eraseCache (h : Matches ρ good s r) (orderId : String) (aggregate : QtyType) :
    Matches ρ good { s with aggregate, cache := s.cache.erase orderId }
      { r with aggregate, cache := r.cache.erase orderId } where
  addrs := h.addrs
  ladder := h.ladder
  cache id hid := by
    by_cases hEq : id = orderId
    · subst hEq
      simp only [Finmap.lookup_erase]
      exact .none
    · simp only [Finmap.lookup_erase_ne hEq]
      exact h.cache id hid
  aggregate := rfl

theorem Matches.remove (h : Matches ρ good s r) (he : CacheEntry.Rel ρ e f) {id : String}
    (hr : r.remove id f = some r') : ∃ s', s.remove id e = some s' ∧ Matches ρ good s' r' := by
  obtain ⟨m, o, hm, rfl⟩ := remove_eq_some.mp hr
  obtain ⟨l, hs, hl⟩ := h.deref_some he hm
  refine ⟨_, remove_eq_some.mpr ⟨l, o, hs, rfl⟩, ?_⟩
  have hErase := h.eraseOrder (l := { l with aggregateDepth := l.aggregateDepth - o.qty })
    (m := { m with aggregateDepth := m.aggregateDepth - o.qty }) he
    ⟨congrArg (· - o.qty) hl.1, hl.2⟩
  rw [h.aggregate]
  exact hErase.eraseCache id _

theorem Matches.execute (h : Matches ρ good s r) (he : CacheEntry.Rel ρ e f) {id : String}
    {qty : QtyType} (hx : r.execute id f qty = some r') :
    ∃ s', s.execute id e qty = some s' ∧ Matches ρ good s' r' := by
  obtain ⟨m, o, hm, hCases⟩ := execute_eq_some.mp hx
  obtain ⟨l, hs, hl⟩ := h.deref_some he hm
  have hOrders := h.addrs.eraseNode hl.2 he.2
  rcases hCases with ⟨hLeft, hNonempty, rfl⟩ | ⟨hLeft, rfl⟩
  · have hNe : eraseNode l.orders e.iqty ≠ [] := by
      rw [← List.length_pos_iff, hOrders.length_eq]
      exact List.length_pos_iff.mpr hNonempty
    refine ⟨_, execute_eq_some.mpr ⟨l, o, hs, .inl ⟨hLeft, hNe, rfl⟩⟩, ?_⟩
    have hErase := (h.eraseOrder he hl).eraseCache id r.aggregate
    have hAggregate : (s.eraseOrder e l).aggregate = r.aggregate := h.aggregate
    exact ⟨hErase.addrs, hErase.ladder, hErase.cache, hAggregate⟩
  · refine ⟨_, execute_eq_some.mpr ⟨l, o, hs, .inr ⟨hLeft, rfl⟩⟩, ?_⟩
    refine ⟨h.addrs, ?_, h.cache, h.aggregate⟩
    refine h.addrs.modifyMap (fun _ _ _ => ⟨hl.1, ?_⟩) he.1 h.ladder
    exact h.addrs.modifyNode (fun v w hvw => by rw [hvw]) he.2 hl.2

end Entry

theorem matches_reset (s r : BookSide κ) : Matches (fun _ _ => False) (fun _ => true) s.reset r.reset where
  addrs := Renaming.empty _ _
  ladder := .nil
  cache id _ := by
    simp only [reset, Finmap.lookup_empty]
    exact .none
  aggregate := rfl

/-! ### Stale entries -/

section Stale

variable {id orderId : String} {entry : CacheEntry}

theorem Placed.stale_iff (h : s.Placed) :
    s.stale id = true ↔ ∃ e, s.cache.lookup id = some e ∧ ∀ o, ¬s.RestsAt e o := by
  unfold stale
  cases s.cache.lookup id with
  | none => simp
  | some e =>
    simp only [h.restsAt, Option.isNone_iff_eq_none, Option.some.injEq, exists_eq_left']
    constructor
    · rintro hNone o ⟨detail, hDeref⟩
      cases hNone.symm.trans hDeref
    · intro hNot
      refine Option.eq_none_iff_forall_ne_some.mpr fun ⟨detail, o⟩ hDeref => ?_
      exact hNot o ⟨detail, hDeref⟩

/-- An entry that is left in the cache stays stale when no order comes to rest where it points. -/
theorem Placed.stale_mono (h : s.Placed) (h' : s'.Placed) (hStale : s.stale id = true)
    (hCache : s'.cache.lookup id = s.cache.lookup id)
    (hRests : ∀ e o, s.cache.lookup id = some e → s'.RestsAt e o → ∃ o', s.RestsAt e o') :
    s'.stale id = true := by
  obtain ⟨e, he, hNot⟩ := h.stale_iff.mp hStale
  refine h'.stale_iff.mpr ⟨e, hCache.trans he, fun o ho => ?_⟩
  obtain ⟨o', ho'⟩ := hRests e o he ho
  exact hNot o' ho'

theorem Placed.stale_add (h : s.Placed) (hStale : s.stale id = true) (price : κ)
    {order : OrderQty} (hne : id ≠ order.orderid) : (s.add price order).stale id = true := by
  refine h.stale_mono (h.add price order) hStale ?_ fun e o he ho => ?_
  · rw [cache_add, Finmap.lookup_insert_of_ne _ hne]
  · rcases h.restsAt_add.mp ho with ho | ⟨rfl, -⟩
    · exact ⟨o, ho⟩
    · have hNew : (s.newEntry price).iqty < s.fresh := (h.cached id _ he).2
      have hFresh : s.fresh ≤ (s.newEntry price).iqty := level_fresh
      omega

theorem Placed.stale_remove (h : s.Placed) (hStale : s.stale id = true) (hne : id ≠ orderId)
    (hr : s.remove orderId entry = some s') : s'.stale id = true := by
  refine h.stale_mono (h.remove hr) hStale ?_ fun e o _ ho => ?_
  · rw [cache_remove hr, Finmap.lookup_erase_ne hne]
  · exact ⟨o, ((h.restsAt_remove hr e o).mp ho).1⟩

theorem Placed.stale_execute (h : s.Placed) (hStale : s.stale id = true) (hne : id ≠ orderId)
    {qty : QtyType} (hx : s.execute orderId entry qty = some s') : s'.stale id = true := by
  have hPlaced := h.execute hx
  obtain ⟨d, o, hd, ⟨-, -, rfl⟩ | ⟨-, rfl⟩⟩ := execute_eq_some.mp hx
  all_goals obtain ⟨price, hp, -⟩ := h.deref.mp hd
  · refine h.stale_mono hPlaced hStale (Finmap.lookup_erase_ne hne) fun e o' _ ho => ?_
    exact ⟨o', ((h.restsAt_eraseOrder hp rfl).mp ho).1⟩
  · refine h.stale_mono hPlaced hStale rfl fun e o' _ ho => ?_
    obtain ⟨q, hq⟩ := (h.restsAt_modifyOrder hp _).mp ⟨o'.qty, ho⟩
    exact ⟨_, hq⟩

end Stale

/-! ### Sides in step -/

/-- The sides correspond on the good ids, and the entries of the others are stale. -/
structure InStep (good : String → Bool) (s r : BookSide κ) : Prop where
  corresponds : ∃ ρ, Matches ρ good s r
  placed : s.Placed
  bad : ∀ id, good id = false → s.stale id = true

section InStep

variable {id : String} {f : CacheEntry}

theorem InStep.settle (h : InStep good s r) : InStep (fun id => !s.stale id) s r where
  corresponds := by
    obtain ⟨ρ, hρ⟩ := h.corresponds
    refine ⟨ρ, hρ.weaken fun id hid => ?_⟩
    by_contra hGood
    rw [h.bad id (Bool.not_eq_true _ ▸ hGood)] at hid
    cases hid
  placed := h.placed
  bad id hid := by simpa using hid

theorem InStep.add (h : InStep good s r) (price : κ) (order : OrderQty) :
    InStep (fun id => good id || decide (id = order.orderid)) (s.add price order)
      (r.add price order) where
  corresponds := by
    obtain ⟨ρ, hρ⟩ := h.corresponds
    exact hρ.add price order
  placed := h.placed.add price order
  bad id hid := by
    obtain ⟨hGood, hne⟩ := Bool.or_eq_false_iff.mp hid
    exact h.placed.stale_add (h.bad id hGood) price (of_decide_eq_false hne)

theorem InStep.lookup (h : InStep good s r) (hGood : good id = true) :
    ∃ ρ, Matches ρ good s r ∧
      (r.cache.lookup id = none → s.cache.lookup id = none) ∧
      ∀ f, r.cache.lookup id = some f →
        ∃ e, s.cache.lookup id = some e ∧ CacheEntry.Rel ρ e f := by
  obtain ⟨ρ, hρ⟩ := h.corresponds
  have hRel := hρ.cache id hGood
  refine ⟨ρ, hρ, fun hr => ?_, fun f hf => ?_⟩
  · rw [hr] at hRel
    generalize s.cache.lookup id = x at hRel ⊢
    cases hRel
    rfl
  · rw [hf] at hRel
    generalize s.cache.lookup id = x at hRel ⊢
    cases hRel with
    | some he => exact ⟨_, rfl, he⟩

theorem InStep.remove (h : InStep good s r) (hGood : good id = true)
    (hf : r.cache.lookup id = some f) (hr : r.remove id f = some r') :
    ∃ e s', s.cache.lookup id = some e ∧ s.remove id e = some s' ∧ InStep good s' r' := by
  obtain ⟨ρ, hρ, -, hSome⟩ := h.lookup hGood
  obtain ⟨e, he, hef⟩ := hSome f hf
  obtain ⟨s', hs', hMatches⟩ := hρ.remove hef hr
  refine ⟨e, s', he, hs', ⟨ρ, hMatches⟩, h.placed.remove hs', fun id' hid' => ?_⟩
  have hne : id' ≠ id := by
    rintro rfl
    cases hGood.symm.trans hid'
  exact h.placed.stale_remove (h.bad id' hid') hne hs'

theorem InStep.execute (h : InStep good s r) (hGood : good id = true)
    (hf : r.cache.lookup id = some f) {qty : QtyType} (hx : r.execute id f qty = some r') :
    ∃ e s', s.cache.lookup id = some e ∧ s.execute id e qty = some s' ∧ InStep good s' r' := by
  obtain ⟨ρ, hρ, -, hSome⟩ := h.lookup hGood
  obtain ⟨e, he, hef⟩ := hSome f hf
  obtain ⟨s', hs', hMatches⟩ := hρ.execute hef hx
  refine ⟨e, s', he, hs', ⟨ρ, hMatches⟩, h.placed.execute hs', fun id' hid' => ?_⟩
  have hne : id' ≠ id := by
    rintro rfl
    cases hGood.symm.trans hid'
  exact h.placed.stale_execute (h.bad id' hid') hne hs'

theorem InStep.setAggregate (h : InStep good s r) (x : QtyType) :
    InStep good { s with aggregate := x } { r with aggregate := x } where
  corresponds := by
    obtain ⟨ρ, hρ⟩ := h.corresponds
    exact ⟨ρ, hρ.addrs, hρ.ladder, hρ.cache, rfl⟩
  placed := ⟨h.placed.levels, h.placed.orders, h.placed.below, h.placed.cached⟩
  bad := h.bad

theorem inStep_reset (s r : BookSide κ) : InStep (fun _ => true) s.reset r.reset where
  corresponds := ⟨_, matches_reset s r⟩
  placed := placed_empty _
  bad _ hid := nomatch hid

end InStep

end BookSide

end Arby.PowerTrade
