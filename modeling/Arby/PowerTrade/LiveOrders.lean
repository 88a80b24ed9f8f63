import Arby.PowerTrade.BookInvariants
import Mathlib.Algebra.BigOperators.Group.List.Basic

/-! The reference for the book: on each side the list of the live orders in arrival order. An
addition appends, a removal deletes the order of its id, a snapshot replaces both lists. -/

namespace Arby.PowerTrade

open Trading Kit

/-- An order that has been added and not removed. -/
structure LiveOrder where
  id : String
  price : PriceType
  qty : QtyType
deriving DecidableEq, Repr

namespace LiveOrder

def order (o : LiveOrder) : OrderQty := { orderid := o.id, qty := o.qty }

def total (live : List LiveOrder) : QtyType := (live.map qty).sum

/-- The orders of a list at price `p`. -/
def atPrice (live : List LiveOrder) (p : PriceType) : List LiveOrder := live.filter (·.price = p)

def without (live : List LiveOrder) (id : String) : List LiveOrder := live.filter (·.id ≠ id)

/-- The level of price `p`, its depth and its orders, when a live order has that price. -/
def levelOf (live : List LiveOrder) (p : PriceType) : Option (QtyType × List OrderQty) :=
  if atPrice live p = [] then none
  else some (total (atPrice live p), (atPrice live p).map order)

variable {live : List LiveOrder} {o : LiveOrder}

@[simp] theorem total_append (live live' : List LiveOrder) :
    total (live ++ live') = total live + total live' := by
  simp [total]

@[simp] theorem total_singleton (o : LiveOrder) : total [o] = o.qty := by
  simp [total]

theorem mem_atPrice {p : PriceType} : o ∈ atPrice live p ↔ o ∈ live ∧ o.price = p := by
  simp [atPrice]

theorem mem_without {id : String} : o ∈ without live id ↔ o ∈ live ∧ o.id ≠ id := by
  simp [without]

theorem atPrice_append_self (live : List LiveOrder) (o : LiveOrder) :
    atPrice (live ++ [o]) o.price = atPrice live o.price ++ [o] := by
  simp [atPrice]

theorem atPrice_append_ne (live : List LiveOrder) {p : PriceType} (h : p ≠ o.price) :
    atPrice (live ++ [o]) p = atPrice live p := by
  simp [atPrice, Ne.symm h]

theorem atPrice_without (live : List LiveOrder) (p : PriceType) (id : String) :
    atPrice (without live id) p = without (atPrice live p) id := by
  rw [atPrice, without, List.filter_comm]
  rfl

theorem unique_id (hIds : (live.map id).Nodup) {o' : LiveOrder} (ho : o ∈ live) (ho' : o' ∈ live)
    (h : o.id = o'.id) : o = o' :=
  List.inj_on_of_nodup_map hIds ho ho' h

theorem filter_id (hIds : (live.map id).Nodup) (ho : o ∈ live) :
    live.filter (·.id = o.id) = [o] := by
  induction live with
  | nil => cases ho
  | cons x live ih =>
    obtain ⟨hx, hIds⟩ := List.nodup_cons.mp hIds
    rcases List.mem_cons.mp ho with rfl | ho
    · have hRest : live.filter (·.id = o.id) = [] := by
        refine List.filter_eq_nil_iff.mpr fun y hy hid => hx ?_
        rw [← of_decide_eq_true hid]
        exact List.mem_map_of_mem hy
      simp [hRest]
    · have hne : x.id ≠ o.id := fun h => hx (h ▸ List.mem_map_of_mem ho)
      simp [hne, ih hIds ho]

theorem total_without (hIds : (live.map id).Nodup) (ho : o ∈ live) :
    total (without live o.id) = total live - o.qty := by
  have hSplit := List.sum_map_filter_add_sum_map_filter_not (fun x : LiveOrder => x.id = o.id)
    qty live
  rw [filter_id hIds ho] at hSplit
  refine eq_sub_of_add_eq' ?_
  simpa [total, without] using hSplit

theorem without_of_forall {id : String} (h : ∀ o ∈ live, o.id ≠ id) : without live id = live :=
  List.filter_eq_self.mpr fun o ho => decide_eq_true (h o ho)

theorem nodup_atPrice (hIds : (live.map id).Nodup) (p : PriceType) :
    ((atPrice live p).map id).Nodup :=
  hIds.sublist (List.filter_sublist.map _)

theorem nodup_without (hIds : (live.map id).Nodup) (i : String) :
    ((without live i).map id).Nodup :=
  hIds.sublist (List.filter_sublist.map _)

end LiveOrder

open LiveOrder

/-- The depth and the orders of a level, without the addresses of its nodes. -/
def LevelData.view (l : LevelData) : QtyType × List OrderQty :=
  (l.aggregateDepth, l.orders.map Node.val)

theorem toKey_surjective (d : SideType) : Function.Surjective (toKey d) := by
  cases d
  · exact OrderDual.toDual.surjective
  · exact Function.surjective_id

/-- The erasure of the node of an order is the deletion of its id, where ids are distinct. -/
theorem map_eraseNode {xs : List (Node OrderQty)} {a : ℕ} {order : OrderQty} (hd : Distinct xs)
    (hIds : (xs.map fun n => n.val.orderid).Nodup) (h : ⟨a, order⟩ ∈ xs) :
    (eraseNode xs a).map Node.val = (xs.map Node.val).filter (·.orderid ≠ order.orderid) := by
  rw [eraseNode, List.filter_map]
  refine congrArg _ (List.filter_congr fun n hn => decide_eq_decide.mpr (not_congr ?_))
  constructor
  · intro ha
    rw [hd.unique hn h ha]
  · intro hid
    rw [List.inj_on_of_nodup_map hIds hn h hid]

namespace BookSide

variable {d : SideType}

/-- The side holds exactly the orders of `live`, queued by price in their order. -/
structure Represents (s : BookSide (Key d)) (live : List LiveOrder) : Prop where
  placed : s.Placed
  indexed : s.Indexed
  ids : (live.map LiveOrder.id).Nodup
  ladder : ∀ p, (s.ladder.find? (toKey d p)).map (fun node => node.val.view) = levelOf live p
  aggregate : s.aggregate = total live

variable {s s' : BookSide (Key d)} {live : List LiveOrder} {p : PriceType} {node : Node LevelData}

theorem represents_empty (n : ℕ) : Represents ({ fresh := n } : BookSide (Key d)) [] :=
  ⟨placed_empty n, indexed_empty n, List.nodup_nil, fun _ => rfl, rfl⟩

theorem Represents.queue (h : s.Represents live)
    (hp : s.ladder.find? (toKey d p) = some node) :
    atPrice live p ≠ [] ∧ node.val.aggregateDepth = total (atPrice live p) ∧
      node.val.orders.map Node.val = (atPrice live p).map LiveOrder.order := by
  have hLevel := h.ladder p
  rw [hp, levelOf, Option.map_some] at hLevel
  split at hLevel <;> rename_i hAt
  · cases hLevel
  · obtain ⟨hDepth, hOrders⟩ := Prod.mk.inj (Option.some.inj hLevel)
    exact ⟨hAt, hDepth, hOrders⟩

theorem Represents.exists_level (h : s.Represents live) (hAt : atPrice live p ≠ []) :
    ∃ node, s.ladder.find? (toKey d p) = some node := by
  have hLevel := h.ladder p
  rw [levelOf, if_neg hAt] at hLevel
  obtain ⟨node, hp, -⟩ := Option.map_eq_some_iff.mp hLevel
  exact ⟨node, hp⟩

theorem Represents.detail (h : s.Represents live) (p : PriceType) :
    (s.detail (toKey d p)).view = (total (atPrice live p), (atPrice live p).map LiveOrder.order) := by
  cases hp : s.ladder.find? (toKey d p) with
  | none =>
    have hLevel := h.ladder p
    rw [hp, levelOf, Option.map_none] at hLevel
    split at hLevel <;> rename_i hAt
    · rw [detail_of_none hp, hAt]; rfl
    · cases hLevel
  | some node =>
    obtain ⟨-, hDepth, hOrders⟩ := h.queue hp
    rw [detail_of_find hp, LevelData.view, hDepth, hOrders]

theorem Represents.mem_level (h : s.Represents live)
    (hp : s.ladder.find? (toKey d p) = some node) {id : String} {qty : QtyType} :
    (∃ a, ⟨a, ⟨id, qty⟩⟩ ∈ node.val.orders) ↔ ⟨id, p, qty⟩ ∈ live := by
  have hOrders := (h.queue hp).2.2
  have hMem : ⟨id, qty⟩ ∈ node.val.orders.map Node.val ↔ ⟨id, p, qty⟩ ∈ live := by
    rw [hOrders, List.mem_map]
    constructor
    · rintro ⟨⟨i, p', q⟩, ho, hEq⟩
      obtain ⟨hLive, rfl⟩ := mem_atPrice.mp ho
      obtain ⟨rfl, rfl⟩ := OrderQty.mk.inj hEq
      exact hLive
    · exact fun ho => ⟨_, mem_atPrice.mpr ⟨ho, rfl⟩, rfl⟩
  rw [← hMem, List.mem_map]
  constructor
  · rintro ⟨a, ha⟩
    exact ⟨_, ha, rfl⟩
  · rintro ⟨⟨a, v⟩, hn, rfl⟩
    exact ⟨a, hn⟩

theorem Represents.restsAt (h : s.Represents live) {entry : CacheEntry} {id : String}
    {qty : QtyType} (hr : s.RestsAt entry ⟨id, qty⟩) :
    ∃ p detail, ⟨id, p, qty⟩ ∈ live ∧ s.ladder.find? (toKey d p) = some ⟨entry.ilevel, detail⟩ ∧
      ⟨entry.iqty, ⟨id, qty⟩⟩ ∈ detail.orders := by
  obtain ⟨key, detail, hp, ho⟩ := hr
  obtain ⟨p, rfl⟩ := toKey_surjective d key
  exact ⟨p, detail, (h.mem_level hp).mp ⟨_, ho⟩, hp, ho⟩

theorem Represents.rests_iff (h : s.Represents live) {id : String} :
    s.rests id = true ↔ ∃ o ∈ live, o.id = id := by
  rw [BookSide.rests_iff]
  constructor
  · rintro ⟨entry, qty, hr⟩
    obtain ⟨p, -, hLive, -⟩ := h.restsAt hr
    exact ⟨_, hLive, rfl⟩
  · rintro ⟨⟨id, p, qty⟩, ho, rfl⟩
    obtain ⟨node, hp⟩ := h.exists_level (List.ne_nil_of_mem (mem_atPrice.mpr ⟨ho, rfl⟩))
    obtain ⟨a, ha⟩ := (h.mem_level hp).mpr ho
    exact ⟨⟨node.addr, a⟩, qty, toKey d p, node.val, hp, ha⟩

theorem Represents.lookup_none (h : s.Represents live) {id : String} :
    s.cache.lookup id = none ↔ ∀ o ∈ live, o.id ≠ id := by
  rw [← Option.not_isSome_iff_eq_none, ← h.indexed.rests_iff, h.rests_iff]
  simp

/-! ### The operations -/

theorem Represents.add (h : s.Represents live) {o : LiveOrder} (hNew : ∀ x ∈ live, x.id ≠ o.id) :
    (s.add (toKey d o.price) o.order).Represents (live ++ [o]) where
  placed := h.placed.add _ _
  indexed := by
    refine h.indexed.add h.placed _ o.order (Bool.eq_false_iff.mpr fun hr => ?_)
    obtain ⟨x, hx, hid⟩ := h.rests_iff.mp hr
    exact hNew x hx hid
  ids := by
    rw [List.map_append, List.nodup_append]
    refine ⟨h.ids, by simp, fun i hi j hj => ?_⟩
    obtain ⟨x, hx, rfl⟩ := List.mem_map.mp hi
    rw [List.map_singleton, List.mem_singleton] at hj
    exact hj ▸ hNew x hx
  ladder q := by
    by_cases hq : q = o.price
    · subst hq
      obtain ⟨hDepth, hOrders⟩ := Prod.mk.inj (h.detail o.price)
      rw [find?_add_self, levelOf, atPrice_append_self, if_neg (by simp), Option.map_some]
      simp [LevelData.view, hDepth, hOrders, LiveOrder.order]
    · rw [h.placed.find?_add_ne fun e => hq (toKey_injective d e), h.ladder q, levelOf, levelOf,
        atPrice_append_ne live hq]
  aggregate := by
    rw [aggregate_add, h.aggregate, total_append, total_singleton]
    rfl

theorem Represents.erase_level (h : s.Represents live) {a : ℕ} {id : String} {qty : QtyType}
    (hp : s.ladder.find? (toKey d p) = some node) (ha : ⟨a, ⟨id, qty⟩⟩ ∈ node.val.orders) :
    node.val.aggregateDepth - qty = total (atPrice (without live id) p) ∧
      (eraseNode node.val.orders a).map Node.val =
        (atPrice (without live id) p).map LiveOrder.order := by
  obtain ⟨-, hDepth, hOrders⟩ := h.queue hp
  have hLive : ⟨id, p, qty⟩ ∈ live := (h.mem_level hp).mp ⟨a, ha⟩
  have hIds := nodup_atPrice h.ids p
  have hQueueIds : (node.val.orders.map fun n => n.val.orderid).Nodup := by
    have := congrArg (List.map OrderQty.orderid) hOrders
    rw [List.map_map, List.map_map] at this
    exact (congrArg List.Nodup this).mpr hIds
  constructor
  · rw [hDepth, atPrice_without]
    exact (total_without hIds (mem_atPrice.mpr ⟨hLive, rfl⟩)).symm
  · rw [map_eraseNode (h.placed.orders _ _ hp) hQueueIds ha, hOrders, List.filter_map,
      atPrice_without]
    rfl

theorem Represents.remove (h : s.Represents live) {id : String} {entry : CacheEntry}
    (he : s.cache.lookup id = some entry) (hr : s.remove id entry = some s') :
    s'.Represents (without live id) := by
  obtain ⟨detail, order, hd, rfl⟩ := remove_eq_some.mp hr
  obtain ⟨key, hp, ho⟩ := h.placed.deref.mp hd
  obtain ⟨p, rfl⟩ := toKey_surjective d key
  obtain ⟨qty, hq⟩ := (h.indexed id entry).mp he
  obtain rfl := h.placed.restsAt_unique hq ⟨_, detail, hp, ho⟩
  obtain ⟨hDepth, hOrders⟩ := h.erase_level hp ho
  have hLive : ⟨id, p, qty⟩ ∈ live := (h.mem_level hp).mp ⟨_, ho⟩
  refine ⟨h.placed.remove hr, h.indexed.remove h.placed he hr, nodup_without h.ids id,
    fun q => ?_, ?_⟩
  · by_cases hqp : q = p
    · subst hqp
      refine (congrArg _ (find?_eraseOrder_self hp)).trans ?_
      rw [levelOf]
      by_cases hEmpty : eraseNode detail.orders entry.iqty = []
      · rw [if_pos hEmpty, if_pos (List.map_eq_nil_iff.mp (by rw [← hOrders, hEmpty]; rfl))]
        rfl
      · rw [if_neg hEmpty, if_neg fun hAt => hEmpty
          (List.map_eq_nil_iff.mp (by rw [hOrders, hAt]; rfl)), Option.map_some, LevelData.view,
          hDepth, hOrders]
    · have hOther : atPrice (without live id) q = atPrice live q := by
        rw [atPrice_without]
        refine without_of_forall fun o hAt hid => hqp ?_
        obtain ⟨hMem, rfl⟩ := mem_atPrice.mp hAt
        rw [unique_id h.ids hMem hLive hid]
      refine (congrArg _ (h.placed.find?_eraseOrder_ne hp fun e => hqp (toKey_injective d e))).trans ?_
      rw [h.ladder q, levelOf, levelOf, hOther]
  · exact (congrArg (· - qty) h.aggregate).trans (total_without h.ids hLive).symm

end BookSide

end Arby.PowerTrade
