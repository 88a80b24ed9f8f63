import Arby.Kit.OrdMap
import Mathlib.Data.List.Nodup

/-! Node-based containers: a node keeps its identity for as long as it is in its container, so a
reference to it is its address. A reference to a node that is gone finds nothing. Addresses are
handed out in increasing order and never again, and two containers that differ only in them are
related by a `Renaming`. -/

namespace Kit

variable {α β κ : Type*}

/-- A node: its address and its element. -/
structure Node (α : Type*) where
  addr : ℕ
  val : α
deriving DecidableEq, Repr

/-- The element of node `n` changed by `f` when `n` is the node at `a`. -/
def Node.modify (a : ℕ) (f : α → α) (n : Node α) : Node α :=
  if n.addr = a then { n with val := f n.val } else n

@[simp] theorem Node.addr_modify (a : ℕ) (f : α → α) (n : Node α) :
    (n.modify a f).addr = n.addr := by
  unfold Node.modify
  split <;> rfl

theorem Node.modify_self (a : ℕ) (f : α → α) (v : α) :
    (⟨a, v⟩ : Node α).modify a f = ⟨a, f v⟩ := if_pos rfl

theorem Node.modify_ne {a : ℕ} {n : Node α} (h : n.addr ≠ a) (f : α → α) : n.modify a f = n :=
  if_neg h

/-! ### Lists of nodes -/

/-- The element of the node at `a`. -/
def deref (xs : List (Node α)) (a : ℕ) : Option α := (xs.find? (·.addr = a)).map Node.val

/-- The list without the node at `a`. -/
def eraseNode (xs : List (Node α)) (a : ℕ) : List (Node α) := xs.filter (·.addr ≠ a)

/-- The list with the element of the node at `a` changed by `f`. -/
def modifyNode (xs : List (Node α)) (a : ℕ) (f : α → α) : List (Node α) := xs.map (Node.modify a f)

/-- No two nodes share an address. -/
def Distinct (xs : List (Node α)) : Prop := (xs.map Node.addr).Nodup

theorem mem_of_deref {xs : List (Node α)} {a : ℕ} {v : α} (h : deref xs a = some v) :
    ⟨a, v⟩ ∈ xs := by
  obtain ⟨n, hn, rfl⟩ := Option.map_eq_some_iff.mp h
  have ha : n.addr = a := by simpa using List.find?_some hn
  exact ha ▸ List.mem_of_find?_eq_some hn

theorem deref_isSome {xs : List (Node α)} {n : Node α} (h : n ∈ xs) : (deref xs n.addr).isSome := by
  rw [deref, Option.isSome_map, List.find?_isSome]
  exact ⟨n, h, by simp⟩

theorem Distinct.unique {xs : List (Node α)} (hd : Distinct xs) {n n' : Node α} (h : n ∈ xs)
    (h' : n' ∈ xs) (ha : n.addr = n'.addr) : n = n' :=
  List.inj_on_of_nodup_map hd h h' ha

theorem Distinct.deref {xs : List (Node α)} (hd : Distinct xs) {a : ℕ} {v : α} :
    deref xs a = some v ↔ ⟨a, v⟩ ∈ xs := by
  refine ⟨mem_of_deref, fun h => ?_⟩
  obtain ⟨w, hw⟩ := Option.isSome_iff_exists.mp (deref_isSome h)
  rw [hw, (Node.mk.inj (hd.unique (mem_of_deref hw) h rfl)).2]

theorem mem_eraseNode {xs : List (Node α)} {a : ℕ} {n : Node α} :
    n ∈ eraseNode xs a ↔ n ∈ xs ∧ n.addr ≠ a := by
  simp [eraseNode]

theorem Distinct.erase {xs : List (Node α)} (hd : Distinct xs) (a : ℕ) :
    Distinct (eraseNode xs a) :=
  List.Nodup.sublist (List.filter_sublist.map _) hd

theorem Distinct.modify {xs : List (Node α)} (hd : Distinct xs) (a : ℕ) (f : α → α) :
    Distinct (modifyNode xs a f) := by
  simpa [Distinct, modifyNode, Function.comp_def] using hd

theorem Distinct.append {xs : List (Node α)} (hd : Distinct xs) {n : Node α}
    (h : ∀ m ∈ xs, m.addr ≠ n.addr) : Distinct (xs ++ [n]) := by
  rw [Distinct, List.map_append, List.nodup_append]
  refine ⟨hd, by simp, fun a ha b hb => ?_⟩
  obtain ⟨m, hm, rfl⟩ := List.mem_map.mp ha
  rw [List.mem_singleton.mp hb]
  exact h m hm

/-! ### Maps whose values are nodes -/

namespace OrdMap

variable [LinearOrder κ]

def deref (m : OrdMap κ (Node α)) (a : ℕ) : Option α := Kit.deref m.values a

def eraseNode (m : OrdMap κ (Node α)) (a : ℕ) : OrdMap κ (Node α) := m.filterVal (·.addr ≠ a)

def modifyNode (m : OrdMap κ (Node α)) (a : ℕ) (f : α → α) : OrdMap κ (Node α) :=
  m.mapVal (Node.modify a f)

/-- An address belongs to one key only. -/
def AddrInj (m : OrdMap κ (Node α)) : Prop :=
  ∀ k k' n n', m.find? k = some n → m.find? k' = some n' → n.addr = n'.addr → k = k'

variable {m : OrdMap κ (Node α)} {a : ℕ} {k : κ} {v : α}

theorem exists_of_deref (h : m.deref a = some v) : ∃ k, m.find? k = some ⟨a, v⟩ :=
  mem_values.mp (mem_of_deref h)

theorem AddrInj.deref (hm : m.AddrInj) (h : m.find? k = some ⟨a, v⟩) : m.deref a = some v := by
  obtain ⟨w, hw⟩ := Option.isSome_iff_exists.mp (deref_isSome (mem_values.mpr ⟨k, h⟩))
  have hw' : m.deref a = some w := hw
  obtain ⟨k', hk'⟩ := exists_of_deref hw'
  obtain rfl := hm k k' _ _ h hk' rfl
  rw [hw', (Node.mk.inj (Option.some.inj (h.symm.trans hk'))).2]

theorem AddrInj.find?_modifyNode_self (h : m.find? k = some ⟨a, v⟩) (f : α → α) :
    (m.modifyNode a f).find? k = some ⟨a, f v⟩ := by
  rw [modifyNode, find?_mapVal, h, Option.map_some, Node.modify_self]

theorem AddrInj.find?_modifyNode_ne (hm : m.AddrInj) (h : m.find? k = some ⟨a, v⟩) {k' : κ}
    (hk : k' ≠ k) (f : α → α) : (m.modifyNode a f).find? k' = m.find? k' := by
  rw [modifyNode, find?_mapVal]
  cases hk' : m.find? k' with
  | none => rfl
  | some n =>
    rw [Option.map_some, Node.modify_ne fun ha => hk (hm k' k n _ hk' h ha)]

theorem find?_eraseNode (h : m.find? k = some ⟨a, v⟩) : (m.eraseNode a).find? k = none := by
  rw [eraseNode, find?_filterVal, h]
  simp

theorem AddrInj.find?_eraseNode_ne (hm : m.AddrInj) (h : m.find? k = some ⟨a, v⟩) {k' : κ}
    (hk : k' ≠ k) : (m.eraseNode a).find? k' = m.find? k' := by
  rw [eraseNode, find?_filterVal]
  cases hk' : m.find? k' with
  | none => rfl
  | some n =>
    have ha : n.addr ≠ a := fun ha => hk (hm k' k n _ hk' h ha)
    simp [ha]

theorem AddrInj.modify (hm : m.AddrInj) (a : ℕ) (f : α → α) : (m.modifyNode a f).AddrInj := by
  intro k k' n n' h h' ha
  simp only [modifyNode, find?_mapVal, Option.map_eq_some_iff] at h h'
  obtain ⟨x, hx, rfl⟩ := h
  obtain ⟨y, hy, rfl⟩ := h'
  exact hm k k' x y hx hy (by simpa using ha)

theorem AddrInj.erase (hm : m.AddrInj) (a : ℕ) : (m.eraseNode a).AddrInj := by
  intro k k' n n' h h' ha
  simp only [eraseNode, find?_filterVal, Option.filter_eq_some_iff] at h h'
  exact hm k k' n n' h.1 h'.1 ha

theorem AddrInj.insert (hm : m.AddrInj) {n : Node α}
    (h : ∀ k' n', m.find? k' = some n' → n'.addr ≠ n.addr) (k : κ) : (m.insert k n).AddrInj := by
  intro k₁ k₂ n₁ n₂ h₁ h₂ ha
  by_cases hk₁ : k₁ = k <;> by_cases hk₂ : k₂ = k
  · exact hk₁.trans hk₂.symm
  · subst hk₁
    rw [find?_insert_self] at h₁
    rw [find?_insert_ne _ hk₂] at h₂
    exact absurd ha.symm (Option.some.inj h₁ ▸ h k₂ n₂ h₂)
  · subst hk₂
    rw [find?_insert_self] at h₂
    rw [find?_insert_ne _ hk₁] at h₁
    exact absurd ha (Option.some.inj h₂ ▸ h k₁ n₁ h₁)
  · rw [find?_insert_ne _ hk₁] at h₁
    rw [find?_insert_ne _ hk₂] at h₂
    exact hm k₁ k₂ n₁ n₂ h₁ h₂ ha

end OrdMap

/-! ### Renamings -/

/-- A one-to-one correspondence of some addresses below `m` with some addresses below `n`. -/
structure Renaming (ρ : ℕ → ℕ → Prop) (m n : ℕ) : Prop where
  left : ∀ p q q', ρ p q → ρ p q' → q = q'
  right : ∀ p p' q, ρ p q → ρ p' q → p = p'
  bound : ∀ p q, ρ p q → p < m ∧ q < n

/-- `ρ` and the pair of addresses `m` and `n`. -/
def extend (ρ : ℕ → ℕ → Prop) (m n : ℕ) : ℕ → ℕ → Prop := fun p q => ρ p q ∨ p = m ∧ q = n

theorem extend_new (ρ : ℕ → ℕ → Prop) (m n : ℕ) : extend ρ m n m n := .inr ⟨rfl, rfl⟩

/-- Related nodes: corresponding addresses and related elements. -/
def Node.Rel (ρ : ℕ → ℕ → Prop) (R : α → β → Prop) (x : Node α) (y : Node β) : Prop :=
  ρ x.addr y.addr ∧ R x.val y.val

section Renaming

variable {ρ : ℕ → ℕ → Prop} {m n : ℕ}

theorem Renaming.empty (m n : ℕ) : Renaming (fun _ _ => False) m n :=
  ⟨fun _ _ _ h => h.elim, fun _ _ _ h => h.elim, fun _ _ h => h.elim⟩

theorem Renaming.extend (h : Renaming ρ m n) : Renaming (Kit.extend ρ m n) (m + 1) (n + 1) where
  left := by
    rintro p q q' (h₁ | ⟨rfl, rfl⟩) (h₂ | ⟨h₂, rfl⟩)
    · exact h.left p q q' h₁ h₂
    · have := h.bound p q h₁; omega
    · have := h.bound p q' h₂; omega
    · rfl
  right := by
    rintro p p' q (h₁ | ⟨rfl, rfl⟩) (h₂ | ⟨rfl, h₂⟩)
    · exact h.right p p' q h₁ h₂
    · have := h.bound p q h₁; omega
    · have := h.bound p' q h₂; omega
    · rfl
  bound := by
    rintro p q (h₁ | ⟨rfl, rfl⟩)
    · have := h.bound p q h₁; omega
    · omega

theorem Renaming.shift (k n : ℕ) : Renaming (fun p q => p = k + q ∧ q < n) (k + n) n :=
  ⟨fun _ _ _ h h' => by omega, fun _ _ _ h h' => by omega, fun _ _ h => by omega⟩

theorem Renaming.eq_iff (h : Renaming ρ m n) {p q p' q' : ℕ} (h₁ : ρ p q) (h₂ : ρ p' q') :
    p = p' ↔ q = q' :=
  ⟨fun e => h.left p' q q' (e ▸ h₁) h₂, fun e => h.right p p' q' (e ▸ h₁) h₂⟩

variable {R : α → β → Prop} {xs : List (Node α)} {ys : List (Node β)} {p q : ℕ}

theorem Renaming.deref (h : Renaming ρ m n) (hxs : List.Forall₂ (Node.Rel ρ R) xs ys)
    (hp : ρ p q) : Option.Rel R (Kit.deref xs p) (Kit.deref ys q) := by
  induction hxs with
  | nil => exact .none
  | @cons x y xs ys hxy _ ih =>
    have hIff := h.eq_iff hxy.1 hp
    by_cases hx : x.addr = p
    · simpa [Kit.deref, List.find?_cons, hx, hIff.mp hx] using hxy.2
    · have hy : ¬y.addr = q := fun e => hx (hIff.mpr e)
      simpa [Kit.deref, List.find?_cons, hx, hy] using ih

theorem Renaming.eraseNode (h : Renaming ρ m n) (hxs : List.Forall₂ (Node.Rel ρ R) xs ys)
    (hp : ρ p q) : List.Forall₂ (Node.Rel ρ R) (Kit.eraseNode xs p) (Kit.eraseNode ys q) := by
  refine List.rel_filter (fun x y hxy => ?_) hxs
  simp [h.eq_iff hxy.1 hp]

theorem Renaming.modify (h : Renaming ρ m n) {f : α → α} {g : β → β}
    (hf : ∀ v w, R v w → R (f v) (g w)) (hp : ρ p q) {x : Node α} {y : Node β}
    (hxy : Node.Rel ρ R x y) : Node.Rel ρ R (x.modify p f) (y.modify q g) := by
  have hIff := h.eq_iff hxy.1 hp
  unfold Node.modify
  by_cases hx : x.addr = p
  · rw [if_pos hx, if_pos (hIff.mp hx)]
    exact ⟨hxy.1, hf _ _ hxy.2⟩
  · rw [if_neg hx, if_neg fun e => hx (hIff.mpr e)]
    exact hxy

theorem Renaming.modifyNode (h : Renaming ρ m n) {f : α → α} {g : β → β}
    (hf : ∀ v w, R v w → R (f v) (g w)) (hp : ρ p q)
    (hxs : List.Forall₂ (Node.Rel ρ R) xs ys) :
    List.Forall₂ (Node.Rel ρ R) (Kit.modifyNode xs p f) (Kit.modifyNode ys q g) := by
  simp only [Kit.modifyNode, List.forall₂_map_left_iff, List.forall₂_map_right_iff]
  exact List.Forall₂.imp (fun _ _ hxy => h.modify hf hp hxy) hxs

theorem forall₂_node_mono {ρ' : ℕ → ℕ → Prop} (hρ : ∀ p q, ρ p q → ρ' p q)
    (hxs : List.Forall₂ (Node.Rel ρ R) xs ys) : List.Forall₂ (Node.Rel ρ' R) xs ys :=
  List.Forall₂.imp (fun _ _ h => ⟨hρ _ _ h.1, h.2⟩) hxs

variable [LinearOrder κ] {m₁ : OrdMap κ (Node α)} {m₂ : OrdMap κ (Node β)}

theorem OrdMap.Rel.values {R : α → β → Prop} {m₁ : OrdMap κ α} {m₂ : OrdMap κ β}
    (h : OrdMap.Rel R m₁ m₂) : List.Forall₂ R m₁.values m₂.values := by
  simp only [OrdMap.values, List.forall₂_map_left_iff, List.forall₂_map_right_iff]
  exact List.Forall₂.imp (fun _ _ he => he.2) h

theorem Renaming.derefMap (h : Renaming ρ m n) (hm : OrdMap.Rel (Node.Rel ρ R) m₁ m₂)
    (hp : ρ p q) : Option.Rel R (m₁.deref p) (m₂.deref q) :=
  h.deref hm.values hp

theorem Renaming.eraseMap (h : Renaming ρ m n) (hm : OrdMap.Rel (Node.Rel ρ R) m₁ m₂)
    (hp : ρ p q) : OrdMap.Rel (Node.Rel ρ R) (m₁.eraseNode p) (m₂.eraseNode q) :=
  hm.filterVal fun x y hxy => by simp [h.eq_iff hxy.1 hp]

theorem Renaming.modifyMap (h : Renaming ρ m n) {f : α → α} {g : β → β}
    (hf : ∀ v w, R v w → R (f v) (g w)) (hp : ρ p q)
    (hm : OrdMap.Rel (Node.Rel ρ R) m₁ m₂) :
    OrdMap.Rel (Node.Rel ρ R) (m₁.modifyNode p f) (m₂.modifyNode q g) :=
  hm.mapVal fun _ _ hxy => h.modify hf hp hxy

end Renaming

end Kit
