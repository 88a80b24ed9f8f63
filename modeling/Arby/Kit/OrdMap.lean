import Mathlib.Algebra.BigOperators.Group.List.Basic
import Mathlib.Data.List.Forall2
import Mathlib.Data.List.Pairwise
import Mathlib.Data.List.Sort
import Mathlib.Order.Lattice
import Mathlib.Order.Nat

/-! Finite maps over an ordered key type, as lists of entries in increasing key order. Iteration
follows the list, so the first entry has the least key. Maps compare with `Rel`, which relates the
values entry by entry. -/

namespace Kit

variable {κ ν ν' : Type*}

/-- A finite map: its entries, in strictly increasing key order. -/
structure OrdMap (κ ν : Type*) [LinearOrder κ] where
  entries : List (κ × ν)
  sorted : entries.Pairwise fun a b => a.1 < b.1

/-! ### Sorted insertion -/

/-- Entry `(k, v)` put in key order, in place of an entry that `k` already has. -/
def insertEntry [LinearOrder κ] (k : κ) (v : ν) : List (κ × ν) → List (κ × ν)
  | [] => [(k, v)]
  | e :: es =>
    if k < e.1 then (k, v) :: e :: es
    else if k = e.1 then (k, v) :: es
    else e :: insertEntry k v es

section InsertEntry

variable [LinearOrder κ] {k : κ} {v : ν}

@[simp] theorem insertEntry_nil : insertEntry k v [] = [(k, v)] := rfl

theorem insertEntry_cons (e : κ × ν) (es : List (κ × ν)) :
    insertEntry k v (e :: es) =
      if k < e.1 then (k, v) :: e :: es
      else if k = e.1 then (k, v) :: es
      else e :: insertEntry k v es := rfl

theorem mem_insertEntry {es : List (κ × ν)} {a : κ × ν} (h : a ∈ insertEntry k v es) :
    a = (k, v) ∨ a ∈ es := by
  induction es with
  | nil => simpa using h
  | cons e es ih =>
    rw [insertEntry_cons] at h
    split_ifs at h
    · simpa using h
    · rcases List.mem_cons.mp h with h | h
      · exact .inl h
      · exact .inr (List.mem_cons_of_mem _ h)
    · rcases List.mem_cons.mp h with rfl | h
      · simp
      · exact (ih h).imp_right (List.mem_cons_of_mem _)

theorem insertEntry_sorted {es : List (κ × ν)} (h : es.Pairwise fun a b => a.1 < b.1) :
    (insertEntry k v es).Pairwise fun a b => a.1 < b.1 := by
  induction es with
  | nil => simp
  | cons e es ih =>
    have hTail := h.of_cons
    have hHead : ∀ b ∈ es, e.1 < b.1 := fun _ => List.rel_of_pairwise_cons h
    rw [insertEntry_cons]
    split_ifs with hlt heq
    · refine .cons (fun b hb => ?_) h
      rcases List.mem_cons.mp hb with rfl | hb
      · exact hlt
      · exact hlt.trans (hHead b hb)
    · exact .cons (fun b hb => heq ▸ hHead b hb) hTail
    · refine .cons (fun b hb => ?_) (ih hTail)
      rcases mem_insertEntry hb with rfl | hb
      · exact lt_of_le_of_ne (not_lt.mp hlt) (Ne.symm heq)
      · exact hHead b hb

theorem find?_insertEntry_self (es : List (κ × ν)) :
    (insertEntry k v es).find? (·.1 = k) = some (k, v) := by
  induction es with
  | nil => simp
  | cons e es ih =>
    rw [insertEntry_cons]
    split_ifs with hlt heq
    · simp
    · simp
    · rw [List.find?_cons_of_neg (by simpa using Ne.symm heq), ih]

theorem find?_insertEntry_ne {k' : κ} (h : k' ≠ k) (es : List (κ × ν)) :
    (insertEntry k v es).find? (·.1 = k') = es.find? (·.1 = k') := by
  induction es with
  | nil => simp [Ne.symm h]
  | cons e es ih =>
    rw [insertEntry_cons]
    split_ifs with hlt heq
    · rw [List.find?_cons_of_neg (by simpa using Ne.symm h)]
    · rw [List.find?_cons_of_neg (by simpa using Ne.symm h),
        List.find?_cons_of_neg (by simpa [← heq] using Ne.symm h)]
    · by_cases he : e.1 = k' <;> simp [he, ih]

theorem insertEntry_insertEntry (w : ν) (es : List (κ × ν)) :
    insertEntry k w (insertEntry k v es) = insertEntry k w es := by
  induction es with
  | nil => simp [insertEntry_cons]
  | cons e es ih =>
    simp only [insertEntry_cons]
    split_ifs with hlt heq
    · simp [insertEntry_cons]
    · simp [insertEntry_cons]
    · rw [insertEntry_cons, if_neg hlt, if_neg heq, ih]

theorem insertEntry_last {es : List (κ × ν)} (h : ∀ e ∈ es, e.1 < k) :
    insertEntry k v es = es ++ [(k, v)] := by
  induction es with
  | nil => rfl
  | cons e es ih =>
    have he := h e (by simp)
    rw [insertEntry_cons, if_neg (not_lt.mpr he.le), if_neg he.ne',
      ih fun e he => h e (List.mem_cons_of_mem _ he), List.cons_append]

theorem insertEntry_perm {es : List (κ × ν)} (h : k ∉ es.map Prod.fst) :
    (insertEntry k v es).Perm ((k, v) :: es) := by
  induction es with
  | nil => exact .refl _
  | cons e es ih =>
    obtain ⟨hne, hRest⟩ := not_or.mp (mt List.mem_cons.mpr h)
    rw [insertEntry_cons, if_neg hne]
    split_ifs
    · exact .refl _
    · exact ((ih hRest).cons e).trans (.swap ..)

end InsertEntry

namespace OrdMap

variable [LinearOrder κ]

instance : EmptyCollection (OrdMap κ ν) := ⟨⟨[], .nil⟩⟩

instance : Inhabited (OrdMap κ ν) := ⟨∅⟩

@[ext] theorem ext {m m' : OrdMap κ ν} (h : m.entries = m'.entries) : m = m' := by
  cases m; cases m'; simpa using h

instance [DecidableEq ν] : DecidableEq (OrdMap κ ν) := fun m m' =>
  decidable_of_iff (m.entries = m'.entries) ⟨ext, fun h => h ▸ rfl⟩

def values (m : OrdMap κ ν) : List ν := m.entries.map Prod.snd

def find? (m : OrdMap κ ν) (k : κ) : Option ν := (m.entries.find? (·.1 = k)).map Prod.snd

/-- `m` with `v` as the value of `k`. -/
def insert (m : OrdMap κ ν) (k : κ) (v : ν) : OrdMap κ ν :=
  ⟨insertEntry k v m.entries, insertEntry_sorted m.sorted⟩

/-- `m` with `v` as the value of `k`, unless `k` has one already. -/
def emplace (m : OrdMap κ ν) (k : κ) (v : ν) : OrdMap κ ν :=
  match m.find? k with
  | some _ => m
  | none => m.insert k v

def mapVal (f : ν → ν') (m : OrdMap κ ν) : OrdMap κ ν' :=
  ⟨m.entries.map fun e => (e.1, f e.2), m.sorted.map _ fun _ _ h => h⟩

def filterVal (p : ν → Bool) (m : OrdMap κ ν) : OrdMap κ ν :=
  ⟨m.entries.filter fun e => p e.2, m.sorted.filter _⟩

/-- The entries from key `k` on. -/
def dropBelow (m : OrdMap κ ν) (k : κ) : OrdMap κ ν :=
  ⟨m.entries.dropWhile (·.1 < k), m.sorted.sublist (List.dropWhile_sublist _)⟩

/-- The values of the entries that follow the entry of `k`. -/
def after (m : OrdMap κ ν) (k : κ) : List ν :=
  ((m.entries.dropWhile (·.1 ≠ k)).drop 1).map Prod.snd

/-- The entry with the least key. -/
def first? (m : OrdMap κ ν) : Option (κ × ν) := m.entries.head?

/-! ### Lookups -/

@[simp] theorem entries_empty : (∅ : OrdMap κ ν).entries = [] := rfl

@[simp] theorem find?_empty (k : κ) : (∅ : OrdMap κ ν).find? k = none := rfl

theorem entry_unique {m : OrdMap κ ν} {k : κ} {v w : ν} (hv : (k, v) ∈ m.entries)
    (hw : (k, w) ∈ m.entries) : v = w := by
  by_contra hne
  have hSorted : m.entries.Pairwise fun a b => a.1 ≠ b.1 := m.sorted.imp fun h => h.ne
  have : Std.Symm fun a b : κ × ν => a.1 ≠ b.1 := ⟨fun _ _ h => h.symm⟩
  exact hSorted.forall hv hw (by simpa using hne) rfl

theorem find?_eq_some {m : OrdMap κ ν} {k : κ} {v : ν} :
    m.find? k = some v ↔ (k, v) ∈ m.entries := by
  constructor
  · intro h
    obtain ⟨e, he, rfl⟩ := Option.map_eq_some_iff.mp h
    have hk : e.1 = k := by simpa using List.find?_some he
    exact hk ▸ List.mem_of_find?_eq_some he
  · intro h
    have : (m.entries.find? (·.1 = k)).isSome := List.find?_isSome.mpr ⟨_, h, by simp⟩
    obtain ⟨e, he⟩ := Option.isSome_iff_exists.mp this
    have hk : e.1 = k := by simpa using List.find?_some he
    have hm : (k, e.2) ∈ m.entries := hk ▸ List.mem_of_find?_eq_some he
    rw [find?, he, Option.map_some, entry_unique hm h]

theorem find?_eq_none {m : OrdMap κ ν} {k : κ} : m.find? k = none ↔ k ∉ m.entries.map Prod.fst := by
  simp [Option.eq_none_iff_forall_not_mem, find?_eq_some]

/-- Maps with the same lookups are the same. -/
theorem ext_find? {m m' : OrdMap κ ν} (h : ∀ k, m.find? k = m'.find? k) : m = m' := by
  have : Std.Irrefl fun a b : κ × ν => a.1 < b.1 := ⟨fun a => lt_irrefl a.1⟩
  have : Std.Antisymm fun a b : κ × ν => a.1 < b.1 := ⟨fun _ _ h h' => absurd h' h.asymm⟩
  refine ext (m.sorted.eq_of_mem_iff m'.sorted fun e => ?_)
  rw [← find?_eq_some, ← find?_eq_some, h]

/-- A new key makes a new entry. -/
theorem entries_emplace_perm {m : OrdMap κ ν} {k : κ} (h : k ∉ m.entries.map Prod.fst) (v : ν) :
    (m.emplace k v).entries.Perm ((k, v) :: m.entries) := by
  rw [emplace, find?_eq_none.mpr h]
  exact insertEntry_perm h

theorem mem_values {m : OrdMap κ ν} {v : ν} : v ∈ m.values ↔ ∃ k, m.find? k = some v := by
  simp [values, find?_eq_some]

@[simp] theorem find?_insert_self (m : OrdMap κ ν) (k : κ) (v : ν) :
    (m.insert k v).find? k = some v := by
  rw [find?, insert, find?_insertEntry_self, Option.map_some]

/-- The later of two values of a key stays. -/
theorem insert_insert (m : OrdMap κ ν) (k : κ) (v w : ν) :
    (m.insert k v).insert k w = m.insert k w :=
  ext (insertEntry_insertEntry w m.entries)

theorem find?_insert_ne (m : OrdMap κ ν) {k k' : κ} (h : k' ≠ k) (v : ν) :
    (m.insert k v).find? k' = m.find? k' := by
  rw [find?, insert, find?_insertEntry_ne h, find?]

@[simp] theorem find?_mapVal (f : ν → ν') (m : OrdMap κ ν) (k : κ) :
    (m.mapVal f).find? k = (m.find? k).map f := by
  simp [find?, mapVal, List.find?_map, Function.comp_def]

theorem find?_filterVal (p : ν → Bool) (m : OrdMap κ ν) (k : κ) :
    (m.filterVal p).find? k = (m.find? k).filter p := by
  ext v
  simp [find?_eq_some, filterVal, Option.filter_eq_some_iff]

theorem nodup_keys (m : OrdMap κ ν) : (m.entries.map Prod.fst).Nodup :=
  List.pairwise_map.mpr (m.sorted.imp fun h => h.ne)

/-- A sum over a list is the sum over the keys of the sums over the elements of each key. -/
theorem sum_by_key {α M : Type*} [AddCommMonoid M] {ks : List κ} (hk : ks.Nodup) (key : α → κ)
    (f : α → M) {xs : List α} (h : ∀ x ∈ xs, key x ∈ ks) :
    (ks.map fun k => ((xs.filter (key · = k)).map f).sum).sum = (xs.map f).sum := by
  induction ks generalizing xs with
  | nil =>
    have hEmpty : xs = [] := List.eq_nil_iff_forall_not_mem.mpr fun x hx => nomatch h x hx
    rw [hEmpty]
    rfl
  | cons k ks ih =>
    obtain ⟨hNew, hk⟩ := List.nodup_cons.mp hk
    have hRest : ∀ x ∈ xs.filter (key · ≠ k), key x ∈ ks := by
      intro x hx
      obtain ⟨hx, hne⟩ := List.mem_filter.mp hx
      exact (List.mem_cons.mp (h x hx)).resolve_left (of_decide_eq_true hne)
    have hSame : ∀ k' ∈ ks, (xs.filter (key · ≠ k)).filter (key · = k') =
        xs.filter (key · = k') := by
      intro k' hk'
      rw [List.filter_filter]
      refine List.filter_congr fun x _ => ?_
      by_cases hx : key x = k'
      · have hne : key x ≠ k := fun e => hNew (e ▸ hx ▸ hk')
        simp [hx, hx ▸ hne]
      · simp [hx]
    have hIh := ih hk hRest
    rw [List.map_congr_left fun k' hk' => by rw [hSame k' hk']] at hIh
    rw [List.map_cons, List.sum_cons, hIh]
    exact List.sum_map_filter_add_sum_map_filter_not (fun x => key x = k) f xs

theorem first?_le {m : OrdMap κ ν} {e : κ × ν} (h : m.first? = some e) {k : κ} {v : ν}
    (hv : m.find? k = some v) : e.1 ≤ k := by
  have hMem := find?_eq_some.mp hv
  obtain ⟨es, hes⟩ : ∃ es, m.entries = e :: es := by
    rw [first?] at h
    exact List.head?_eq_some_iff.mp h
  rw [hes] at hMem
  rcases List.mem_cons.mp hMem with rfl | hMem
  · exact le_rfl
  · have := m.sorted
    rw [hes] at this
    exact (List.rel_of_pairwise_cons this hMem).le

/-! ### Consecutive keys -/

/-- `vs` under consecutive keys from `a` on. -/
def indexed (a : ℕ) : List ν → List (ℕ × ν)
  | [] => []
  | v :: vs => (a, v) :: indexed (a + 1) vs

theorem indexed_append (a : ℕ) (vs ws : List ν) :
    indexed a (vs ++ ws) = indexed a vs ++ indexed (a + vs.length) ws := by
  induction vs generalizing a with
  | nil => simp [indexed]
  | cons v vs ih => simp [indexed, ih, Nat.add_comm 1, Nat.add_assoc]

theorem mem_indexed {a : ℕ} {vs : List ν} {e : ℕ × ν} (h : e ∈ indexed a vs) :
    a ≤ e.1 ∧ e.1 < a + vs.length := by
  induction vs generalizing a with
  | nil => cases h
  | cons v vs ih =>
    rcases List.mem_cons.mp h with rfl | h
    · simp
    · have := ih h
      simp only [List.length_cons]
      omega

theorem map_snd_indexed (a : ℕ) (vs : List ν) : (indexed a vs).map Prod.snd = vs := by
  induction vs generalizing a with
  | nil => rfl
  | cons v vs ih => simp [indexed, ih]

section Indexed

variable {m : OrdMap ℕ ν} {a : ℕ} {vs : List ν}

theorem values_of_indexed (h : m.entries = indexed a vs) : m.values = vs := by
  rw [values, h, map_snd_indexed]

theorem find?_of_indexed (h : m.entries = indexed a vs) (k : ℕ) :
    (m.find? k).isSome ↔ a ≤ k ∧ k < a + vs.length := by
  simp only [find?, Option.isSome_map, h]
  clear h
  induction vs generalizing a with
  | nil => simp [indexed]
  | cons v vs ih =>
    by_cases hk : a = k
    · simp [indexed, hk]
    · simp [indexed, hk, ih]
      omega

theorem getElem?_of_indexed (h : m.entries = indexed a vs) {k : ℕ} (hk : a ≤ k) :
    m.find? k = vs[k - a]? := by
  simp only [find?, h]
  clear h
  induction vs generalizing a with
  | nil => simp [indexed]
  | cons v vs ih =>
    by_cases hak : a = k
    · subst hak
      simp [indexed]
    · have hStep := ih (a := a + 1) (by omega)
      rw [indexed, List.find?_cons_of_neg (by simpa using hak), hStep,
        show k - a = (k - (a + 1)) + 1 by omega, List.getElem?_cons_succ]

theorem insert_of_indexed (h : m.entries = indexed a vs) (v : ν) :
    (m.insert (a + vs.length) v).entries = indexed a (vs ++ [v]) := by
  show insertEntry _ v m.entries = _
  rw [h, insertEntry_last fun e he => (mem_indexed he).2, indexed_append]
  rfl

theorem after_of_indexed (h : m.entries = indexed a vs) {k : ℕ} (hk : a ≤ k) :
    m.after k = vs.drop (k - a + 1) := by
  rw [after, h]
  clear h
  induction vs generalizing a with
  | nil => simp [indexed]
  | cons v vs ih =>
    by_cases hka : a = k
    · subst hka
      simp [indexed, map_snd_indexed]
    · have hlt : a + 1 ≤ k := by omega
      rw [indexed, List.dropWhile_cons_of_pos (by simpa using hka), ih hlt,
        show k - a + 1 = (k - (a + 1) + 1) + 1 by omega, List.drop_succ_cons]

theorem dropBelow_of_indexed (h : m.entries = indexed a vs) {k : ℕ} (hk : k ≤ a + vs.length) :
    (m.dropBelow k).entries = indexed (max a k) (vs.drop (k - a)) := by
  show m.entries.dropWhile _ = _
  rw [h]
  clear h
  induction vs generalizing a with
  | nil =>
    simp only [List.length_nil, Nat.add_zero] at hk
    simp [indexed]
  | cons v vs ih =>
    by_cases hka : a < k
    · rw [indexed, List.dropWhile_cons_of_pos (by simpa using hka),
        ih (by simp only [List.length_cons] at hk; omega),
        show k - a = (k - (a + 1)) + 1 by omega, List.drop_succ_cons,
        max_eq_right (by omega), max_eq_right (by omega)]
    · rw [indexed, List.dropWhile_cons_of_neg (by simpa using hka), max_eq_left (by omega),
        Nat.sub_eq_zero_of_le (by omega)]
      rfl

end Indexed

/-! ### Maps related value by value -/

/-- The same keys, with values related by `R`. -/
def Rel (R : ν → ν' → Prop) (m : OrdMap κ ν) (m' : OrdMap κ ν') : Prop :=
  List.Forall₂ (fun e f => e.1 = f.1 ∧ R e.2 f.2) m.entries m'.entries

section Rel

variable {R : ν → ν' → Prop} {m : OrdMap κ ν} {m' : OrdMap κ ν'}

theorem Rel.mono {R' : ν → ν' → Prop} (hR : ∀ v w, R v w → R' v w) (h : Rel R m m') :
    Rel R' m m' :=
  List.Forall₂.imp (fun _ _ he => ⟨he.1, hR _ _ he.2⟩) h

theorem Rel.find? (h : Rel R m m') (k : κ) : Option.Rel R (m.find? k) (m'.find? k) := by
  simp only [OrdMap.find?]
  unfold Rel at h
  generalize m.entries = es₀ at h ⊢
  generalize m'.entries = fs₀ at h ⊢
  induction h with
  | nil => exact .none
  | @cons e f es fs hef _ ih =>
    by_cases hk : e.1 = k
    · have hf : f.1 = k := hef.1 ▸ hk
      simpa [List.find?_cons, hk, hf] using hef.2
    · have hf : ¬f.1 = k := hef.1 ▸ hk
      simpa [List.find?_cons, hk, hf] using ih

theorem Rel.insert (h : Rel R m m') (k : κ) {v : ν} {w : ν'} (hv : R v w) :
    Rel R (m.insert k v) (m'.insert k w) := by
  simp only [Rel, OrdMap.insert] at h ⊢
  generalize m.entries = es₀ at h ⊢
  generalize m'.entries = fs₀ at h ⊢
  induction h with
  | nil => simpa using hv
  | @cons e f es fs hef hes ih =>
    simp only [insertEntry, ← hef.1]
    split_ifs
    · exact .cons ⟨rfl, hv⟩ (.cons hef hes)
    · exact .cons ⟨rfl, hv⟩ hes
    · exact .cons hef ih

theorem Rel.mapVal {μ μ' : Type*} {R' : μ → μ' → Prop} {f : ν → μ} {g : ν' → μ'}
    (hf : ∀ v w, R v w → R' (f v) (g w)) (h : Rel R m m') :
    Rel R' (m.mapVal f) (m'.mapVal g) := by
  simp only [Rel, OrdMap.mapVal, List.forall₂_map_left_iff, List.forall₂_map_right_iff]
  exact List.Forall₂.imp (fun _ _ he => ⟨he.1, hf _ _ he.2⟩) h

theorem Rel.filterVal {p : ν → Bool} {q : ν' → Bool} (hp : ∀ v w, R v w → p v = q w)
    (h : Rel R m m') : Rel R (m.filterVal p) (m'.filterVal q) := by
  refine List.rel_filter (fun e f he => ?_) h
  simp [hp _ _ he.2]

end Rel

end OrdMap

end Kit
