import Arby.Entity.EntityKey
import Arby.Kit.Run

/-! What the operations on keys do to the objects: one object changes, and all others are left
alone, except by `lock`, which reaches every owner of the block. -/

namespace Arby.Entity

open Kit

namespace KeyHeap

variable {heap heap' : KeyHeap} {i j a : ℕ} {key other : EntityKey} {hash : HashFunctions}
  {f : MapType → MapType}

/-- Every object points to a block. -/
def Valid (heap : KeyHeap) : Prop := ∀ i a, heap.pointer i = some a → a < heap.impls.length

/-- The common part of `set` and `merge`: the values of object `i` changed by `f`. -/
def update (heap : KeyHeap) (i : ℕ) (f : MapType → MapType) : Option KeyHeap := do
  let (heap, target) ← heap.copyCheck i
  return heap.setImpl target.addr { target.val with values := f target.val.values }

theorem lookup_eq_some : heap.lookup i = some key ↔
    heap.pointer i = some key.addr ∧ heap.impls[key.addr]? = some key.val := by
  simp only [lookup, Option.bind_eq_bind, Option.bind_eq_some_iff, Option.pure_def,
    Option.some.injEq]
  constructor
  · rintro ⟨a, ha, p, hp, rfl⟩
    exact ⟨ha, hp⟩
  · rintro ⟨ha, hp⟩
    exact ⟨key.addr, ha, key.val, hp, rfl⟩

/-- Objects that point to the same block are the same key. -/
theorem lookup_addr_eq (hi : heap.lookup i = some key) (hj : heap.lookup j = some other)
    (hAddr : key.addr = other.addr) : key = other := by
  obtain ⟨-, hKey⟩ := lookup_eq_some.mp hi
  obtain ⟨-, hOther⟩ := lookup_eq_some.mp hj
  obtain ⟨a, p⟩ := key
  obtain ⟨b, q⟩ := other
  obtain rfl : a = b := hAddr
  exact congrArg _ (Option.some.inj (hKey.symm.trans hOther))

/-- The pointer of one object changed, or of a new one. -/
theorem lookup_congr (hPointer : heap'.pointer j = heap.pointer j)
    (hImpls : ∀ a, heap.pointer j = some a → heap'.impls[a]? = heap.impls[a]?) :
    heap'.lookup j = heap.lookup j := by
  rw [lookup, lookup, hPointer]
  cases ha : heap.pointer j with
  | none => rfl
  | some a => simp [hImpls a ha]

theorem pointer_concat (heap : KeyHeap) (p : Option ℕ) (impls : List KeyImpl) :
    pointer ⟨impls, heap.keys ++ [p]⟩ = Function.update heap.pointer heap.keys.length p :=
  slot_concat heap.keys p

theorem pointer_set (hi : i < heap.keys.length) (p : Option ℕ) (impls : List KeyImpl) :
    pointer ⟨impls, heap.keys.set i p⟩ = Function.update heap.pointer i p := slot_set hi p

/-- A block with one owner is not reached through another object. -/
theorem pointer_ne_of_useCount (hi : heap.pointer i = some a) (hUnique : heap.useCount a = 1)
    (hj : j ≠ i) : heap.pointer j ≠ some a := by
  intro hPointer
  have hTwo : 2 ≤ heap.useCount a := two_le_countP hi hPointer hj
  omega

/-- A shared block is reached through another object. -/
theorem exists_sharer (hi : heap.pointer i = some a) (hShared : heap.useCount a ≠ 1) :
    ∃ j, j ≠ i ∧ heap.pointer j = some a := exists_slot_ne hi hShared

/-! ### Effects -/

theorem Valid.pointed (h : heap.Valid) (ha : heap.pointer i = some a) :
    ∃ p, heap.impls[a]? = some p ∧ heap.lookup i = some ⟨a, p⟩ := by
  have hLt := h i a ha
  exact ⟨heap.impls[a], List.getElem?_eq_getElem hLt,
    lookup_eq_some.mpr ⟨ha, List.getElem?_eq_getElem hLt⟩⟩

/-- One object points elsewhere, while all blocks stay as they are: no other object changes. -/
theorem Valid.repoint (h : heap.Valid) {v : Option ℕ} {w : Option EntityKey}
    (hPointer : heap'.pointer = Function.update heap.pointer i v)
    (hImpls : ∀ a, a < heap.impls.length → heap'.impls[a]? = heap.impls[a]?)
    (hNew : ∀ a, v = some a → a < heap'.impls.length) (hShown : heap'.lookup i = w) :
    heap'.Valid ∧ heap'.lookup = Function.update heap.lookup i w := by
  refine ⟨fun k a ha => ?_, funext fun k => ?_⟩
  · rw [hPointer] at ha
    by_cases hk : k = i
    · rw [hk, Function.update_self] at ha
      exact hNew a ha
    · rw [Function.update_of_ne hk] at ha
      have hLt := h k a ha
      have hBlock := (hImpls a hLt).trans (List.getElem?_eq_getElem hLt)
      exact (List.getElem?_eq_some_iff.mp hBlock).1
  · by_cases hk : k = i
    · rw [hk, Function.update_self, hShown]
    · rw [Function.update_of_ne hk]
      refine lookup_congr ?_ fun a ha => hImpls a (h k a ha)
      rw [hPointer, Function.update_of_ne hk]

theorem Valid.construct (h : heap.Valid) (values : MapType) :
    Valid ⟨heap.impls ++ [{ values := values }], heap.keys ++ [some heap.impls.length]⟩ ∧
      lookup ⟨heap.impls ++ [{ values := values }], heap.keys ++ [some heap.impls.length]⟩ =
        Function.update heap.lookup heap.keys.length (some ⟨heap.impls.length, { values := values }⟩) := by
  refine h.repoint (pointer_concat ..) (fun a ha => List.getElem?_append_left ha) ?_ ?_
  · rintro a ⟨⟩
    simp
  · rw [lookup_eq_some, pointer_concat, Function.update_self]
    simp

/-- A new object that points to the block of object `j`. -/
theorem Valid.copy (h : heap.Valid) (hj : heap.pointer j = some a) :
    Valid { heap with keys := heap.keys ++ [some a] } ∧
      lookup { heap with keys := heap.keys ++ [some a] } =
        Function.update heap.lookup heap.keys.length (heap.lookup j) := by
  refine h.repoint (pointer_concat ..) (fun _ _ => rfl) ?_ ?_
  · rintro b ⟨⟩
    exact h j a hj
  · rw [lookup, lookup, pointer_concat, Function.update_self, hj]

/-- Object `i` points to the block of object `j` from now on. -/
theorem Valid.assign (h : heap.Valid) (hi : i < heap.keys.length) (hj : heap.pointer j = some a) :
    Valid { heap with keys := heap.keys.set i (some a) } ∧
      lookup { heap with keys := heap.keys.set i (some a) } =
        Function.update heap.lookup i (heap.lookup j) := by
  refine h.repoint (pointer_set hi ..) (fun _ _ => rfl) ?_ ?_
  · rintro b ⟨⟩
    exact h j a hj
  · rw [lookup, lookup, pointer_set hi, Function.update_self, hj]

theorem Valid.destroy (h : heap.Valid) (hi : i < heap.keys.length) :
    Valid { heap with keys := heap.keys.set i none } ∧
      lookup { heap with keys := heap.keys.set i none } = Function.update heap.lookup i none := by
  refine h.repoint (pointer_set hi ..) (fun _ _ => rfl) nofun ?_
  rw [lookup, pointer_set hi, Function.update_self]
  rfl

theorem Valid.setImpl (h : heap.Valid) (a : ℕ) (p : KeyImpl) : (heap.setImpl a p).Valid :=
  fun i b hb => by simpa [KeyHeap.setImpl] using h i b hb

/-- Every owner of the block sees its new content. -/
theorem Valid.lookup_setImpl (h : heap.Valid) (a : ℕ) (p : KeyImpl) (j : ℕ) :
    (heap.setImpl a p).lookup j =
      if heap.pointer j = some a then some ⟨a, p⟩ else heap.lookup j := by
  split
  · rename_i hPointer
    exact lookup_eq_some.mpr ⟨hPointer, by simp [KeyHeap.setImpl, h j a hPointer]⟩
  · rename_i hPointer
    refine lookup_congr rfl fun b hb => ?_
    have hne : a ≠ b := by
      rintro rfl
      exact hPointer hb
    simp [KeyHeap.setImpl, List.getElem?_set_ne hne]

/-- After `copy_check` the object is the only owner of its block, with the values from before. The
block of a single owner keeps its lock and its caches, and a clone is not locked. -/
theorem Valid.copyCheck (h : heap.Valid) (hi : heap.lookup i = some key) :
    ∃ heap' target, heap.copyCheck i = some (heap', target) ∧ heap'.Valid ∧
      heap'.keys.length = heap.keys.length ∧
      heap'.lookup = Function.update heap.lookup i (some target) ∧
      (∀ j, heap'.pointer j = some target.addr ↔ j = i) ∧
      (heap.useCount key.addr = 1 ∧ target = key ∨
        heap.useCount key.addr ≠ 1 ∧ target.val = key.val.clone) := by
  obtain ⟨hPointer, -⟩ := lookup_eq_some.mp hi
  by_cases hUnique : heap.useCount key.addr = 1
  · refine ⟨heap, key, by simp [KeyHeap.copyCheck, hi, hUnique], h, rfl, ?_, fun j => ?_,
      .inl ⟨hUnique, rfl⟩⟩
    · rw [← hi, Function.update_eq_self]
    · refine ⟨fun hj => ?_, fun hj => hj ▸ hPointer⟩
      by_contra hne
      exact pointer_ne_of_useCount hPointer hUnique hne hj
  · let heap' : KeyHeap :=
      { impls := heap.impls ++ [key.val.clone], keys := heap.keys.set i (some heap.impls.length) }
    have hPointer' : heap'.pointer = Function.update heap.pointer i (some heap.impls.length) :=
      pointer_set (lt_of_slot hPointer) ..
    obtain ⟨hValid, hLookup⟩ := h.repoint (w := some ⟨heap.impls.length, key.val.clone⟩) hPointer'
      (fun a ha => List.getElem?_append_left ha)
      (by
        rintro a ⟨⟩
        simp [heap'])
      (by
        rw [lookup_eq_some, hPointer', Function.update_self]
        simp [heap'])
    refine ⟨heap', ⟨heap.impls.length, key.val.clone⟩, by simp [KeyHeap.copyCheck, hi, hUnique, heap'],
      hValid, List.length_set, hLookup, fun j => ?_, .inr ⟨hUnique, rfl⟩⟩
    rw [hPointer']
    by_cases hj : j = i
    · simp [hj]
    · rw [Function.update_of_ne hj]
      exact iff_of_false (fun hb => (h j _ hb).ne rfl) hj

/-- A changed object. -/
theorem Valid.update (h : heap.Valid) (hi : heap.lookup i = some key) (f : MapType → MapType) :
    ∃ heap' key', heap.update i f = some heap' ∧ heap'.Valid ∧
      heap'.keys.length = heap.keys.length ∧
      heap'.lookup = Function.update heap.lookup i (some key') ∧
      (heap.useCount key.addr = 1 ∧ key'.val = { key.val with values := f key.val.values } ∨
        heap.useCount key.addr ≠ 1 ∧ key'.val = { values := f key.val.values }) := by
  obtain ⟨heap', target, hCheck, hValid, hLength, hLookup, hOwner, hCases⟩ := h.copyCheck hi
  refine ⟨heap'.setImpl target.addr { target.val with values := f target.val.values },
    ⟨target.addr, { target.val with values := f target.val.values }⟩,
    by simp [KeyHeap.update, hCheck], hValid.setImpl _ _, hLength, funext fun j => ?_, ?_⟩
  · rw [hValid.lookup_setImpl]
    by_cases hj : j = i
    · rw [if_pos ((hOwner j).mpr hj), hj, Function.update_self]
    · rw [if_neg (mt (hOwner j).mp hj), hLookup, Function.update_of_ne hj, Function.update_of_ne hj]
  · rcases hCases with ⟨hUnique, rfl⟩ | ⟨hShared, hClone⟩
    · exact .inl ⟨hUnique, rfl⟩
    · exact .inr ⟨hShared, by rw [hClone]; rfl⟩

theorem set_eq_update (heap : KeyHeap) (i : ℕ) (name value : String) :
    heap.set i name value = heap.update i (·.insert name value) := rfl

/-- The clone that `merge` may make of its target has the values from before, also when it merges
the target with itself. -/
theorem Valid.merge_eq_update (h : heap.Valid) (hi : heap.lookup i = some key)
    (hj : heap.lookup j = some other) :
    heap.merge i j = heap.update i (mergeValues · other.val.values) := by
  obtain ⟨heap', target, hCheck, -, -, hLookup, -, hCases⟩ := h.copyCheck hi
  have hOther : ∃ other', heap'.lookup j = some other' ∧ other'.val.values = other.val.values := by
    rw [hLookup]
    by_cases hji : j = i
    · obtain rfl := Option.some.inj (hi.symm.trans (hji ▸ hj))
      refine ⟨target, by rw [hji, Function.update_self], ?_⟩
      rcases hCases with ⟨-, rfl⟩ | ⟨-, hClone⟩
      · rfl
      · rw [hClone]
        rfl
    · exact ⟨other, by rw [Function.update_of_ne hji, hj], rfl⟩
  obtain ⟨other', hLookup', hValues⟩ := hOther
  simp [KeyHeap.merge, KeyHeap.update, hCheck, hLookup', hValues]

theorem Valid.lock (h : heap.Valid) (hash : HashFunctions) (hi : heap.lookup i = some key) :
    ∃ heap', heap.lock hash i = some heap' ∧ heap'.Valid ∧ heap'.keys.length = heap.keys.length ∧
      ∀ j, heap'.lookup j =
        if heap.pointer j = some key.addr then some ⟨key.addr, key.val.lock hash⟩
        else heap.lookup j :=
  ⟨heap.setImpl key.addr (key.val.lock hash), by simp [KeyHeap.lock, hi], h.setImpl _ _, rfl,
    h.lookup_setImpl _ _⟩

/-- The object whose values the operation changes, and the change. -/
def change (heap : KeyHeap) : KeyOp → Option (ℕ × (MapType → MapType))
  | .set i name value => some (i, (·.insert name value))
  | .merge i j => (heap.lookup j).map fun other => (i, (mergeValues · other.val.values))
  | _ => none

/-- What an operation does to the objects. -/
inductive Effect (hash : HashFunctions) (heap heap' : KeyHeap) : KeyOp → Prop
  | constructed {values : MapType} {a : ℕ} (hLength : heap'.keys.length = heap.keys.length + 1)
      (hLookup : heap'.lookup =
        Function.update heap.lookup heap.keys.length (some ⟨a, { values := values }⟩)) :
      Effect hash heap heap' (.construct values)
  | copied {j : ℕ} {other : EntityKey} (hOther : heap.lookup j = some other)
      (hLength : heap'.keys.length = heap.keys.length + 1)
      (hLookup : heap'.lookup = Function.update heap.lookup heap.keys.length (some other)) :
      Effect hash heap heap' (.copy j)
  | assigned {i j : ℕ} {key other : EntityKey} (hKey : heap.lookup i = some key)
      (hOther : heap.lookup j = some other) (hLength : heap'.keys.length = heap.keys.length)
      (hLookup : heap'.lookup = Function.update heap.lookup i (some other)) :
      Effect hash heap heap' (.assign i j)
  | destroyed {i : ℕ} {key : EntityKey} (hKey : heap.lookup i = some key)
      (hLength : heap'.keys.length = heap.keys.length)
      (hLookup : heap'.lookup = Function.update heap.lookup i none) :
      Effect hash heap heap' (.destroy i)
  | changed {op : KeyOp} {i : ℕ} {f : MapType → MapType} {key key' : EntityKey}
      (hChange : heap.change op = some (i, f)) (hKey : heap.lookup i = some key)
      (hLength : heap'.keys.length = heap.keys.length)
      (hLookup : heap'.lookup = Function.update heap.lookup i (some key'))
      (hCases : heap.useCount key.addr = 1 ∧
            key'.val = { key.val with values := f key.val.values } ∨
          heap.useCount key.addr ≠ 1 ∧ key'.val = { values := f key.val.values }) :
      Effect hash heap heap' op
  | locked {i : ℕ} {key : EntityKey} (hKey : heap.lookup i = some key)
      (hLength : heap'.keys.length = heap.keys.length)
      (hLookup : ∀ j, heap'.lookup j =
        if heap.pointer j = some key.addr then some ⟨key.addr, key.val.lock hash⟩
        else heap.lookup j) : Effect hash heap heap' (.lock i)

theorem Valid.step {op : KeyOp} (h : heap.Valid) (hStep : heap.step hash op = some heap') :
    heap'.Valid ∧ Effect hash heap heap' op := by
  cases op with
  | construct values =>
    obtain rfl := Option.some.inj hStep
    obtain ⟨hValid, hLookup⟩ := h.construct values
    exact ⟨hValid, .constructed (by simp) hLookup⟩
  | copy j =>
    obtain ⟨a, ha, hHeap⟩ := Option.bind_eq_some_iff.mp hStep
    obtain rfl := Option.some.inj hHeap
    obtain ⟨p, -, hOther⟩ := h.pointed ha
    obtain ⟨hValid, hLookup⟩ := h.copy ha
    exact ⟨hValid, .copied hOther (by simp) (hOther ▸ hLookup)⟩
  | assign i j =>
    obtain ⟨b, hb, hRest⟩ := Option.bind_eq_some_iff.mp hStep
    obtain ⟨a, ha, hHeap⟩ := Option.bind_eq_some_iff.mp hRest
    obtain rfl := Option.some.inj hHeap
    obtain ⟨q, -, hKey⟩ := h.pointed hb
    obtain ⟨p, -, hOther⟩ := h.pointed ha
    obtain ⟨hValid, hLookup⟩ := h.assign (lt_of_slot hb) ha
    exact ⟨hValid, .assigned hKey hOther (by simp) (hOther ▸ hLookup)⟩
  | destroy i =>
    obtain ⟨b, hb, hHeap⟩ := Option.bind_eq_some_iff.mp hStep
    obtain rfl := Option.some.inj hHeap
    obtain ⟨q, -, hKey⟩ := h.pointed hb
    obtain ⟨hValid, hLookup⟩ := h.destroy (lt_of_slot hb)
    exact ⟨hValid, .destroyed hKey (by simp) hLookup⟩
  | set i name value =>
    obtain ⟨⟨_, _⟩, hCheck, -⟩ := Option.bind_eq_some_iff.mp hStep
    obtain ⟨key, hKey, -⟩ := Option.bind_eq_some_iff.mp hCheck
    obtain ⟨heap₁, key', hUpdate, hValid, hLength, hLookup, hCases⟩ :=
      h.update hKey (·.insert name value)
    rw [← set_eq_update] at hUpdate
    obtain rfl := Option.some.inj (hUpdate.symm.trans hStep)
    exact ⟨hValid, .changed rfl hKey hLength hLookup hCases⟩
  | merge i j =>
    obtain ⟨⟨heap₁, target⟩, hCheck, hRest⟩ := Option.bind_eq_some_iff.mp hStep
    obtain ⟨key, hKey, -⟩ := Option.bind_eq_some_iff.mp hCheck
    have hOther : ∃ other, heap.lookup j = some other := by
      obtain ⟨other, hOther, -⟩ := Option.bind_eq_some_iff.mp hRest
      obtain ⟨heap₂, target₂, hCheck₂, -, -, hLookup, -⟩ := h.copyCheck hKey
      obtain ⟨rfl, rfl⟩ := Prod.mk.inj (Option.some.inj (hCheck₂.symm.trans hCheck))
      by_cases hji : j = i
      · exact ⟨key, hji ▸ hKey⟩
      · exact ⟨other, by rwa [hLookup, Function.update_of_ne hji] at hOther⟩
    obtain ⟨other, hOther⟩ := hOther
    obtain ⟨heap₂, key', hUpdate, hValid, hLength, hLookup, hCases⟩ :=
      h.update hKey (mergeValues · other.val.values)
    rw [← h.merge_eq_update hKey hOther] at hUpdate
    obtain rfl := Option.some.inj (hUpdate.symm.trans hStep)
    exact ⟨hValid, .changed (by rw [change, hOther]; rfl) hKey hLength hLookup hCases⟩
  | lock i =>
    obtain ⟨key, hKey, -⟩ := Option.bind_eq_some_iff.mp hStep
    obtain ⟨heap₁, hLock, hValid, hLength, hLookup⟩ := h.lock hash hKey
    obtain rfl := Option.some.inj (hLock.symm.trans hStep)
    exact ⟨hValid, .locked hKey hLength hLookup⟩

/-- What every object has, and the new content of the one that changes, every object has afterwards. -/
theorem forall_lookup_update {P : EntityKey → Prop} {v : Option EntityKey}
    (h : ∀ i key, heap.lookup i = some key → P key)
    (hLookup : heap'.lookup = Function.update heap.lookup j v) (hNew : ∀ key ∈ v, P key) :
    ∀ i key, heap'.lookup i = some key → P key := by
  intro i key hKey
  rw [hLookup] at hKey
  by_cases hi : i = j
  · rw [hi, Function.update_self] at hKey
    exact hNew key hKey
  · rw [Function.update_of_ne hi] at hKey
    exact h i key hKey

/-- Every object has `P` after a step as before it, if new objects have `P` and no change and no lock
takes it away. -/
theorem Effect.forall_impl {P : KeyImpl → Prop} {op : KeyOp} (hEffect : Effect hash heap heap' op)
    (hNew : ∀ values, P { values := values }) (hChange : ∀ p values, P p → P { p with values })
    (hLock : ∀ i, op = .lock i → ∀ p, P p → P (p.lock hash))
    (h : ∀ i key, heap.lookup i = some key → P key.val) :
    ∀ i key, heap'.lookup i = some key → P key.val := by
  cases hEffect with
  | constructed _ hLookup =>
    refine forall_lookup_update h hLookup fun key hKey => ?_
    obtain rfl := Option.some.inj hKey
    exact hNew _
  | copied hOther _ hLookup =>
    exact forall_lookup_update h hLookup fun key hKey => h _ key (hOther.trans hKey)
  | assigned _ hOther _ hLookup =>
    exact forall_lookup_update h hLookup fun key hKey => h _ key (hOther.trans hKey)
  | destroyed _ _ hLookup => exact forall_lookup_update h hLookup nofun
  | changed _ hOld _ hLookup hCases =>
    refine forall_lookup_update h hLookup fun key hKey => ?_
    obtain rfl := Option.some.inj hKey
    rcases hCases with ⟨-, hVal⟩ | ⟨-, hVal⟩ <;> rw [hVal]
    · exact hChange _ _ (h _ _ hOld)
    · exact hNew _
  | locked hOld _ hLookup =>
    intro i key hKey
    rw [hLookup] at hKey
    split at hKey
    · obtain rfl := Option.some.inj hKey
      exact hLock _ rfl _ (h _ _ hOld)
    · exact h i key hKey

theorem valid_empty : Valid {} := by
  intro i a ha
  cases ha

end KeyHeap

end Arby.Entity
