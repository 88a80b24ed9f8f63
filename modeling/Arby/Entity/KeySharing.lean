import Arby.Entity.KeyHeap

/-! The sharing of blocks between keys, against keys that are values of their own: `set` and `merge`
copy a shared block before they write to it, and lose its lock; `lock` writes to it at once. -/

namespace Arby.Entity

open Kit

/-- A key as a plain value: what can be observed of it. -/
structure PlainKey where
  values : MapType := ∅
  locked : Bool := false
deriving DecidableEq

def EntityKey.observed (key : EntityKey) : PlainKey := ⟨key.val.values, key.locked⟩

/-- Any number of plain keys, each with its own values. -/
structure PlainKeys where
  keys : List (Option PlainKey) := []
deriving DecidableEq

namespace PlainKeys

def lookup (plain : PlainKeys) : ℕ → Option PlainKey := slot plain.keys

/-- Object `i` replaced. -/
def put (plain : PlainKeys) (i : ℕ) (key : Option PlainKey) : PlainKeys := ⟨plain.keys.set i key⟩

/-- The operations on keys, every copy a deep copy. -/
def step (plain : PlainKeys) : KeyOp → Option PlainKeys
  | .construct values => some ⟨plain.keys ++ [some { values := values }]⟩
  | .copy j => do
    let other ← plain.lookup j
    return ⟨plain.keys ++ [some other]⟩
  | .assign i j => do
    let _ ← plain.lookup i
    let other ← plain.lookup j
    return plain.put i (some other)
  | .destroy i => do
    let _ ← plain.lookup i
    return plain.put i none
  | .set i key value => do
    let target ← plain.lookup i
    return plain.put i (some { target with values := target.values.insert key value })
  | .merge i j => do
    let target ← plain.lookup i
    let other ← plain.lookup j
    return plain.put i (some { target with values := mergeValues target.values other.values })
  | .lock i => do
    let target ← plain.lookup i
    return plain.put i (some { target with locked := true })

variable {plain : PlainKeys} {i : ℕ}

theorem lookup_concat (plain : PlainKeys) (key : Option PlainKey) :
    lookup ⟨plain.keys ++ [key]⟩ = Function.update plain.lookup plain.keys.length key :=
  slot_concat plain.keys key

theorem lookup_put {target : PlainKey} (h : plain.lookup i = some target) (key : Option PlainKey) :
    (plain.put i key).lookup = Function.update plain.lookup i key := slot_set (lt_of_slot h) key

@[simp] theorem length_put (plain : PlainKeys) (i : ℕ) (key : Option PlainKey) :
    (plain.put i key).keys.length = plain.keys.length := List.length_set

end PlainKeys

/-- Keys that share blocks, beside plain keys that go through the same operations. -/
structure KeyPair where
  heap : KeyHeap := {}
  plain : PlainKeys := {}

namespace KeyPair

open KeyHeap (lookup_eq_some exists_sharer pointer_ne_of_useCount Effect Valid)

variable {pair pair' : KeyPair} {hash : HashFunctions} {op : KeyOp} {i : ℕ}

def step (hash : HashFunctions) (pair : KeyPair) (op : KeyOp) : Option KeyPair := do
  let heap ← pair.heap.step hash op
  let plain ← pair.plain.step op
  return ⟨heap, plain⟩

/-- What is observed through each object is what the plain key holds. -/
structure Agrees (pair : KeyPair) : Prop where
  lookup : ∀ i, (pair.heap.lookup i).map EntityKey.observed = pair.plain.lookup i
  length : pair.heap.keys.length = pair.plain.keys.length

/-- The object that the operation locks. -/
def lockTarget : KeyOp → Option ℕ
  | .lock i => some i
  | _ => none

/-- `lock` is called on no unlocked key whose block is shared, `set` and `merge` on no locked one. -/
def KeepsOthers (heap : KeyHeap) (op : KeyOp) : Prop :=
  (∀ i ∈ lockTarget op, ∀ key ∈ heap.lookup i,
      key.locked = true ∨ heap.useCount key.addr = 1) ∧
    ∀ change ∈ heap.change op, ∀ key ∈ heap.lookup change.1,
      key.locked = true → heap.useCount key.addr = 1

instance : DecidableRel KeepsOthers := fun heap op => by
  dsimp only [KeepsOthers]
  infer_instance

variable {heap heap' : KeyHeap} {plain plain' : PlainKeys} {key key' other : EntityKey}
  {ops : List KeyOp} {j : ℕ}

theorem Agrees.lookup_plain (h : Agrees ⟨heap, plain⟩) (hKey : heap.lookup i = some key) :
    plain.lookup i = some key.observed := by
  rw [← h.lookup i, hKey, Option.map_some]

/-- Both sides replace one object. -/
theorem Agrees.update_iff (h : Agrees ⟨heap, plain⟩) {v : Option EntityKey} {p : Option PlainKey}
    (hHeap : heap'.lookup = Function.update heap.lookup i v)
    (hPlain : plain'.lookup = Function.update plain.lookup i p)
    (hLength : heap'.keys.length = plain'.keys.length) :
    Agrees ⟨heap', plain'⟩ ↔ v.map EntityKey.observed = p := by
  constructor
  · intro h'
    have hi := h'.lookup i
    rwa [hHeap, hPlain, Function.update_self, Function.update_self] at hi
  · refine fun hv => ⟨fun j => ?_, hLength⟩
    rw [hHeap, hPlain]
    by_cases hj : j = i
    · rw [hj, Function.update_self, Function.update_self, hv]
    · rw [Function.update_of_ne hj, Function.update_of_ne hj]
      exact h.lookup j

/-- The plain key changes as the key with its block does. -/
theorem Agrees.step_change (h : Agrees ⟨heap, plain⟩) {f : MapType → MapType}
    (hChange : heap.change op = some (i, f)) (hKey : heap.lookup i = some key) :
    plain.step op = some (plain.put i (some ⟨f key.val.values, key.locked⟩)) := by
  cases op with
  | set i' name value =>
    obtain ⟨rfl, rfl⟩ := Prod.mk.inj (Option.some.inj hChange)
    simp [PlainKeys.step, h.lookup_plain hKey, EntityKey.observed]
  | merge i' j =>
    obtain ⟨other, hOther, hPair⟩ := Option.map_eq_some_iff.mp hChange
    obtain ⟨rfl, rfl⟩ := Prod.mk.inj hPair
    simp [PlainKeys.step, h.lookup_plain hKey, h.lookup_plain hOther, EntityKey.observed]
  | _ => cases hChange

theorem keepsOthers_change {f : MapType → MapType} (hChange : heap.change op = some (i, f))
    (hKey : heap.lookup i = some key) :
    KeepsOthers heap op ↔ (key.locked = true → heap.useCount key.addr = 1) := by
  have hLock : lockTarget op = none := by
    cases op with
    | lock i => cases hChange
    | _ => rfl
  simp [KeepsOthers, hLock, hChange, hKey]

theorem keepsOthers_lock (hKey : heap.lookup i = some key) :
    KeepsOthers heap (.lock i) ↔ key.locked = true ∨ heap.useCount key.addr = 1 := by
  simp [KeepsOthers, lockTarget, KeyHeap.change, hKey]

/-- A changed object shows its lock as before exactly when it was not locked or not shared. -/
theorem observed_change_iff {f : MapType → MapType}
    (hCases : heap.useCount key.addr = 1 ∧ key'.val = { key.val with values := f key.val.values } ∨
      heap.useCount key.addr ≠ 1 ∧ key'.val = { values := f key.val.values }) :
    key'.observed = ⟨f key.val.values, key.locked⟩ ↔
      (key.locked = true → heap.useCount key.addr = 1) := by
  rcases hCases with ⟨hUnique, hVal⟩ | ⟨hShared, hVal⟩
  · simp [EntityKey.observed, EntityKey.locked, hVal, hUnique]
  · simp [EntityKey.observed, EntityKey.locked, hVal, hShared]

/-- `lock` shows in no other object exactly when it was locked already or not shared. -/
theorem Agrees.lock_iff (h : Agrees ⟨heap, plain⟩) (hKey : heap.lookup i = some key)
    (hLength : heap'.keys.length = heap.keys.length)
    (hLookup : ∀ j, heap'.lookup j =
      if heap.pointer j = some key.addr then some ⟨key.addr, key.val.lock hash⟩
      else heap.lookup j) :
    Agrees ⟨heap', plain.put i (some ⟨key.val.values, true⟩)⟩ ↔
      key.locked = true ∨ heap.useCount key.addr = 1 := by
  obtain ⟨hPointer, hImpl⟩ := lookup_eq_some.mp hKey
  have hPlain := PlainKeys.lookup_put (h.lookup_plain hKey) (some ⟨key.val.values, true⟩)
  have hSharer : ∀ j, heap.pointer j = some key.addr → heap.lookup j = some key := fun j hj =>
    lookup_eq_some.mpr ⟨hj, hImpl⟩
  constructor
  · intro h'
    by_contra hNot
    obtain ⟨hUnlocked, hShared⟩ := not_or.mp hNot
    obtain ⟨j, hne, hj⟩ := exists_sharer hPointer hShared
    have hAt := h'.lookup j
    rw [hLookup, if_pos hj, hPlain, Function.update_of_ne hne,
      h.lookup_plain (hSharer j hj)] at hAt
    exact hUnlocked (congrArg PlainKey.locked (Option.some.inj hAt)).symm
  · refine fun hCases => ⟨fun j => ?_, ?_⟩
    · rw [hLookup, hPlain]
      by_cases hji : j = i
      · rw [hji, if_pos hPointer, Function.update_self]
        rfl
      · rw [Function.update_of_ne hji]
        split
        · rename_i hj
          rcases hCases with hLocked | hUnique
          · rw [h.lookup_plain (hSharer j hj), EntityKey.observed, hLocked]
            rfl
          · exact absurd hj (pointer_ne_of_useCount hPointer hUnique hji)
        · exact h.lookup j
    · exact hLength.trans (h.length.trans (plain.length_put i _).symm)

/-- The step lemma: the plain side takes the step as well, and what is observed still agrees exactly
when the operation reaches no other object and loses no lock. -/
theorem Agrees.step_iff (h : Agrees ⟨heap, plain⟩) (hEffect : Effect hash heap heap' op) :
    ∃ plain', plain.step op = some plain' ∧
      (KeepsOthers heap op ↔ Agrees ⟨heap', plain'⟩) := by
  cases hEffect with
  | constructed hLength hLookup =>
    refine ⟨_, rfl, iff_of_true (by simp [KeepsOthers, lockTarget, KeyHeap.change]) ?_⟩
    rw [h.length] at hLookup
    exact (h.update_iff hLookup (plain.lookup_concat _)
      (by simpa using hLength.trans (congrArg (· + 1) h.length))).mpr rfl
  | copied hOther hLength hLookup =>
    refine ⟨_, by rw [PlainKeys.step, h.lookup_plain hOther]; rfl,
      iff_of_true (by simp [KeepsOthers, lockTarget, KeyHeap.change]) ?_⟩
    rw [h.length] at hLookup
    exact (h.update_iff hLookup (plain.lookup_concat _)
      (by simpa using hLength.trans (congrArg (· + 1) h.length))).mpr rfl
  | assigned hKey hOther hLength hLookup =>
    refine ⟨_, by rw [PlainKeys.step, h.lookup_plain hKey, h.lookup_plain hOther]; rfl,
      iff_of_true (by simp [KeepsOthers, lockTarget, KeyHeap.change]) ?_⟩
    exact (h.update_iff hLookup (PlainKeys.lookup_put (h.lookup_plain hKey) _)
      (hLength.trans (h.length.trans (plain.length_put _ _).symm))).mpr rfl
  | destroyed hKey hLength hLookup =>
    refine ⟨_, by rw [PlainKeys.step, h.lookup_plain hKey]; rfl,
      iff_of_true (by simp [KeepsOthers, lockTarget, KeyHeap.change]) ?_⟩
    exact (h.update_iff hLookup (PlainKeys.lookup_put (h.lookup_plain hKey) _)
      (hLength.trans (h.length.trans (plain.length_put _ _).symm))).mpr rfl
  | changed hChange hKey hLength hLookup hCases =>
    refine ⟨_, h.step_change hChange hKey, ?_⟩
    rw [keepsOthers_change hChange hKey, ← observed_change_iff hCases,
      h.update_iff hLookup (PlainKeys.lookup_put (h.lookup_plain hKey) _)
        (hLength.trans (h.length.trans (plain.length_put _ _).symm)),
      Option.map_some, Option.some.injEq]
  | locked hKey hLength hLookup =>
    refine ⟨_, by rw [PlainKeys.step, h.lookup_plain hKey]; rfl, ?_⟩
    rw [keepsOthers_lock hKey, ← h.lock_iff hKey hLength hLookup]
    rfl

theorem agrees_empty : Agrees {} := ⟨fun _ => rfl, rfl⟩

theorem step_eq_some : pair.step hash op = some pair' ↔
    pair.heap.step hash op = some pair'.heap ∧ pair.plain.step op = some pair'.plain := by
  simp only [step, Option.bind_eq_bind, Option.bind_eq_some_iff, Option.pure_def,
    Option.some.injEq]
  constructor
  · rintro ⟨heap, hHeap, plain, hPlain, rfl⟩
    exact ⟨hHeap, hPlain⟩
  · rintro ⟨hHeap, hPlain⟩
    exact ⟨_, hHeap, _, hPlain, rfl⟩

theorem along_of_run (hRun : run (KeyHeap.step hash) pair.heap ops = some heap) :
    Along (step hash) (fun pair op => (pair.heap.step hash op).isSome) pair ops := by
  induction ops generalizing pair with
  | nil => trivial
  | cons op ops ih =>
    obtain ⟨heap₁, hHeap, hRest⟩ := Option.bind_eq_some_iff.mp hRun
    refine ⟨Option.isSome_of_eq_some hHeap, fun pair' hStep => ih ?_⟩
    obtain rfl := Option.some.inj (hHeap.symm.trans (step_eq_some.mp hStep).1)
    exact hRest

/-- A run on shared blocks shows the same as the run on plain keys, after every step, exactly when no
step locks an unlocked key whose block is shared or changes a locked one. -/
theorem agrees_plain_iff (hash : HashFunctions) (ops : List KeyOp) (heap : KeyHeap)
    (hRun : run (KeyHeap.step hash) {} ops = some heap) :
    Safe (step hash) (fun _ _ pair' => pair'.Agrees) {} ops ↔
      Along (step hash) (fun pair op => KeepsOthers pair.heap op) {} ops := by
  refine safe_iff_along (I := fun pair => pair.heap.Valid ∧ pair.Agrees)
    (A := fun pair op => (pair.heap.step hash op).isSome) ?_ ?_
    ⟨KeyHeap.valid_empty, agrees_empty⟩ (along_of_run hRun)
  · rintro ⟨heap, plain⟩ op ⟨hValid, hAgrees⟩ hSome
    obtain ⟨heap', hHeap⟩ := Option.isSome_iff_exists.mp hSome
    obtain ⟨plain', hPlain, hIff⟩ := hAgrees.step_iff (hValid.step hHeap).2
    rw [hIff]
    constructor
    · exact fun h' => ⟨⟨heap', plain'⟩, step_eq_some.mpr ⟨hHeap, hPlain⟩, h'⟩
    · rintro ⟨pair', hStep, h'⟩
      obtain ⟨hHeap', hPlain'⟩ := step_eq_some.mp hStep
      obtain rfl := Option.some.inj (hHeap.symm.trans hHeap')
      obtain rfl := Option.some.inj (hPlain.symm.trans hPlain')
      exact h'
  · rintro ⟨heap, plain⟩ op ⟨heap', plain'⟩ ⟨hValid, hAgrees⟩ - hKeeps hStep
    obtain ⟨hHeap, hPlain⟩ := step_eq_some.mp hStep
    obtain ⟨hValid', hEffect⟩ := hValid.step hHeap
    obtain ⟨plain'', hPlain', hIff⟩ := hAgrees.step_iff hEffect
    obtain rfl := Option.some.inj (hPlain'.symm.trans hPlain)
    exact ⟨hValid', hIff.mp hKeeps⟩

/-- A copy that is changed, and locked after that. -/
def lockedCopy : List KeyOp := [.construct ∅, .copy 0, .set 1 "Exchange" "PT", .lock 1, .lock 0]

theorem lockedCopy_agrees :
    Safe (step sizes) (fun _ _ pair' => pair'.Agrees) {} lockedCopy := by
  obtain ⟨heap, hRun⟩ := Option.isSome_iff_exists.mp
    (show (run (KeyHeap.step sizes) {} lockedCopy).isSome = true by decide +kernel)
  refine (agrees_plain_iff sizes lockedCopy heap hRun).mpr ?_
  decide +kernel

/-- A key that is locked while a copy shares its block. -/
def lockedOriginal : List KeyOp := [.construct ∅, .copy 0, .lock 0]

/-- The copy is locked with it. -/
theorem lockedOriginal_disagrees :
    ∃ pair, run (step sizes) {} lockedOriginal = some pair ∧
      (pair.heap.lookup 1).map EntityKey.observed = some ⟨∅, true⟩ ∧
      pair.plain.lookup 1 = some ⟨∅, false⟩ := by
  refine ⟨_, rfl, ?_, ?_⟩ <;> decide +kernel

end KeyPair

end Arby.Entity
