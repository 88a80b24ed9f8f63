import Arby.Entity.KeyHeap

/-! Locked keys as keys of maps: they compare by their values as long as the cached hash and digest
are those of the values, and a change of a locked key that nobody shares leaves the caches behind. -/

namespace Arby.Entity

open Kit

/-- The digest that `lock` caches for `values`. -/
def digestOf (hash : HashFunctions) (values : MapType) : String :=
  stringify (hash.sha1 (KeyImpl.sha1Input values))

namespace KeyImpl

variable {p q : KeyImpl} {hash : HashFunctions}

/-- The caches are those of the values. -/
def Cached (hash : HashFunctions) (p : KeyImpl) : Prop :=
  p.cpphash = hash.map p.values ∧ p.sha1hash = digestOf hash p.values

theorem cached_lock (hash : HashFunctions) (p : KeyImpl) : (p.lock hash).Cached hash := ⟨rfl, rfl⟩

theorem tie_eq_iff : p.tie = q.tie ↔
    p.cpphash = q.cpphash ∧ p.sha1hash = q.sha1hash ∧ p.values = q.values := by
  have hEntries : p.values.entries.map toLex = q.values.entries.map toLex ↔ p.values = q.values :=
    (List.map_injective_iff.mpr toLex.injective).eq_iff.trans ⟨OrdMap.ext, congrArg _⟩
  simp only [tie, toLex_inj, Prod.mk.injEq, hEntries]

/-- With their caches up to date, keys compare equal exactly when their values are. -/
theorem Cached.tie_eq_iff (hp : p.Cached hash) (hq : q.Cached hash) :
    p.tie = q.tie ↔ p.values = q.values := by
  rw [KeyImpl.tie_eq_iff, hp.1, hp.2, hq.1, hq.2]
  refine ⟨fun h => h.2.2, fun h => ?_⟩
  rw [h]
  exact ⟨rfl, rfl, rfl⟩

end KeyImpl

namespace KeyHeap

variable {heap heap' : KeyHeap} {hash : HashFunctions} {key other : EntityKey} {op : KeyOp}
  {ops : List KeyOp}

/-- `key` is one of the objects, and locked. -/
def IsLocked (heap : KeyHeap) (key : EntityKey) : Prop :=
  ∃ i, heap.lookup i = some key ∧ key.locked = true

/-- What a map, or a hash map, relies on of its keys: equality is that of the values, hashes are
computed from the values, and the order is strict and total. -/
structure Usable (hash : HashFunctions) (heap : KeyHeap) : Prop where
  hashValue : ∀ key, heap.IsLocked key → key.hashValue = hash.map key.val.values
  sha1Digest : ∀ key, heap.IsLocked key → key.sha1Digest = digestOf hash key.val.values
  eq_iff : ∀ key other, heap.IsLocked key → heap.IsLocked other →
    (key.eq other ↔ key.val.values = other.val.values)
  lt_irrefl : ∀ key, heap.IsLocked key → ¬key.lt key
  lt_trans : ∀ key other third, heap.IsLocked key → heap.IsLocked other → heap.IsLocked third →
    key.lt other → other.lt third → key.lt third
  incomparable : ∀ key other, heap.IsLocked key → heap.IsLocked other →
    (¬key.lt other ∧ ¬other.lt key ↔ key.eq other)

/-- The same for monikers of locked keys. -/
structure UsableMonikers (hash : HashFunctions) (heap : KeyHeap) : Prop where
  hashValue : ∀ l r : EntityMoniker, heap.IsLocked l.key → heap.IsLocked r.key → l.eq r →
    l.hashValue hash = r.hashValue hash
  eq_iff : ∀ l r : EntityMoniker, heap.IsLocked l.key → heap.IsLocked r.key →
    (l.eq r ↔ l.classname = r.classname ∧ l.key.val.values = r.key.val.values)
  lt_irrefl : ∀ l : EntityMoniker, heap.IsLocked l.key → ¬l.lt l
  lt_trans : ∀ l m r : EntityMoniker, heap.IsLocked l.key → heap.IsLocked m.key →
    heap.IsLocked r.key → l.lt m → m.lt r → l.lt r
  incomparable : ∀ l r : EntityMoniker, heap.IsLocked l.key → heap.IsLocked r.key →
    (¬l.lt r ∧ ¬r.lt l ↔ l.eq r)

/-- Every locked object has its caches up to date. -/
def UpToDate (hash : HashFunctions) (heap : KeyHeap) : Prop :=
  ∀ key, heap.IsLocked key → key.val.Cached hash

/-- The fast path of the comparisons by pointer agrees with that by the members. -/
theorem IsLocked.eq_iff (h : heap.IsLocked key) (h' : heap.IsLocked other) :
    key.eq other ↔ key.val.tie = other.val.tie := by
  obtain ⟨i, hi, -⟩ := h
  obtain ⟨j, hj, -⟩ := h'
  simp only [EntityKey.eq, Bool.or_eq_true, decide_eq_true_eq]
  refine ⟨?_, .inr⟩
  rintro (hAddr | hTie)
  · rw [lookup_addr_eq hi hj hAddr]
  · exact hTie

theorem IsLocked.lt_iff (h : heap.IsLocked key) (h' : heap.IsLocked other) :
    key.lt other ↔ key.val.tie < other.val.tie := by
  obtain ⟨i, hi, -⟩ := h
  obtain ⟨j, hj, -⟩ := h'
  simp only [EntityKey.lt, Bool.and_eq_true, decide_eq_true_eq, ne_eq]
  refine ⟨And.right, fun hLt => ⟨fun hAddr => ?_, hLt⟩⟩
  rw [lookup_addr_eq hi hj hAddr] at hLt
  exact lt_irrefl _ hLt

/-- A moniker compares like the pair of its class name and the members of its key. -/
def monikerTie (arg : EntityMoniker) : String ×ₗ ℕ ×ₗ String ×ₗ List (String ×ₗ String) :=
  toLex (arg.classname, arg.key.val.tie)

theorem moniker_eq_iff {l r : EntityMoniker} (h : heap.IsLocked l.key) (h' : heap.IsLocked r.key) :
    l.eq r ↔ monikerTie l = monikerTie r := by
  simp only [EntityMoniker.eq, Bool.and_eq_true, decide_eq_true_eq, h.eq_iff h', monikerTie,
    toLex_inj, Prod.mk.injEq]

theorem moniker_lt_iff {l r : EntityMoniker} (h : heap.IsLocked l.key) (h' : heap.IsLocked r.key) :
    l.lt r ↔ monikerTie l < monikerTie r := by
  simp only [EntityMoniker.lt, Bool.or_eq_true, Bool.and_eq_true, decide_eq_true_eq, h.lt_iff h',
    monikerTie, Prod.Lex.toLex_lt_toLex]

theorem not_lt_and_not_lt_iff {α : Type*} [LinearOrder α] {a b : α} :
    ¬a < b ∧ ¬b < a ↔ a = b := by
  rw [not_lt, not_lt, and_comm, le_antisymm_iff]

theorem UpToDate.usable (h : heap.UpToDate hash) : heap.Usable hash where
  hashValue key hKey := (h key hKey).1
  sha1Digest key hKey := (h key hKey).2
  eq_iff key other hKey hOther :=
    (hKey.eq_iff hOther).trans ((h key hKey).tie_eq_iff (h other hOther))
  lt_irrefl key hKey := by
    rw [hKey.lt_iff hKey]
    exact lt_irrefl _
  lt_trans key other third hKey hOther hThird := by
    rw [hKey.lt_iff hOther, hOther.lt_iff hThird, hKey.lt_iff hThird]
    exact lt_trans
  incomparable key other hKey hOther := by
    rw [hKey.lt_iff hOther, hOther.lt_iff hKey, hKey.eq_iff hOther]
    exact not_lt_and_not_lt_iff

theorem UpToDate.usableMonikers (h : heap.UpToDate hash) : heap.UsableMonikers hash where
  hashValue l r hl hr hEq := by
    rw [moniker_eq_iff hl hr, monikerTie, monikerTie, toLex_inj, Prod.mk.injEq] at hEq
    rw [EntityMoniker.hashValue, EntityMoniker.hashValue, hEq.1, EntityKey.hashValue,
      EntityKey.hashValue, (KeyImpl.tie_eq_iff.mp hEq.2).1]
  eq_iff l r hl hr := by
    rw [moniker_eq_iff hl hr, monikerTie, monikerTie, toLex_inj, Prod.mk.injEq,
      (h l.key hl).tie_eq_iff (h r.key hr)]
  lt_irrefl l hl := by
    rw [moniker_lt_iff hl hl]
    exact lt_irrefl _
  lt_trans l m r hl hm hr := by
    rw [moniker_lt_iff hl hm, moniker_lt_iff hm hr, moniker_lt_iff hl hr]
    exact lt_trans
  incomparable l r hl hr := by
    rw [moniker_lt_iff hl hr, moniker_lt_iff hr hl, moniker_eq_iff hl hr]
    exact not_lt_and_not_lt_iff

/-- The operation changes no locked key that nobody shares, unless its hash and its digest stay as
they are. -/
def KeepsHashes (hash : HashFunctions) (heap : KeyHeap) (op : KeyOp) : Prop :=
  ∀ change ∈ heap.change op, ∀ key ∈ heap.lookup change.1,
    key.locked = true → heap.useCount key.addr = 1 →
      hash.map (change.2 key.val.values) = hash.map key.val.values ∧
        digestOf hash (change.2 key.val.values) = digestOf hash key.val.values

instance : DecidableRel (KeepsHashes hash) := fun heap op => by
  dsimp only [KeepsHashes]
  infer_instance

theorem Usable.upToDate (h : heap.Usable hash) : heap.UpToDate hash :=
  fun key hKey => ⟨h.hashValue key hKey, h.sha1Digest key hKey⟩

theorem upToDate_iff_usable :
    heap.UpToDate hash ↔ heap.Usable hash ∧ heap.UsableMonikers hash :=
  ⟨fun h => ⟨h.usable, h.usableMonikers⟩, fun h => h.1.upToDate⟩

/-- One object changed: what it shows has to have its caches up to date. -/
theorem UpToDate.update_iff (h : heap.UpToDate hash) {i : ℕ} {v : Option EntityKey}
    (hLookup : heap'.lookup = Function.update heap.lookup i v) :
    heap'.UpToDate hash ↔ ∀ key ∈ v, key.locked = true → key.val.Cached hash := by
  constructor
  · intro h' key hKey hLocked
    exact h' key ⟨i, by rw [hLookup, Function.update_self]; exact hKey, hLocked⟩
  · rintro hNew key ⟨j, hj, hLocked⟩
    exact forall_lookup_update (P := fun key => key.locked = true → key.val.Cached hash)
      (fun j key hKey hLocked => h key ⟨j, hKey, hLocked⟩) hLookup hNew j key hj hLocked

theorem UpToDate.of_other (h : heap.UpToDate hash) {j : ℕ} (hOther : heap.lookup j = some other) :
    ∀ key ∈ some other, key.locked = true → key.val.Cached hash := by
  rintro key hKey hLocked
  obtain rfl := Option.mem_some_iff.mp hKey
  exact h other ⟨j, hOther, hLocked⟩

theorem UpToDate.locked (h : heap.UpToDate hash) {a : ℕ} {p : KeyImpl}
    (hLookup : ∀ j, heap'.lookup j =
      if heap.pointer j = some a then some ⟨a, p.lock hash⟩ else heap.lookup j) :
    heap'.UpToDate hash := by
  rintro key ⟨j, hj, hLocked⟩
  rw [hLookup] at hj
  split at hj
  · obtain rfl := Option.some.inj hj
    exact p.cached_lock hash
  · exact h key ⟨j, hj, hLocked⟩

/-- A changed object keeps a lock and caches only when nobody shares its block. -/
theorem UpToDate.changed_iff (h : heap.UpToDate hash) {i : ℕ} {f : MapType → MapType}
    {key key' : EntityKey} (hKey : heap.lookup i = some key)
    (hLookup : heap'.lookup = Function.update heap.lookup i (some key'))
    (hCases : heap.useCount key.addr = 1 ∧ key'.val = { key.val with values := f key.val.values } ∨
      heap.useCount key.addr ≠ 1 ∧ key'.val = { values := f key.val.values }) :
    heap'.UpToDate hash ↔ (key.locked = true → heap.useCount key.addr = 1 →
      hash.map (f key.val.values) = hash.map key.val.values ∧
        digestOf hash (f key.val.values) = digestOf hash key.val.values) := by
  rw [h.update_iff hLookup]
  simp only [Option.mem_some_iff, forall_eq']
  rcases hCases with ⟨hUnique, hVal⟩ | ⟨hShared, hVal⟩
  · simp only [EntityKey.locked, KeyImpl.Cached, hVal, hUnique, forall_const]
    refine forall_congr' fun hLocked => ?_
    obtain ⟨hHash, hDigest⟩ := h key ⟨i, hKey, hLocked⟩
    rw [hHash, hDigest, eq_comm, eq_comm (a := digestOf hash key.val.values)]
  · simp [EntityKey.locked, hVal, hShared]

/-- The step lemma: the caches stay up to date exactly when the operation keeps the hashes. -/
theorem UpToDate.step_iff (h : heap.UpToDate hash) (hEffect : Effect hash heap heap' op) :
    heap.KeepsHashes hash op ↔ heap'.UpToDate hash := by
  cases hEffect with
  | constructed _ hLookup =>
    rw [h.update_iff hLookup]
    simp [KeepsHashes, change, EntityKey.locked]
  | copied hOther _ hLookup =>
    exact iff_of_true (by simp [KeepsHashes, change]) ((h.update_iff hLookup).mpr (h.of_other hOther))
  | assigned _ hOther _ hLookup =>
    exact iff_of_true (by simp [KeepsHashes, change]) ((h.update_iff hLookup).mpr (h.of_other hOther))
  | destroyed _ _ hLookup =>
    rw [h.update_iff hLookup]
    simp [KeepsHashes, change]
  | changed hChange hKey _ hLookup hCases =>
    rw [h.changed_iff hKey hLookup hCases]
    simp [KeepsHashes, hChange, hKey]
  | locked _ _ hLookup =>
    exact iff_of_true (by simp [KeepsHashes, change]) (h.locked hLookup)

theorem upToDate_empty : UpToDate hash {} := by
  rintro key ⟨i, hi, -⟩
  cases hi

/-- Locked keys and monikers of locked keys are usable as keys of maps in every state of a run
exactly when no step of it changes a locked key in place, other than to values with the same hash
and the same digest. -/
theorem usable_run_iff (hash : HashFunctions) (ops : List KeyOp) (heap : KeyHeap)
    (hRun : run (step hash) {} ops = some heap) :
    Safe (step hash) (fun _ _ heap' => heap'.Usable hash ∧ heap'.UsableMonikers hash) {} ops ↔
      Along (step hash) (KeepsHashes hash) {} ops := by
  refine safe_iff_of_run (I := fun heap => heap.Valid ∧ heap.UpToDate hash) ?_ ?_
    ⟨valid_empty, upToDate_empty⟩ hRun
  · rintro heap op heap' ⟨hValid, hUpToDate⟩ hStep
    rw [hUpToDate.step_iff (hValid.step hStep).2, upToDate_iff_usable]
  · rintro heap op heap' ⟨hValid, -⟩ hUsable hStep
    exact ⟨(hValid.step hStep).1, hUsable.1.upToDate⟩

/-- A key that is locked, and a copy of it that is changed. -/
def changedCopy : List KeyOp := [.construct ∅, .lock 0, .copy 0, .set 1 "Exchange" "PT", .lock 1]

theorem changedCopy_usable :
    Safe (step sizes) (fun _ _ heap => heap.Usable sizes ∧ heap.UsableMonikers sizes) {}
      changedCopy := by
  obtain ⟨heap, hRun⟩ := Option.isSome_iff_exists.mp
    (show (run (step sizes) {} changedCopy).isSome = true by decide +kernel)
  refine (usable_run_iff sizes changedCopy heap hRun).mpr ?_
  decide +kernel

/-- One key is locked before its value is set, the other afterwards. -/
def lateSet : List KeyOp :=
  [.construct ∅, .lock 0, .set 0 "Exchange" "PT", .construct ∅, .set 1 "Exchange" "PT", .lock 1]

/-- Both are locked, with the same values, and compare different. -/
theorem lateSet_unusable :
    ∃ heap key other, run (step sizes) {} lateSet = some heap ∧ heap.IsLocked key ∧
      heap.IsLocked other ∧ key.val.values = other.val.values ∧ key.eq other = false ∧
      key.hashValue ≠ sizes.map key.val.values := by
  refine ⟨_, _, _, rfl, ⟨0, rfl, ?_⟩, ⟨1, rfl, ?_⟩, ?_, ?_, ?_⟩ <;> decide +kernel

end KeyHeap

end Arby.Entity
