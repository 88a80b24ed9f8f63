import Arby.Entity.KeyHeap
import Arby.Entity.EntityService

/-! The API of the keys with its assertions, as the Debug build has it. The lock of a key asserts that
the key is locked already, and nothing else locks one. -/

namespace Arby.Entity

open Kit

variable {τ : Type}

/-- `fix_connector_args`. -/
structure FixConnectorArgs where
  senderCompId : String
  targetCompId : String
  socketConnectHost : String
  socketConnectPort : String
  useSsl : Bool

namespace FixConnectorArgs

/-- `to_key`, which makes object `i`. -/
def toKey (args : FixConnectorArgs) (i : ℕ) : List KeyOp :=
  [.construct ∅,
    .set i "reactive.SenderCompId" args.senderCompId,
    .set i "reactive.TargetCompId" args.targetCompId,
    .set i "reactive.SocketConnectHost" args.socketConnectHost,
    .set i "reactive.SocketConnectPort" args.socketConnectPort,
    .set i "reactive.UseSSL" (if args.useSsl then "1" else "0")]

/-- `merge` into object `target`, with the temporary `i`. -/
def merge (args : FixConnectorArgs) (target i : ℕ) : List KeyOp :=
  args.toKey i ++ [.merge target i, .destroy i]

end FixConnectorArgs

/-! The functions below have no result when an assertion fails. -/

namespace Debug

def assert (condition : Bool) : Option Unit := if condition then some () else none

def hashValue (key : EntityKey) : Option ℕ := do
  assert key.locked
  return key.hashValue

def sha1Digest (key : EntityKey) : Option String := do
  assert key.locked
  return key.sha1Digest

/-- `operator==`. -/
def eq (key other : EntityKey) : Option Bool := do
  assert key.locked
  assert other.locked
  return key.eq other

/-- `operator<`. -/
def lt (key other : EntityKey) : Option Bool := do
  assert key.locked
  assert other.locked
  return key.lt other

def lock (hash : HashFunctions) (heap : KeyHeap) (i : ℕ) : Option KeyHeap := do
  let key ← heap.lookup i
  assert key.locked
  assert (key.val.cpphash = 0)
  heap.lock hash i

def merge (heap : KeyHeap) (i j : ℕ) : Option KeyHeap := do
  let key ← heap.lookup i
  assert !key.locked
  heap.merge i j

def step (hash : HashFunctions) (heap : KeyHeap) : KeyOp → Option KeyHeap
  | .merge i j => merge heap i j
  | .lock i => lock hash heap i
  | op => heap.step hash op

/-- `entity_service::require`. The map of the cache hashes the key and compares it to keys of its
`bucket`. -/
def require (svc : EntityService τ) (bucket : List EntityKey) (type : τ) (key : EntityKey)
    (f : Factory) : Option (EntityService τ) := do
  let _ ← hashValue key
  let _ ← bucket.mapM (eq key)
  return svc.require type key.val.tie f

/-- `prepare_fix_connector`. -/
def prepareFixConnector (hash : HashFunctions) (svc : EntityService τ) (bucket : List EntityKey)
    (type : τ) (args : FixConnectorArgs) (f : Factory) : Option (EntityService τ) := do
  let heap ← run (step hash) {} (.construct ∅ :: args.merge 0 1)
  let heap ← lock hash heap 0
  let key ← heap.lookup 0
  require svc bucket type key f

/-- The key meets the assertions of its users, beside other keys that are locked. -/
structure Serves (τ : Type) (key : EntityKey) : Prop where
  hashValue : (hashValue key).isSome
  sha1Digest : (sha1Digest key).isSome
  eq : ∀ other : EntityKey, other.locked → (eq key other).isSome ∧ (eq other key).isSome
  lt : ∀ other : EntityKey, other.locked → (lt key other).isSome ∧ (lt other key).isSome
  require : ∀ (svc : EntityService τ) bucket type f,
    (∀ cached ∈ bucket, cached.locked) → (require svc bucket type key f).isSome

/-- `lock` of object `i` meets its assertions, and the locked key those of its users. -/
def LocksAndServes (τ : Type) (hash : HashFunctions) (heap : KeyHeap) (i : ℕ) : Prop :=
  ∃ heap' key, lock hash heap i = some heap' ∧ heap'.lookup i = some key ∧ key.locked ∧
    Serves τ key

variable {heap heap' : KeyHeap} {hash : HashFunctions} {key other : EntityKey} {op : KeyOp}
  {ops : List KeyOp} {i : ℕ}

theorem assert_of_locked (h : key.locked) : assert key.locked = some () := if_pos h

theorem assert_of_unlocked (h : key.locked = false) : assert key.locked = none := by
  rw [h]
  rfl

/-! On locked keys the users do what they do without their assertions. -/

theorem hashValue_of_locked (h : key.locked) : hashValue key = some key.hashValue := by
  rw [hashValue, assert_of_locked h]
  rfl

theorem sha1Digest_of_locked (h : key.locked) : sha1Digest key = some key.sha1Digest := by
  rw [sha1Digest, assert_of_locked h]
  rfl

theorem eq_of_locked (h : key.locked) (h' : other.locked) : eq key other = some (key.eq other) := by
  rw [eq, assert_of_locked h, assert_of_locked h']
  rfl

theorem lt_of_locked (h : key.locked) (h' : other.locked) : lt key other = some (key.lt other) := by
  rw [lt, assert_of_locked h, assert_of_locked h']
  rfl

theorem require_of_locked (svc : EntityService τ) {bucket : List EntityKey} (type : τ)
    (f : Factory) (h : key.locked) (hBucket : ∀ cached ∈ bucket, cached.locked) :
    require svc bucket type key f = some (svc.require type key.val.tie f) := by
  have hCompared : bucket.mapM (eq key) = some (bucket.map key.eq) := by
    induction bucket with
    | nil => rfl
    | cons cached bucket ih =>
      rw [List.mapM_cons, eq_of_locked h (hBucket cached (by simp)),
        ih fun other hOther => hBucket other (by simp [hOther])]
      rfl
  rw [require, hashValue_of_locked h, hCompared]
  rfl

/-- The assertions of the users all ask for the lock. -/
theorem serves_iff : Serves τ key ↔ key.locked := by
  constructor
  · intro h
    have hHash := h.hashValue
    by_contra hUnlocked
    simp [Debug.hashValue, assert_of_unlocked (eq_false_of_ne_true hUnlocked)] at hHash
  · intro h
    refine ⟨?_, ?_, fun other hOther => ?_, fun other hOther => ?_, fun svc bucket type f hBucket => ?_⟩
    · rw [hashValue_of_locked h]
      rfl
    · rw [sha1Digest_of_locked h]
      rfl
    · rw [eq_of_locked h hOther, eq_of_locked hOther h]
      exact ⟨rfl, rfl⟩
    · rw [lt_of_locked h hOther, lt_of_locked hOther h]
      exact ⟨rfl, rfl⟩
    · rw [require_of_locked svc type f h hBucket]
      rfl

/-- `lock` meets its assertions on a locked key whose hash is 0. -/
theorem lock_eq_some : lock hash heap i = some heap' ↔
    ∃ key, heap.lookup i = some key ∧ key.locked ∧ key.val.cpphash = 0 ∧
      heap.lock hash i = some heap' := by
  simp only [lock, assert, Option.bind_eq_bind, Option.bind_eq_some_iff, Option.ite_none_right_eq_some,
    decide_eq_true_eq, exists_and_left, exists_const, and_true]

/-- A step that meets its assertions is a step of the API without them. -/
theorem step_of_assertions (hStep : step hash heap op = some heap') :
    heap.step hash op = some heap' := by
  cases op with
  | merge i j =>
    obtain ⟨key, -, hRest⟩ := Option.bind_eq_some_iff.mp hStep
    obtain ⟨_, -, hMerge⟩ := Option.bind_eq_some_iff.mp hRest
    exact hMerge
  | lock i =>
    obtain ⟨key, -, -, -, hLock⟩ := lock_eq_some.mp hStep
    exact hLock
  | _ => exact hStep

/-- No object is locked. -/
def Unlocked (heap : KeyHeap) : Prop := ∀ i key, heap.lookup i = some key → key.locked = false

theorem Unlocked.lock_eq_none (h : Unlocked heap) (i : ℕ) : lock hash heap i = none := by
  rw [Option.eq_none_iff_forall_ne_some]
  intro heap' hLock
  obtain ⟨key, hKey, hLocked, -⟩ := lock_eq_some.mp hLock
  cases (h i key hKey).symm.trans hLocked

/-- The step lemma: of the operations only `lock` locks a key, and its assertion fails. -/
theorem Unlocked.step (h : Unlocked heap) (hValid : heap.Valid)
    (hStep : step hash heap op = some heap') : Unlocked heap' := by
  obtain ⟨-, hEffect⟩ := hValid.step (step_of_assertions hStep)
  refine hEffect.forall_impl (P := fun p => p.locked = false) (fun _ => rfl) (fun _ _ hp => hp) ?_ h
  rintro i rfl
  cases (h.lock_eq_none i).symm.trans hStep

theorem unlocked_run (hRun : run (step hash) {} ops = some heap) : Unlocked heap := by
  have hInvariant : heap.Valid ∧ Unlocked heap := by
    refine run_invariant (I := fun heap => heap.Valid ∧ Unlocked heap) ?_
      ⟨KeyHeap.valid_empty, nofun⟩ hRun
    rintro heap op heap' ⟨hValid, hUnlocked⟩ hStep
    exact ⟨(hValid.step (step_of_assertions hStep)).1, hUnlocked.step hValid hStep⟩
  exact hInvariant.2

/-- Whatever was done to the keys before, none gets past the assertions of `lock`. -/
theorem not_locksAndServes_run (τ : Type) (hRun : run (step hash) {} ops = some heap)
    (hKey : heap.lookup i = some key) : key.locked = false ∧ ¬LocksAndServes τ hash heap i := by
  have hUnlocked := unlocked_run hRun
  refine ⟨hUnlocked i key hKey, ?_⟩
  rintro ⟨heap', key', hLock, -⟩
  cases (hUnlocked.lock_eq_none i).symm.trans hLock

/-- A key with one value, which is merged into another. -/
def mergedKey : List KeyOp := [.construct ∅, .set 0 "Exchange" "PT", .construct ∅, .merge 1 0]

theorem mergedKey_not_locksAndServes : ∃ heap key, run (step sizes) {} mergedKey = some heap ∧
    heap.lookup 1 = some key ∧ key.locked = false ∧ ¬LocksAndServes ℕ sizes heap 1 := by
  obtain ⟨key, hFound⟩ := Option.isSome_iff_exists.mp
    (show ((run (step sizes) {} mergedKey).bind (·.lookup 1)).isSome = true by decide +kernel)
  obtain ⟨heap, hRun, hKey⟩ := Option.bind_eq_some_iff.mp hFound
  exact ⟨heap, key, hRun, hKey, not_locksAndServes_run ℕ hRun hKey⟩

/-- A key that has just been made fails the first assertion of `lock`. -/
theorem newKey_not_locked : ∃ heap key, run (step sizes) {} [.construct ∅] = some heap ∧
    heap.lookup 0 = some key ∧ key.locked = false ∧ ¬LocksAndServes ℕ sizes heap 0 := by
  refine ⟨_, _, rfl, rfl, rfl, ?_⟩
  rintro ⟨heap', key, hLock, -⟩
  cases hLock

/-- The arguments of a connector are made into a key, and its lock fails. -/
theorem prepareFixConnector_eq_none (svc : EntityService τ) (bucket : List EntityKey) (type : τ)
    (args : FixConnectorArgs) (f : Factory) :
    prepareFixConnector hash svc bucket type args f = none := by
  obtain ⟨heap, hRun⟩ :
      ∃ heap, run (step hash) {} (.construct ∅ :: args.merge 0 1) = some heap := ⟨_, rfl⟩
  rw [prepareFixConnector, hRun, Option.bind_eq_bind, Option.bind_some,
    (unlocked_run hRun).lock_eq_none 0, Option.bind_eq_bind, Option.bind_none]

/-! ### Without the first assertion of `lock` -/

/-- What the second assertion of `lock` asks for: a block that is not locked has not been hashed. -/
def Unhashed (p : KeyImpl) : Prop := p.locked = false → p.cpphash = 0

theorem unhashed_run (hRun : run (KeyHeap.step hash) {} ops = some heap) :
    heap.Valid ∧ ∀ i key, heap.lookup i = some key → Unhashed key.val := by
  refine run_invariant (I := fun heap => heap.Valid ∧
    ∀ i key, heap.lookup i = some key → Unhashed key.val) ?_ ⟨KeyHeap.valid_empty, nofun⟩ hRun
  rintro heap op heap' ⟨hValid, hUnhashed⟩ hStep
  obtain ⟨hValid', hEffect⟩ := hValid.step hStep
  refine ⟨hValid', hEffect.forall_impl (fun _ _ => rfl) (fun _ _ hp => hp) ?_ hUnhashed⟩
  intro i _ p _ hLocked
  cases hLocked

/-- Where no assertions are evaluated, `lock` would meet its second one on every key that is not
locked, and the locked key meets those of its users. -/
theorem serves_of_lock (τ : Type) (hRun : run (KeyHeap.step hash) {} ops = some heap)
    (hKey : heap.lookup i = some key) (hUnlocked : key.locked = false) :
    key.val.cpphash = 0 ∧ ∃ heap' key', heap.lock hash i = some heap' ∧
      heap'.lookup i = some key' ∧ Serves τ key' := by
  obtain ⟨hValid, hUnhashed⟩ := unhashed_run hRun
  obtain ⟨heap', hLock, -, -, hLookup⟩ := hValid.lock hash hKey
  refine ⟨hUnhashed i key hKey hUnlocked, heap', ⟨key.addr, key.val.lock hash⟩, hLock, ?_,
    serves_iff.mpr (key.val.locked_lock hash)⟩
  rw [hLookup, if_pos (KeyHeap.lookup_eq_some.mp hKey).1]

end Debug

end Arby.Entity
