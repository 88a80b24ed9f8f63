import Arby.Entity.EntityService

/-! The mutex of the entity service. Each thread has the list of the actions that its call has still
to take, and takes them one by one, in any order with those of other threads. `require` calls its
factory with the mutex held, and a factory that constructs an entity locks it again. -/

namespace Arby.Entity

open Kit
open EntityService (HandleKind emptyKey)

variable {θ τ : Type*}

/-- A factory: it constructs an entity and a handle for it, or does anything that needs no lock. -/
inductive Builder
  | constructs
  | other (f : Factory)

/-- `lookup` and `store` are the two halves of `require`, before and after the factory. -/
inductive Action (τ : Type*)
  | lock
  | unlock
  | insert (entity : ℕ)
  | erase (entity : ℕ)
  | copyCache
  | lookup (type : τ) (key : LockedKey) (f : Builder) (entity : ℕ)
  | store (type : τ) (key : LockedKey) (f : Factory)

namespace Action

/-- `impl::notify_create`. -/
def notifyCreate (entity : ℕ) : List (Action τ) := [lock, insert entity, unlock]

/-- `impl::notify_destroy`. -/
def notifyDestroy (entity : ℕ) : List (Action τ) := [lock, erase entity, unlock]

/-- `impl::enumerate`, up to the loop over the copy. -/
def enumerate : List (Action τ) := [lock, copyCache, unlock]

/-- `entity_handle::construct`, from the notification on. -/
def construct (entity : ℕ) : List (Action τ) := notifyCreate entity

/-- `entity_service::require`. A factory that constructs uses `entity`. -/
def require (type : τ) (key : LockedKey) (f : Builder) (entity : ℕ) : List (Action τ) :=
  [lock, lookup type key f entity, unlock]

/-- What `require` does when its key is not live: the factory, and the new entry. -/
def callFactory (type : τ) (key : LockedKey) (f : Builder) (entity : ℕ) : List (Action τ) :=
  match f with
  | .constructs => construct entity ++ [store type key .makes]
  | .other f => [store type key f]

end Action

/-- The service with its mutex `m_`, and the actions that each thread has to take. -/
structure ServiceLock (θ τ : Type*) where
  service : EntityService τ
  implCache : List ℕ
  owner : Option θ
  code : θ → List (Action τ)

/-- `call` starts a call of an idle thread, and `advance` takes its next action. Pointers to handles
are copied and released by any thread, at any time. -/
inductive ThreadOp (θ τ : Type*)
  | require (t : θ) (type : τ) (key : LockedKey) (f : Builder) (entity : ℕ)
  | enumerate (t : θ)
  | construct (t : θ) (entity : ℕ)
  | destroy (t : θ) (entity : ℕ)
  | advance (t : θ)
  | copy (j : ℕ)
  | release (i : ℕ)

namespace ServiceLock

variable [DecidableEq θ]

/-- No call has been made yet. -/
def start (service : EntityService τ) (implCache : List ℕ) : ServiceLock θ τ :=
  { service := service, implCache := implCache, owner := none, code := fun _ => [] }

def setCode (st : ServiceLock θ τ) (t : θ) (code : List (Action τ)) : ServiceLock θ τ :=
  { st with code := Function.update st.code t code }

/-- A call of a thread that has nothing else to do. -/
def call (st : ServiceLock θ τ) (t : θ) (code : List (Action τ)) : Option (ServiceLock θ τ) :=
  match st.code t with
  | [] => some (st.setCode t code)
  | _ :: _ => none

/-- The next action of a thread, `none` when it has none or is blocked. -/
def advance (st : ServiceLock θ τ) (t : θ) : Option (ServiceLock θ τ) :=
  match st.code t with
  | [] => none
  | .lock :: rest =>
    match st.owner with
    | none => some ({ st with owner := some t }.setCode t rest)
    | some _ => none
  | .unlock :: rest => some ({ st with owner := none }.setCode t rest)
  | .insert entity :: rest =>
    some ({ st with implCache := st.implCache.insert entity }.setCode t rest)
  | .erase entity :: rest =>
    some ({ st with implCache := st.implCache.erase entity }.setCode t rest)
  | .copyCache :: rest => some (st.setCode t rest)
  | .lookup type key f entity :: rest =>
    match st.service.lookup type key.tie with
    | some service => some ({ st with service := service }.setCode t rest)
    | none => some (st.setCode t (Action.callFactory type key f entity ++ rest))
  | .store type key f :: rest =>
    some ({ st with service := st.service.store type key.tie f }.setCode t rest)

def step (st : ServiceLock θ τ) : ThreadOp θ τ → Option (ServiceLock θ τ)
  | .require t type key f entity => st.call t (Action.require type key f entity)
  | .enumerate t => st.call t Action.enumerate
  | .construct t entity => st.call t (Action.construct entity)
  | .destroy t entity => st.call t (Action.notifyDestroy entity)
  | .advance t => st.advance t
  | .copy j => (st.service.step (.copy j)).map fun service => { st with service := service }
  | .release i => (st.service.step (.release i)).map fun service => { st with service := service }

/-- No thread is about to lock the mutex that it holds. -/
def NoSelfLock (st : ServiceLock θ τ) : Prop :=
  ∀ t, (st.code t).head? = some .lock → st.owner ≠ some t

/-- A `require` with a factory that constructs finds its key live when it looks. -/
def FindsLive (st : ServiceLock θ τ) : ThreadOp θ τ → Prop
  | .advance t =>
    match st.code t with
    | .lookup type key .constructs _ :: _ => (st.service.lookup type key.tie).isSome
    | _ => True
  | _ => True

instance : DecidableRel (@FindsLive θ τ) := fun st op =>
  match op with
  | .advance _ => by
    dsimp only [FindsLive]
    split <;> infer_instance
  | .require .. | .enumerate _ | .construct .. | .destroy .. | .copy _ | .release _ => .isTrue trivial

/-- The actions lock and unlock in turn, from a state in which the mutex is held or not. -/
def Bracketed : Bool → List (Action τ) → Prop
  | held, [] => held = false
  | held, .lock :: rest => held = false ∧ Bracketed true rest
  | held, .unlock :: rest => held = true ∧ Bracketed false rest
  | held, _ :: rest => held = true ∧ Bracketed true rest

/-- Each thread's actions are bracketed, with the mutex held by its owner. -/
def Orderly (st : ServiceLock θ τ) : Prop :=
  ∀ t, Bracketed (st.owner = some t) (st.code t)

variable {st st' : ServiceLock θ τ} {t : θ} {op : ThreadOp θ τ} {ops : List (ThreadOp θ τ)}
  {code rest : List (Action τ)}

theorem Orderly.noSelfLock (h : st.Orderly) : st.NoSelfLock := by
  intro t hHead hOwner
  have hBracketed := h t
  obtain ⟨rest, hCode⟩ := List.head?_eq_some_iff.mp hHead
  rw [hCode, decide_eq_true hOwner] at hBracketed
  cases hBracketed.1

/-- One thread goes on with `code`, and the mutex is held by no other thread than before. -/
theorem Orderly.update (h : st.Orderly) (hCode : st'.code = Function.update st.code t code)
    (hOwner : ∀ other, other ≠ t → (st'.owner = some other ↔ st.owner = some other))
    (hBracketed : Bracketed (st'.owner = some t) code) : st'.Orderly := by
  intro other
  rw [hCode]
  by_cases hOther : other = t
  · rw [hOther, Function.update_self]
    exact hBracketed
  · rw [Function.update_of_ne hOther, decide_eq_decide.mpr (hOwner other hOther)]
    exact h other

theorem Orderly.owner (h : st.Orderly) {action : Action τ} (hCode : st.code t = action :: rest)
    (hAction : action ≠ .lock) : st.owner = some t := by
  have hBracketed := h t
  rw [hCode] at hBracketed
  cases action with
  | lock => exact absurd rfl hAction
  | _ => exact of_decide_eq_true hBracketed.1

/-- An action other than those of the mutex. -/
theorem Orderly.act (h : st.Orderly) {action : Action τ} (hCode : st.code t = action :: rest)
    (hLock : action ≠ .lock) (hUnlock : action ≠ .unlock)
    (hCode' : st'.code = Function.update st.code t rest) (hOwner : st'.owner = st.owner) :
    st'.Orderly := by
  refine h.update hCode' (fun other _ => by rw [hOwner]) ?_
  rw [hOwner, decide_eq_true (h.owner hCode hLock)]
  have hBracketed := h t
  rw [hCode] at hBracketed
  cases action with
  | lock => exact absurd rfl hLock
  | unlock => exact absurd rfl hUnlock
  | _ => exact hBracketed.2

theorem Orderly.call (h : st.Orderly) (hCall : st.call t code = some st')
    (hBracketed : Bracketed false code) : st'.Orderly := by
  unfold ServiceLock.call at hCall
  split at hCall
  · rename_i hIdle
    obtain rfl := Option.some.inj hCall
    refine h.update rfl (fun _ _ => Iff.rfl) ?_
    have hNotOwner := h t
    rw [hIdle] at hNotOwner
    show Bracketed (decide (st.owner = some t)) code
    rw [show decide (st.owner = some t) = false from hNotOwner]
    exact hBracketed
  · cases hCall

/-- A look-up that finds nothing calls the factory with the mutex held. -/
theorem Orderly.miss (h : st.Orderly) {type : τ} {key : LockedKey} {f : Builder} {entity : ℕ}
    (hCode : st.code t = .lookup type key f entity :: rest) :
    (f ≠ .constructs ↔
        NoSelfLock (st.setCode t (Action.callFactory type key f entity ++ rest))) ∧
      (f ≠ .constructs → Orderly (st.setCode t (Action.callFactory type key f entity ++ rest))) := by
  have hOwner := h.owner hCode nofun
  cases f with
  | constructs =>
    refine ⟨iff_of_false (fun h => h rfl) fun hNoSelf => hNoSelf t ?_ hOwner, fun h => absurd rfl h⟩
    show (Function.update st.code t _ t).head? = some .lock
    rw [Function.update_self]
    rfl
  | other f =>
    have hOrderly : Orderly (st.setCode t (Action.callFactory type key (.other f) entity ++ rest)) := by
      refine h.update rfl (fun _ _ => Iff.rfl) ?_
      have hBracketed := h t
      rw [hCode] at hBracketed
      exact ⟨decide_eq_true hOwner, hBracketed.2⟩
    exact ⟨iff_of_true nofun hOrderly.noSelfLock, fun _ => hOrderly⟩

/-- The step lemma for `advance`. -/
theorem Orderly.advance (h : st.Orderly) (hStep : st.advance t = some st') :
    (FindsLive st (.advance t) ↔ st'.NoSelfLock) ∧ (st'.NoSelfLock → st'.Orderly) := by
  have of_orderly : FindsLive st (.advance t) → st'.Orderly →
      (FindsLive st (.advance t) ↔ st'.NoSelfLock) ∧ (st'.NoSelfLock → st'.Orderly) :=
    fun hLive h' => ⟨iff_of_true hLive h'.noSelfLock, fun _ => h'⟩
  unfold ServiceLock.advance at hStep
  split at hStep
  · cases hStep
  · rename_i rest hCode
    split at hStep
    · rename_i hFree
      obtain rfl := Option.some.inj hStep
      refine of_orderly (by simp [FindsLive, hCode]) (h.update rfl (fun other hOther => ?_) ?_)
      · show some t = some other ↔ st.owner = some other
        simp [hFree, hOther.symm]
      · have hBracketed := h t
        rw [hCode] at hBracketed
        show Bracketed (decide (some t = some t)) rest
        rw [decide_eq_true rfl]
        exact hBracketed.2
    · cases hStep
  · rename_i rest hCode
    obtain rfl := Option.some.inj hStep
    refine of_orderly (by simp [FindsLive, hCode]) (h.update rfl (fun other hOther => ?_) ?_)
    · show none = some other ↔ st.owner = some other
      simp [h.owner hCode nofun, hOther.symm]
    · have hBracketed := h t
      rw [hCode] at hBracketed
      exact hBracketed.2
  · rename_i hCode
    obtain rfl := Option.some.inj hStep
    exact of_orderly (by simp [FindsLive, hCode]) (h.act hCode nofun nofun rfl rfl)
  · rename_i hCode
    obtain rfl := Option.some.inj hStep
    exact of_orderly (by simp [FindsLive, hCode]) (h.act hCode nofun nofun rfl rfl)
  · rename_i hCode
    obtain rfl := Option.some.inj hStep
    exact of_orderly (by simp [FindsLive, hCode]) (h.act hCode nofun nofun rfl rfl)
  · rename_i type key f entity rest hCode
    split at hStep
    · rename_i service hFound
      obtain rfl := Option.some.inj hStep
      refine of_orderly ?_ (h.act hCode nofun nofun rfl rfl)
      cases f with
      | constructs => simp [FindsLive, hCode, hFound]
      | other f => simp [FindsLive, hCode]
    · rename_i hMissing
      obtain rfl := Option.some.inj hStep
      have hLive : FindsLive st (.advance t) ↔ f ≠ .constructs := by
        cases f with
        | constructs => simp [FindsLive, hCode, hMissing]
        | other f => simp [FindsLive, hCode]
      obtain ⟨hIff, hOrderly⟩ := h.miss hCode
      exact ⟨hLive.trans hIff, fun hNoSelf => hOrderly (hIff.mpr hNoSelf)⟩
  · rename_i hCode
    obtain rfl := Option.some.inj hStep
    exact of_orderly (by simp [FindsLive, hCode]) (h.act hCode nofun nofun rfl rfl)

/-- Pointers to handles are copied and released without the mutex. -/
theorem Orderly.service (h : st.Orderly) {service : Option (EntityService τ)}
    (hStep : service.map (fun service => { st with service := service }) = some st') :
    st'.Orderly := by
  obtain ⟨service, -, rfl⟩ := Option.map_eq_some_iff.mp hStep
  exact h

/-- The step lemma. -/
theorem Orderly.step (h : st.Orderly) (hStep : st.step op = some st') :
    (FindsLive st op ↔ st'.NoSelfLock) ∧ (st'.NoSelfLock → st'.Orderly) := by
  have of_orderly : FindsLive st op → st'.Orderly →
      (FindsLive st op ↔ st'.NoSelfLock) ∧ (st'.NoSelfLock → st'.Orderly) :=
    fun hLive h' => ⟨iff_of_true hLive h'.noSelfLock, fun _ => h'⟩
  cases op with
  | require t type key f entity =>
    exact of_orderly trivial (h.call hStep ⟨rfl, rfl, rfl, rfl⟩)
  | enumerate t => exact of_orderly trivial (h.call hStep ⟨rfl, rfl, rfl, rfl⟩)
  | construct t entity => exact of_orderly trivial (h.call hStep ⟨rfl, rfl, rfl, rfl⟩)
  | destroy t entity => exact of_orderly trivial (h.call hStep ⟨rfl, rfl, rfl, rfl⟩)
  | advance t => exact h.advance hStep
  | copy j => exact of_orderly trivial (h.service hStep)
  | release i => exact of_orderly trivial (h.service hStep)

theorem orderly_start (service : EntityService τ) (implCache : List ℕ) :
    Orderly (start service implCache : ServiceLock θ τ) := fun _ => rfl

/-- From any content of the caches, no thread of a run ever comes to lock the mutex that it holds
exactly when every `require` with a factory that constructs finds its key live. -/
theorem noSelfLock_run_iff (service : EntityService τ) (implCache : List ℕ)
    (ops : List (ThreadOp θ τ)) (st : ServiceLock θ τ)
    (hRun : run step (start service implCache) ops = some st) :
    Safe step (fun _ _ st' => st'.NoSelfLock) (start service implCache) ops ↔
      Along step FindsLive (start service implCache) ops :=
  safe_iff_of_run (fun _ _ _ h hStep => (h.step hStep).1)
    (fun _ _ _ h hNoSelf hStep => (h.step hStep).2 hNoSelf) (orderly_start service implCache) hRun

/-- One thread builds a handle for a key that is required by two threads. -/
def heldKey : List (ThreadOp Bool HandleKind) :=
  [.require true .fix emptyKey .constructs 0, .advance true, .construct false 1, .advance true,
    .advance true, .advance false, .advance false, .advance false]

/-- A cache with a live handle for the key. -/
def heldService : EntityService HandleKind := EntityService.require {} .fix emptyKey.tie .makes

theorem heldKey_noSelfLock :
    Safe step (fun _ _ st' => st'.NoSelfLock) (start heldService [0]) heldKey := by
  obtain ⟨st, hRun⟩ := Option.isSome_iff_exists.mp
    (show (run step (start heldService [0]) heldKey).isSome = true by decide +kernel)
  refine (noSelfLock_run_iff heldService [0] heldKey st hRun).mpr ?_
  decide +kernel

/-- The first `require` of a key, with a factory that constructs. -/
def firstRequire : List (ThreadOp Bool HandleKind) :=
  [.require true .fix emptyKey .constructs 0, .advance true, .advance true]

/-- The thread holds the mutex and is about to lock it. -/
theorem firstRequire_selfLocks :
    ∃ st, run step (start {} []) firstRequire = some st ∧ st.owner = some true ∧
      (st.code true).head? = some .lock := by
  refine ⟨_, rfl, ?_, ?_⟩ <;> rfl

end ServiceLock

end Arby.Entity
