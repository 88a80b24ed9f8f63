import Arby.Kit.Linearization
import Arby.Entity.ServiceLock

/-! The calls of the entity service one at a time. Threads call it at once, and pointers to handles
are copied and released beside the calls; still the service does what it does for the calls one
after another, each at a moment between its call and its return. -/

namespace Arby.Entity

open Kit
open EntityService (HandleKind emptyKey)

variable {θ τ : Type*}

/-- A call as a whole. -/
inductive ServiceCall (τ : Type*)
  | require (type : τ) (key : LockedKey) (f : Factory)
  | enumerate
  | construct (entity : ℕ)
  | destroy (entity : ℕ)

/-- What takes effect: a call of thread `t`, or what happens to a pointer. -/
inductive ServiceEffect (θ τ : Type*)
  | call (t : θ) (c : ServiceCall τ)
  | copy (j : ℕ)
  | release (i : ℕ)

/-- The effect on the service and on the entities that it lists. -/
def ServiceEffect.apply (content : EntityService τ × List ℕ) :
    ServiceEffect θ τ → Option (EntityService τ × List ℕ)
  | .call _ (.require type key f) => some (content.1.require type key.tie f, content.2)
  | .call _ .enumerate => some content
  | .call _ (.construct entity) => some (content.1, content.2.insert entity)
  | .call _ (.destroy entity) => some (content.1, content.2.erase entity)
  | .copy j => (content.1.step (.copy j)).map fun service => (service, content.2)
  | .release i => (content.1.step (.release i)).map fun service => (service, content.2)

def Builder.factory : Builder → Factory
  | .constructs => .makes
  | .other f => f

/-- The call that an action is the effect of. -/
def Action.call? : Action τ → Option (ServiceCall τ)
  | .lock | .unlock => none
  | .insert entity => some (.construct entity)
  | .erase entity => some (.destroy entity)
  | .copyCache => some .enumerate
  | .lookup type key f _ => some (.require type key f.factory)
  | .store type key f => some (.require type key f)

def ThreadOp.call? : ThreadOp θ τ → Option (θ × ServiceCall τ)
  | .require t type key f _ => some (t, .require type key f.factory)
  | .enumerate t => some (t, .enumerate)
  | .construct t entity => some (t, .construct entity)
  | .destroy t entity => some (t, .destroy entity)
  | .advance _ | .copy _ | .release _ => none

def ThreadOp.pointer? : ThreadOp θ τ → Option (ℕ ⊕ ℕ)
  | .copy j => some (.inl j)
  | .release i => some (.inr i)
  | _ => none

def ServiceEffect.pointer? : ServiceEffect θ τ → Option (ℕ ⊕ ℕ)
  | .copy j => some (.inl j)
  | .release i => some (.inr i)
  | .call _ _ => none

section Calls

variable [DecidableEq θ]

/-- The call of thread `t` that an operation makes. -/
def ThreadOp.madeBy (t : θ) (op : ThreadOp θ τ) : List (ServiceCall τ) :=
  ((op.call?.filter (·.1 = t)).map Prod.snd).toList

def ServiceEffect.doneBy (t : θ) : ServiceEffect θ τ → Option (ServiceCall τ)
  | .call t' c => if t' = t then some c else none
  | _ => none

end Calls

namespace ServiceLock

def content (st : ServiceLock θ τ) : EntityService τ × List ℕ := (st.service, st.implCache)

/-- The call that is still to take effect, when `code` is what is left of it. In the code of
`require` after a look-up that found nothing, the last action that has an effect is its own. -/
def callOf (code : List (Action τ)) : List (ServiceCall τ) :=
  (code.filterMap Action.call?).getLast?.toList

def pending (t : θ) (st : ServiceLock θ τ) : List (ServiceCall τ) := callOf (st.code t)

/-- What takes effect in a step. A look-up that finds nothing leaves its call to `store`. -/
def effect (st : ServiceLock θ τ) : ThreadOp θ τ → List (ServiceEffect θ τ)
  | .advance t =>
    match st.code t with
    | [] => []
    | .lookup type key f _ :: _ =>
      if (st.service.lookup type key.tie).isSome then [.call t (.require type key f.factory)]
      else []
    | action :: _ => (action.call?.map (ServiceEffect.call t)).toList
  | .copy j => [.copy j]
  | .release i => [.release i]
  | _ => []

/-- A call of a factory, or none: there is no live object for the key. -/
def Expired (service : EntityService τ) (key : LockedKey) : Prop :=
  ∀ object, service.weak key.tie = some object → ¬service.Alive object

/-- An action between `lock` and `unlock` that a call begins with. -/
def Begins : Action τ → Prop
  | .lock | .unlock | .store .. => False
  | _ => True

/-- Where a thread is in a call, by whether it holds the mutex. -/
inductive InCall (service : EntityService τ) : Bool → List (Action τ) → Prop
  | idle : InCall service false []
  | before {action : Action τ} (h : Begins action) : InCall service false [.lock, action, .unlock]
  | inside {action : Action τ} (h : Begins action) : InCall service true [action, .unlock]
  | storing {type : τ} {key : LockedKey} {f : Factory} (h : Expired service key) :
    InCall service true [.store type key f, .unlock]
  | after : InCall service true [.unlock]
  /-- It is about to lock the mutex that it holds. -/
  | stuck (type : τ) (key : LockedKey) (entity : ℕ) :
    InCall service true (Action.callFactory type key .constructs entity ++ [.unlock])

variable [DecidableEq θ] {st st' : ServiceLock θ τ} {t : θ} {op : ThreadOp θ τ}
  {service service' : EntityService τ} {held : Bool} {code : List (Action τ)}

/-- The invariant. -/
def Serial (st : ServiceLock θ τ) : Prop :=
  ∀ t, InCall st.service (st.owner = some t) (st.code t)

/-- Only the thread that holds the mutex relies on the service. -/
theorem InCall.of_waits (h : InCall service held code) (hHeld : held = false) :
    InCall service' false code := by
  cases h with
  | idle => exact .idle
  | before h => exact .before h
  | inside | storing | after | stuck => cases hHeld

theorem Expired.of_alive {key : LockedKey} (h : Expired service key)
    (hWeak : service'.weak key.tie = service.weak key.tie)
    (hAlive : ∀ object, service'.Alive object → service.Alive object) : Expired service' key := by
  intro object hObject hLives
  rw [hWeak] at hObject
  exact h object hObject (hAlive object hLives)

/-- Pointers are copied and released. -/
theorem InCall.of_alive (h : InCall service held code)
    (hWeak : ∀ key, service'.weak key = service.weak key)
    (hAlive : ∀ object, service'.Alive object → service.Alive object) :
    InCall service' held code := by
  cases h with
  | idle => exact .idle
  | before h => exact .before h
  | inside h => exact .inside h
  | storing h => exact .storing (h.of_alive (hWeak _) hAlive)
  | after => exact .after
  | stuck type key entity => exact .stuck type key entity

/-- Thread `t` goes on with `code`, and no other thread holds the mutex, before or after. -/
theorem Serial.update (h : st.Serial) (hCode : st'.code = Function.update st.code t code)
    (hBefore : ∀ other, other ≠ t → st.owner ≠ some other)
    (hAfter : ∀ other, other ≠ t → st'.owner ≠ some other)
    (hHeld : decide (st'.owner = some t) = held) (hInCall : InCall st'.service held code) :
    st'.Serial := by
  intro other
  rw [hCode]
  by_cases hOther : other = t
  · rw [hOther, Function.update_self, hHeld]
    exact hInCall
  · rw [Function.update_of_ne hOther, decide_eq_false (hAfter other hOther)]
    exact (h other).of_waits (decide_eq_false (hBefore other hOther))

/-- What thread `t` does in a step: it goes on with `code`, and the call `c` takes effect, if any. -/
structure Advances (t : θ) (st st' : ServiceLock θ τ) (c : Option (ServiceCall τ))
    (code : List (Action τ)) : Prop where
  effect : st.effect (.advance t) = (c.map (ServiceEffect.call t)).toList
  goesOn : st'.code = Function.update st.code t code
  calls : callOf (st.code t) = c.toList ++ callOf code
  content : run ServiceEffect.apply st.content (st.effect (.advance t)) = some st'.content

/-- A step in which a call takes effect. -/
theorem Advances.of_effect {c : ServiceCall τ} {action : Action τ}
    (hCode : st.code t = action :: code) (hEffect : st.effect (.advance t) = [.call t c])
    (hCalls : callOf (action :: code) = c :: callOf code)
    (hGoesOn : st'.code = Function.update st.code t code)
    (hContent : ServiceEffect.apply st.content (.call t c) = some st'.content) :
    Advances t st st' (some c) code where
  effect := hEffect
  goesOn := hGoesOn
  calls := by
    rw [hCode, hCalls]
    rfl
  content := by rw [hEffect, run_cons, hContent, Option.bind_some, run_nil]

/-- A step in which none does. -/
theorem Advances.of_none {rest : List (Action τ)} (hCode : st.code t = rest)
    (hEffect : st.effect (.advance t) = []) (hCalls : callOf rest = callOf code)
    (hGoesOn : st'.code = Function.update st.code t code) (hContent : st'.content = st.content) :
    Advances t st st' none code where
  effect := hEffect
  goesOn := hGoesOn
  calls := by
    rw [hCode, hCalls]
    rfl
  content := by rw [hEffect, run_nil, hContent]

/-- An action inside a call takes effect at once, apart from a look-up that finds nothing. -/
theorem inside_advances {action : Action τ} (hAction : Begins action)
    (hOwner : st.owner = some t) (hCode : st.code t = [action, .unlock])
    (hStep : st.advance t = some st') :
    ∃ c code, Advances t st st' c code ∧ st'.owner = some t ∧ InCall st'.service true code := by
  cases action with
  | lock | unlock | store => exact hAction.elim
  | insert entity =>
    simp only [ServiceLock.advance, hCode] at hStep
    obtain rfl := Option.some.inj hStep
    have hEffect : st.effect (.advance t) = [.call t (.construct entity)] := by
      simp [ServiceLock.effect, hCode, Action.call?]
    exact ⟨_, _, .of_effect hCode hEffect rfl rfl rfl, hOwner, .after⟩
  | erase entity =>
    simp only [ServiceLock.advance, hCode] at hStep
    obtain rfl := Option.some.inj hStep
    have hEffect : st.effect (.advance t) = [.call t (.destroy entity)] := by
      simp [ServiceLock.effect, hCode, Action.call?]
    exact ⟨_, _, .of_effect hCode hEffect rfl rfl rfl, hOwner, .after⟩
  | copyCache =>
    simp only [ServiceLock.advance, hCode] at hStep
    obtain rfl := Option.some.inj hStep
    have hEffect : st.effect (.advance t) = [.call t .enumerate] := by
      simp [ServiceLock.effect, hCode, Action.call?]
    exact ⟨_, _, .of_effect hCode hEffect rfl rfl rfl, hOwner, .after⟩
  | lookup type key f entity =>
    simp only [ServiceLock.advance, hCode] at hStep
    cases hFound : st.service.lookup type key.tie with
    | some service =>
      rw [hFound] at hStep
      obtain rfl := Option.some.inj hStep
      have hRequire : st.service.require type key.tie f.factory = service := by
        rw [EntityService.require, hFound, Option.getD_some]
      have hEffect : st.effect (.advance t) = [.call t (.require type key f.factory)] := by
        simp [ServiceLock.effect, hCode, hFound]
      refine ⟨_, _, .of_effect hCode hEffect rfl rfl ?_, hOwner, .after⟩
      rw [← hRequire]
      rfl
    | none =>
      rw [hFound] at hStep
      obtain rfl := Option.some.inj hStep
      have hEffect : st.effect (.advance t) = [] := by
        simp [ServiceLock.effect, hCode, hFound]
      have hExpired : Expired st.service key := by
        intro object hWeak hAlive
        simp [EntityService.lookup, hWeak, hAlive] at hFound
      cases f with
      | constructs =>
        exact ⟨none, Action.callFactory type key .constructs entity ++ [.unlock],
          .of_none hCode hEffect rfl rfl rfl, hOwner, .stuck type key entity⟩
      | other f =>
        exact ⟨none, [.store type key f, .unlock], .of_none hCode hEffect rfl rfl rfl, hOwner,
          .storing hExpired⟩

/-- The step of a thread in its call. -/
theorem Serial.advance (h : st.Serial) (hStep : st.advance t = some st') :
    ∃ c code, Advances t st st' c code ∧ st'.Serial := by
  have hOther : st.owner = some t → ∀ other, other ≠ t → st.owner ≠ some other :=
    fun hOwner other hNe hEq => hNe (Option.some.inj (hEq.symm.trans hOwner))
  have hInCall := h t
  generalize hHeld : decide (st.owner = some t) = held at hInCall
  generalize hCode : st.code t = code at hInCall
  cases hInCall with
  | idle => simp [ServiceLock.advance, hCode] at hStep
  | @before action hAction =>
    simp only [ServiceLock.advance, hCode] at hStep
    cases hOwner : st.owner with
    | some other =>
      rw [hOwner] at hStep
      cases hStep
    | none =>
      rw [hOwner] at hStep
      obtain rfl := Option.some.inj hStep
      have hEffect : st.effect (.advance t) = [] := by
        simp [ServiceLock.effect, hCode, Action.call?]
      refine ⟨none, [action, .unlock], .of_none hCode hEffect rfl rfl rfl,
        h.update rfl (fun other _ => by rw [hOwner]; nofun)
          (fun other hNe hEq => hNe (Option.some.inj hEq).symm) (decide_eq_true rfl)
          (.inside hAction)⟩
  | @inside action hAction =>
    have hOwner := of_decide_eq_true hHeld
    obtain ⟨c, code, hAdvances, hOwner', hNext⟩ := inside_advances hAction hOwner hCode hStep
    refine ⟨c, code, hAdvances, h.update hAdvances.goesOn (hOther hOwner) ?_
      (decide_eq_true hOwner') hNext⟩
    rw [hOwner', ← hOwner]
    exact hOther hOwner
  | @storing type key f hExpired =>
    have hOwner := of_decide_eq_true hHeld
    simp only [ServiceLock.advance, hCode] at hStep
    obtain rfl := Option.some.inj hStep
    have hEffect : st.effect (.advance t) = [.call t (.require type key f)] := by
      simp [ServiceLock.effect, hCode, Action.call?]
    refine ⟨some (.require type key f), [.unlock], .of_effect hCode hEffect rfl rfl ?_,
      h.update rfl (hOther hOwner) (hOther hOwner) (decide_eq_true hOwner) .after⟩
    simp only [ServiceEffect.apply, content, EntityService.require_of_expired hExpired]
    rfl
  | after =>
    have hOwner := of_decide_eq_true hHeld
    simp only [ServiceLock.advance, hCode] at hStep
    obtain rfl := Option.some.inj hStep
    have hEffect : st.effect (.advance t) = [] := by
      simp [ServiceLock.effect, hCode, Action.call?]
    refine ⟨none, [], .of_none hCode hEffect rfl rfl rfl,
      h.update rfl (hOther hOwner) (fun other _ => nofun) (decide_eq_false nofun) .idle⟩
  | stuck type key entity =>
    have hOwner := of_decide_eq_true hHeld
    simp [ServiceLock.advance, hCode, hOwner, Action.callFactory, Action.construct,
      Action.notifyCreate] at hStep

/-- A new call of an idle thread. -/
theorem Serial.call (h : st.Serial) {c : ServiceCall τ} (hCall : st.call t code = some st')
    (hCode : InCall st.service false code) (hCalls : callOf code = [c]) :
    st'.content = st.content ∧ st'.Serial ∧
      ∀ t', pending t' st ++ (if t = t' then [c] else []) = pending t' st' := by
  unfold ServiceLock.call at hCall
  split at hCall
  · rename_i hIdle
    obtain rfl := Option.some.inj hCall
    have hInCall := h t
    rw [hIdle] at hInCall
    refine ⟨rfl, fun other => ?_, fun t' => ?_⟩
    · by_cases hOther : other = t
      · subst hOther
        have hHeld : decide (st.owner = some other) = false := by
          generalize decide (st.owner = some other) = held at hInCall
          cases hInCall
          rfl
        show InCall st.service (decide (st.owner = some other))
          (Function.update st.code other code other)
        rw [Function.update_self, hHeld]
        exact hCode
      · simp only [setCode, Function.update_of_ne hOther]
        exact h other
    · by_cases hSame : t = t'
      · subst hSame
        simp only [pending, setCode, Function.update_self, hCalls, if_true, hIdle]
        rfl
      · simp only [pending, setCode, Function.update_of_ne (Ne.symm hSame), if_neg hSame,
          List.append_nil]
  · cases hCall

/-- What is done with pointers, beside the calls. -/
theorem Serial.pointer (h : st.Serial) {service : EntityService τ}
    (hWeak : ∀ key, service.weak key = st.service.weak key)
    (hAlive : ∀ object, service.Alive object → st.service.Alive object) :
    Serial { st with service } :=
  fun t => (h t).of_alive hWeak hAlive

theorem alive_of_subset {service service' : EntityService τ}
    (hSubset : ∀ handle, some handle ∈ service'.handles → some handle ∈ service.handles)
    (object : ℕ) (hAlive : service'.Alive object) : service.Alive object := by
  obtain ⟨handle, hMem, hObject⟩ := EntityService.alive_iff.mp hAlive
  exact EntityService.alive_iff.mpr ⟨handle, hSubset handle hMem, hObject⟩

/-- What a step does, as a whole and for each thread. -/
structure Follows (st : ServiceLock θ τ) (op : ThreadOp θ τ) (st' : ServiceLock θ τ) : Prop where
  content : run ServiceEffect.apply st.content (st.effect op) = some st'.content
  calls : ∀ t, pending t st ++ op.madeBy t =
    (st.effect op).filterMap (ServiceEffect.doneBy t) ++ pending t st'
  pointers : op.pointer?.toList = (st.effect op).filterMap ServiceEffect.pointer?

theorem Advances.follows {c : Option (ServiceCall τ)} (h : Advances t st st' c code) :
    Follows st (.advance t) st' where
  content := h.content
  calls t' := by
    rw [h.effect, pending, pending, h.goesOn]
    by_cases hSame : t' = t
    · subst hSame
      rw [Function.update_self, h.calls]
      cases c <;> simp [ThreadOp.madeBy, ThreadOp.call?, ServiceEffect.doneBy]
    · rw [Function.update_of_ne hSame]
      cases c <;> simp [ThreadOp.madeBy, ThreadOp.call?, ServiceEffect.doneBy, Ne.symm hSame]
  pointers := by
    rw [h.effect]
    cases c <;> rfl

/-- The step lemma. -/
theorem Serial.step (h : st.Serial) (hStep : st.step op = some st') :
    Follows st op st' ∧ st'.Serial := by
  have hCalled : ∀ {t : θ} (action : Action τ) {c : ServiceCall τ} {op : ThreadOp θ τ},
      op.call? = some (t, c) → op.pointer? = none → st.effect op = [] → Begins action →
      action.call? = some c → st.call t [.lock, action, .unlock] = some st' →
      Follows st op st' ∧ st'.Serial := by
    intro t action c op hOp hPointer hEffect hAction hCalls hCall
    have hCode : callOf [.lock, action, .unlock] = [c] := by
      rw [callOf, List.filterMap_cons_none rfl, List.filterMap_cons_some hCalls]
      rfl
    obtain ⟨hContent, hSerial, hPending⟩ := h.call hCall (.before hAction) hCode
    refine ⟨⟨?_, fun t' => ?_, by rw [hPointer, hEffect]; rfl⟩, hSerial⟩
    · rw [hEffect, hContent]
      rfl
    · rw [hEffect, List.filterMap_nil, List.nil_append, ← hPending t', ThreadOp.madeBy, hOp]
      congr 1
      by_cases hSame : t = t' <;> simp [hSame]
  cases op with
  | require t type key f entity =>
    exact hCalled (.lookup type key f entity) rfl rfl rfl trivial rfl hStep
  | enumerate t => exact hCalled .copyCache rfl rfl rfl trivial rfl hStep
  | construct t entity => exact hCalled (.insert entity) rfl rfl rfl trivial rfl hStep
  | destroy t entity => exact hCalled (.erase entity) rfl rfl rfl trivial rfl hStep
  | advance t =>
    obtain ⟨c, code, hAdvances, hSerial⟩ := h.advance hStep
    exact ⟨hAdvances.follows, hSerial⟩
  | copy j =>
    obtain ⟨service, hCopy, rfl⟩ := Option.map_eq_some_iff.mp hStep
    obtain ⟨handle, hHandle, hPure⟩ := Option.bind_eq_some_iff.mp hCopy
    obtain rfl := Option.some.inj hPure
    refine ⟨⟨?_, fun t => ?_, rfl⟩,
      h.pointer (fun _ => rfl) (alive_of_subset fun handle' hMem => ?_)⟩
    · simp [ServiceLock.effect, ServiceEffect.apply, content, hCopy]
    · simp [ThreadOp.madeBy, ThreadOp.call?, ServiceLock.effect, ServiceEffect.doneBy, pending]
    · rw [List.mem_append, List.mem_singleton, Option.some.injEq] at hMem
      rcases hMem with hMem | rfl
      · exact hMem
      · exact mem_of_slot hHandle
  | release i =>
    obtain ⟨service, hRelease, rfl⟩ := Option.map_eq_some_iff.mp hStep
    obtain ⟨handle, hHandle, hPure⟩ := Option.bind_eq_some_iff.mp hRelease
    obtain rfl := Option.some.inj hPure
    refine ⟨⟨?_, fun t => ?_, rfl⟩,
      h.pointer (fun _ => rfl) (alive_of_subset fun handle' hMem => ?_)⟩
    · simp [ServiceLock.effect, ServiceEffect.apply, content, hRelease]
    · simp [ThreadOp.madeBy, ThreadOp.call?, ServiceLock.effect, ServiceEffect.doneBy, pending]
    · rcases List.mem_or_eq_of_mem_set hMem with hMem | hNone
      · exact hMem
      · cases hNone

theorem serial_start (service : EntityService τ) (implCache : List ℕ) :
    Serial (start service implCache : ServiceLock θ τ) := fun _ => .idle

/-- The service is linearizable. However the calls of the threads interleave with one another and
with what is done to pointers, and whether or not a thread locks itself out, its content is what the
effects of the calls make of it one after another, each in a step between its call and its return.
Of each thread they are the calls that it has made, in their order, up to one that has not taken
effect yet; and pointers are copied and released in their order. -/
theorem linearization_run (service : EntityService τ) (implCache : List ℕ)
    (ops : List (ThreadOp θ τ)) (hRun : run step (start service implCache) ops = some st) :
    run ServiceEffect.apply (service, implCache)
          (linearization step effect (start service implCache) ops) =
        some (st.service, st.implCache) ∧
      (∀ t, ops.flatMap (ThreadOp.madeBy t) =
        (linearization step effect (start service implCache) ops).filterMap (ServiceEffect.doneBy t) ++
          pending t st) ∧
      ops.filterMap ThreadOp.pointer? =
        (linearization step effect (start service implCache) ops).filterMap
          ServiceEffect.pointer? := by
  have hStart : Serial (start service implCache : ServiceLock θ τ) := serial_start service implCache
  refine ⟨?_, fun t => ?_, ?_⟩
  · exact run_linearization
      (fun _ _ _ h hStep => ⟨(Serial.step h hStep).1.content, (Serial.step h hStep).2⟩) hStart hRun
  · exact calls_linearization (ThreadOp.madeBy t) (ServiceEffect.doneBy t) (pending t)
      (fun _ _ _ h hStep => ⟨(Serial.step h hStep).1.calls t, (Serial.step h hStep).2⟩) hStart hRun
  · have hPointers := calls_linearization (fun op => op.pointer?.toList) ServiceEffect.pointer?
      (fun _ => [])
      (fun _ _ _ h hStep => ⟨by rw [List.nil_append, List.append_nil,
        (Serial.step h hStep).1.pointers], (Serial.step h hStep).2⟩) hStart hRun
    rw [List.nil_append, List.append_nil] at hPointers
    rw [← hPointers, List.filterMap_eq_flatMap_toList]

/-- Two threads require a key at once. One of them finds the handle of the other, which was copied. -/
def bothRequire : List (ThreadOp Bool HandleKind) :=
  [.require true .fix emptyKey (.other .makes) 0, .require false .fix emptyKey (.other .makes) 0,
    .advance false, .advance false, .advance false, .copy 0, .advance false, .advance true,
    .advance true]

theorem bothRequire_linear :
    ∃ st : ServiceLock Bool HandleKind, run step (start {} []) bothRequire = some st ∧
      run ServiceEffect.apply ({}, []) (linearization step effect (start {} []) bothRequire) =
        some (st.service, st.implCache) ∧
      st.service.handles.length = 3 := by
  obtain ⟨st, hRun⟩ := Option.isSome_iff_exists.mp
    (show (run step (start {} []) bothRequire).isSome = true by decide +kernel)
  refine ⟨st, hRun, (linearization_run {} [] bothRequire hRun).1, ?_⟩
  have hHandles : (run step (start {} []) bothRequire).map (·.service.handles.length) = some 3 := by
    decide +kernel
  rw [hRun] at hHandles
  exact Option.some.inj hHandles

end ServiceLock

end Arby.Entity
