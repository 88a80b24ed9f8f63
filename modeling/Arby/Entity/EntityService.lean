import Arby.Entity.EntityKey
import Arby.Kit.Run

/-! The cache of the entity service: one weak pointer for each key, whatever the handle type that the
key was required as. -/

namespace Arby.Entity

open Kit

variable {τ : Type*}

/-- What keys compare by. -/
abbrev KeyTie := ℕ ×ₗ String ×ₗ List (String ×ₗ String)

/-- The content of a locked key. -/
structure LockedKey where
  impl : KeyImpl
  locked : impl.locked = true

theorem KeyImpl.locked_lock (hash : HashFunctions) (p : KeyImpl) : (p.lock hash).locked = true := rfl

def LockedKey.tie (key : LockedKey) : KeyTie := key.impl.tie

/-- What the factory of a call does, if it is called. -/
inductive Factory
  | makes
  | returnsNull
  | throws

/-- A `shared_ptr<T>` to an object. -/
structure Handle (τ : Type*) where
  type : τ
  object : ℕ
deriving DecidableEq

/-- The types of handles are those of `τ`. An object is named by its place in `made`, which says for
which type and key its factory was called; `handles` are the pointers that the calls have returned,
and `calls` counts the calls of factories. -/
structure EntityService (τ : Type*) where
  cache : OrdMap KeyTie (Option ℕ) := ∅
  made : List (τ × KeyTie) := []
  handles : List (Option (Handle τ)) := []
  calls : ℕ := 0

inductive ServiceOp (τ : Type*)
  | require (type : τ) (key : LockedKey) (f : Factory)
  | copy (j : ℕ)
  | release (i : ℕ)

namespace EntityService

/-- Somebody holds a pointer to the object. -/
def Alive (svc : EntityService τ) (object : ℕ) : Prop := some object ∈ svc.handles.map (·.map Handle.object)

instance (svc : EntityService τ) : DecidablePred svc.Alive := fun object => by
  dsimp only [Alive]
  infer_instance

/-- The weak pointer of a key. -/
def weak (svc : EntityService τ) (key : KeyTie) : Option ℕ := (svc.cache.find? key).join

/-- The pointer that is in the cache, locked: `none` when it is null. The cast is not checked. -/
def lookup (svc : EntityService τ) (type : τ) (key : KeyTie) : Option (EntityService τ) :=
  ((svc.weak key).filter (svc.Alive ·)).map fun object =>
    { svc with
      cache := svc.cache.emplace key none
      handles := svc.handles ++ [some ⟨type, object⟩] }

/-- The factory called, and what it returns put in the cache. -/
def store (svc : EntityService τ) (type : τ) (key : KeyTie) (f : Factory) : EntityService τ :=
  let cache := svc.cache.emplace key none
  match f with
  | .makes =>
    let object := svc.made.length
    { cache := cache.insert key (some object)
      made := svc.made ++ [(type, key)]
      handles := svc.handles ++ [some ⟨type, object⟩]
      calls := svc.calls + 1 }
  | .returnsNull =>
    { svc with
      cache := cache.insert key none
      handles := svc.handles ++ [none]
      calls := svc.calls + 1 }
  | .throws => { svc with cache := cache, calls := svc.calls + 1 }

/-- `entity_service::require`. -/
def require (svc : EntityService τ) (type : τ) (key : KeyTie) (f : Factory) : EntityService τ :=
  (svc.lookup type key).getD (svc.store type key f)

def step (svc : EntityService τ) : ServiceOp τ → Option (EntityService τ)
  | .require type key f => some (svc.require type key.tie f)
  | .copy j => do
    let handle ← slot svc.handles j
    return { svc with handles := svc.handles ++ [some handle] }
  | .release i => do
    let _ ← slot svc.handles i
    return { svc with handles := svc.handles.set i none }

variable {svc svc' : EntityService τ} {op : ServiceOp τ} {ops : List (ServiceOp τ)} {type : τ}
  {key key' : KeyTie} {f : Factory} {object : ℕ}

/-- While an object made for a type and key is alive, a call for these returns it, with no call of
the factory; an object is made only when there is none; and pointers have the type that their
objects were made as. -/
structure Honours (svc : EntityService τ) (op : ServiceOp τ) (svc' : EntityService τ) : Prop where
  same : ∀ type key f object, op = .require type key f → svc.Alive object →
    svc.made[object]? = some (type, key.tie) →
      svc'.handles = svc.handles ++ [some ⟨type, object⟩] ∧ svc'.calls = svc.calls
  fresh : ∀ type key, svc'.made = svc.made ++ [(type, key)] →
    ∀ object, svc.Alive object → svc.made[object]? ≠ some (type, key)
  typed : ∀ handle, some handle ∈ svc'.handles →
    ∃ key, svc'.made[handle.object]? = some (handle.type, key)

/-- A call for a key whose objects alive were made as its type. -/
def OneType (svc : EntityService τ) : ServiceOp τ → Prop
  | .require type key _ => ∀ pointer ∈ svc.handles, ∀ handle ∈ pointer,
      ∀ made ∈ svc.made[handle.object]?, made.2 = key.tie → made.1 = type
  | _ => True

instance [DecidableEq τ] : DecidableRel (@OneType τ) := fun svc op =>
  match op with
  | .require _ _ _ => by
    dsimp only [OneType]
    infer_instance
  | .copy _ => .isTrue trivial
  | .release _ => .isTrue trivial

/-- Pointers have the types of their objects, and an object alive is the one in the cache. -/
structure Settled (svc : EntityService τ) : Prop where
  typed : ∀ handle, some handle ∈ svc.handles →
    ∃ key, svc.made[handle.object]? = some (handle.type, key)
  cached : ∀ key object, svc.weak key = some object →
    ∃ type, svc.made[object]? = some (type, key)
  alive : ∀ type key object, svc.Alive object → svc.made[object]? = some (type, key) →
    svc.weak key = some object

theorem alive_iff : svc.Alive object ↔ ∃ handle, some handle ∈ svc.handles ∧ handle.object = object := by
  simp only [Alive, List.mem_map, Option.map_eq_some_iff]
  constructor
  · rintro ⟨_, hMem, handle, rfl, hObject⟩
    exact ⟨handle, hMem, hObject⟩
  · rintro ⟨handle, hMem, hObject⟩
    exact ⟨some handle, hMem, handle, rfl, hObject⟩

/-! ### The cache -/

theorem join_emplace_none (cache : OrdMap KeyTie (Option ℕ)) (key key' : KeyTie) :
    ((cache.emplace key none).find? key').join = (cache.find? key').join := by
  unfold OrdMap.emplace
  split
  · rfl
  · rename_i hNone
    by_cases hKey : key' = key
    · rw [hKey, OrdMap.find?_insert_self, hNone]
      rfl
    · rw [OrdMap.find?_insert_ne _ hKey]

/-- The weak pointer of the required key is replaced after `operator[]` has found it. -/
theorem join_insert (cache : OrdMap KeyTie (Option ℕ)) (key key' : KeyTie) (v : Option ℕ) :
    (((cache.emplace key none).insert key v).find? key').join =
      if key' = key then v else (cache.find? key').join := by
  split
  · rename_i hKey
    rw [hKey, OrdMap.find?_insert_self]
    rfl
  · rename_i hKey
    rw [OrdMap.find?_insert_ne _ hKey, join_emplace_none]

theorem made_concat {made : List (τ × KeyTie)} {entry : τ × KeyTie}
    (h : made[object]? = some entry) (new : τ × KeyTie) : (made ++ [new])[object]? = some entry := by
  rw [List.getElem?_append_left (List.getElem?_eq_some_iff.mp h).1, h]

/-! ### The calls -/

/-- A call that finds its object. -/
theorem require_of_alive (hWeak : svc.weak key = some object) (hAlive : svc.Alive object) :
    svc.require type key f =
      { svc with
        cache := svc.cache.emplace key none
        handles := svc.handles ++ [some ⟨type, object⟩] } := by
  have hSome : (svc.weak key).filter (svc.Alive ·) = some object := by
    rw [hWeak, Option.filter_some, if_pos (decide_eq_true hAlive)]
  rw [require, lookup, hSome]
  rfl

/-- A call that has its factory called. -/
theorem require_of_expired (hExpired : ∀ object, svc.weak key = some object → ¬svc.Alive object) :
    svc.require type key f = svc.store type key f := by
  have hNone : (svc.weak key).filter (svc.Alive ·) = none := by
    rw [Option.filter_eq_none_iff]
    intro object hWeak
    rw [decide_eq_true_eq]
    exact hExpired object hWeak
  rw [require, lookup, hNone]
  rfl

namespace Settled

theorem type_of_alive (h : svc.Settled) (hAlive : svc.Alive object)
    (hMade : svc.made[object]? = some (type, key)) : some ⟨type, object⟩ ∈ svc.handles := by
  obtain ⟨handle, hMem, rfl⟩ := alive_iff.mp hAlive
  obtain ⟨key', hMade'⟩ := h.typed handle hMem
  obtain rfl := (Prod.mk.inj (Option.some.inj (hMade'.symm.trans hMade))).1
  exact hMem

/-- Pointers were copied or released only. -/
theorem of_handles (h : svc.Settled)
    (hHandles : ∀ handle, some handle ∈ svc'.handles → some handle ∈ svc.handles)
    (hMade : svc'.made = svc.made) (hWeak : ∀ key, svc'.weak key = svc.weak key) :
    svc'.Settled where
  typed handle hMem := by
    rw [hMade]
    exact h.typed handle (hHandles handle hMem)
  cached key object := by
    rw [hMade, hWeak]
    exact h.cached key object
  alive type key object hAlive := by
    rw [hMade, hWeak]
    obtain ⟨handle, hMem, hObject⟩ := alive_iff.mp hAlive
    exact h.alive type key object (alive_iff.mpr ⟨handle, hHandles handle hMem, hObject⟩)

/-- Without an object alive in the cache there is none that was made for the key. -/
theorem not_alive (h : svc.Settled)
    (hExpired : ∀ object, svc.weak key = some object → ¬svc.Alive object) {type : τ} {object : ℕ}
    (hMade : svc.made[object]? = some (type, key)) : ¬svc.Alive object :=
  fun hAlive => hExpired object (h.alive type key object hAlive hMade) hAlive

theorem throws (h : svc.Settled) (key : KeyTie) (calls : ℕ) :
    Settled { svc with cache := svc.cache.emplace key none, calls := calls } :=
  h.of_handles (fun _ hMem => hMem) rfl fun _ => join_emplace_none ..

theorem returnsNull (h : svc.Settled)
    (hExpired : ∀ object, svc.weak key = some object → ¬svc.Alive object) (calls : ℕ) :
    Settled { svc with
      cache := (svc.cache.emplace key none).insert key none
      handles := svc.handles ++ [none]
      calls := calls } where
  typed handle hMem := h.typed handle (by simpa using hMem)
  cached key' object hWeak := by
    rw [weak, join_insert] at hWeak
    split at hWeak
    · cases hWeak
    · exact h.cached key' object hWeak
  alive type key' object hAlive hMade := by
    have hAlive' : svc.Alive object := by simpa [Alive] using hAlive
    rw [weak, join_insert]
    split
    · rename_i hKey
      exact absurd hAlive' (h.not_alive hExpired (hKey ▸ hMade))
    · exact h.alive type key' object hAlive' hMade

theorem makes (h : svc.Settled)
    (hExpired : ∀ object, svc.weak key = some object → ¬svc.Alive object) (type : τ) (calls : ℕ) :
    Settled {
      cache := (svc.cache.emplace key none).insert key (some svc.made.length)
      made := svc.made ++ [(type, key)]
      handles := svc.handles ++ [some ⟨type, svc.made.length⟩]
      calls := calls } where
  typed handle hMem := by
    rw [List.mem_append, List.mem_singleton, Option.some.injEq] at hMem
    rcases hMem with hMem | rfl
    · obtain ⟨key', hMade⟩ := h.typed handle hMem
      exact ⟨key', made_concat hMade _⟩
    · exact ⟨key, by simp⟩
  cached key' object hWeak := by
    rw [weak, join_insert] at hWeak
    split at hWeak
    · rename_i hKey
      obtain rfl := Option.some.inj hWeak
      exact ⟨type, by simp [hKey]⟩
    · obtain ⟨type', hMade⟩ := h.cached key' object hWeak
      exact ⟨type', made_concat hMade _⟩
  alive type' key' object hAlive hMade := by
    rw [weak, join_insert]
    by_cases hObject : object = svc.made.length
    · obtain rfl : key = key' := by
        rw [hObject] at hMade
        simpa using congrArg (Option.map Prod.snd) hMade
      rw [if_pos rfl, hObject]
    · have hAlive' : svc.Alive object := by
        simpa [Alive, hObject] using hAlive
      have hMade' : svc.made[object]? = some (type', key') := by
        have hLt := (List.getElem?_eq_some_iff.mp hMade).1
        rw [List.length_append, List.length_singleton] at hLt
        rwa [List.getElem?_append_left (by omega)] at hMade
      split
      · rename_i hKey
        exact absurd hAlive' (h.not_alive hExpired (hKey ▸ hMade'))
      · exact h.alive type' key' object hAlive' hMade'

end Settled

/-! ### Runs -/

theorem Settled.copy (h : svc.Settled) {j : ℕ} {handle : Handle τ}
    (hj : slot svc.handles j = some handle) :
    Settled { svc with handles := svc.handles ++ [some handle] } := by
  refine h.of_handles (fun handle' hMem => ?_) rfl fun _ => rfl
  rw [List.mem_append, List.mem_singleton, Option.some.injEq] at hMem
  rcases hMem with hMem | rfl
  · exact hMem
  · exact mem_of_slot hj

theorem Settled.release (h : svc.Settled) (i : ℕ) :
    Settled { svc with handles := svc.handles.set i none } := by
  refine h.of_handles (fun handle hMem => ?_) rfl fun _ => rfl
  rcases List.mem_or_eq_of_mem_set hMem with hMem | hNone
  · exact hMem
  · cases hNone

theorem Honours.of_settled (h : svc'.Settled) (hMade : svc'.made = svc.made)
    (hOp : ∀ type key f, op ≠ .require type key f) : Honours svc op svc' where
  same type key f _ hEq := absurd hEq (hOp type key f)
  fresh type key hNew := by simp [hMade] at hNew
  typed := h.typed

/-- A call that finds an object keeps the rules when the object was made as the required type. -/
theorem Settled.found (h : svc.Settled) (type : τ) (f : Factory) {type' : τ} {key : LockedKey}
    (hWeak : svc.weak key.tie = some object) (hAlive : svc.Alive object)
    (hMade : svc.made[object]? = some (type', key.tie)) :
    (Honours svc (.require type key f) (svc.require type key.tie f) ↔ type' = type) ∧
      (type' = type → (svc.require type key.tie f).Settled) := by
  rw [require_of_alive hWeak hAlive]
  have hSettled : type' = type → Settled { svc with
      cache := svc.cache.emplace key.tie none
      handles := svc.handles ++ [some ⟨type, object⟩] } := by
    rintro rfl
    refine h.of_handles (fun handle hMem => ?_) rfl fun _ => join_emplace_none ..
    rw [List.mem_append, List.mem_singleton] at hMem
    rcases hMem with hMem | hEq
    · exact hMem
    · exact hEq ▸ h.type_of_alive hAlive hMade
  refine ⟨⟨fun hHonours => ?_, fun hType => ⟨?_, ?_, (hSettled hType).typed⟩⟩, hSettled⟩
  · obtain ⟨key', hMade'⟩ := hHonours.typed ⟨type, object⟩ (by simp)
    exact (Prod.mk.inj (Option.some.inj (hMade.symm.trans hMade'))).1
  · rintro type₁ key₁ f₁ object₁ ⟨⟩ hAlive₁ hMade₁
    obtain rfl := Option.some.inj (hWeak.symm.trans (h.alive type key.tie object₁ hAlive₁ hMade₁))
    exact ⟨rfl, rfl⟩
  · intro type₁ key₁ hNew
    simp at hNew

/-- A call that finds no object keeps the rules. -/
theorem Settled.expired (h : svc.Settled) (type : τ) (f : Factory) {key : LockedKey}
    (hExpired : ∀ object, svc.weak key.tie = some object → ¬svc.Alive object) :
    Honours svc (.require type key f) (svc.require type key.tie f) ∧
      (svc.require type key.tie f).Settled := by
  rw [require_of_expired hExpired]
  have hSame : ∀ type₁ key₁ f₁ object₁, ServiceOp.require type key f = .require type₁ key₁ f₁ →
      svc.Alive object₁ → svc.made[object₁]? ≠ some (type₁, key₁.tie) := by
    rintro type₁ key₁ f₁ object₁ ⟨⟩ hAlive hMade
    exact h.not_alive hExpired hMade hAlive
  cases f with
  | makes =>
    have hSettled := h.makes hExpired type (svc.calls + 1)
    refine ⟨⟨fun type₁ key₁ f₁ object₁ hOp hAlive hMade =>
      absurd hMade (hSame type₁ key₁ f₁ object₁ hOp hAlive), ?_, hSettled.typed⟩, hSettled⟩
    intro type₁ key₁ hNew object₁ hAlive hMade
    obtain ⟨rfl, rfl⟩ : type = type₁ ∧ key.tie = key₁ := by simpa [store] using hNew
    exact h.not_alive hExpired hMade hAlive
  | returnsNull =>
    have hSettled := h.returnsNull hExpired (svc.calls + 1)
    refine ⟨⟨fun type₁ key₁ f₁ object₁ hOp hAlive hMade =>
      absurd hMade (hSame type₁ key₁ f₁ object₁ hOp hAlive), ?_, hSettled.typed⟩, hSettled⟩
    intro type₁ key₁ hNew
    simp [store] at hNew
  | throws =>
    have hSettled := h.throws key.tie (svc.calls + 1)
    refine ⟨⟨fun type₁ key₁ f₁ object₁ hOp hAlive hMade =>
      absurd hMade (hSame type₁ key₁ f₁ object₁ hOp hAlive), ?_, hSettled.typed⟩, hSettled⟩
    intro type₁ key₁ hNew
    simp [store] at hNew

/-- The step lemma. -/
theorem Settled.step (h : svc.Settled) (hStep : svc.step op = some svc') :
    (OneType svc op ↔ Honours svc op svc') ∧ (Honours svc op svc' → svc'.Settled) := by
  cases op with
  | require type key f =>
    obtain rfl := Option.some.inj hStep
    by_cases hFound : ∃ object, svc.weak key.tie = some object ∧ svc.Alive object
    · obtain ⟨object, hWeak, hAlive⟩ := hFound
      obtain ⟨type', hMade⟩ := h.cached key.tie object hWeak
      obtain ⟨hIff, hSettled⟩ := h.found type f hWeak hAlive hMade
      rw [hIff]
      refine ⟨?_, hSettled⟩
      refine ⟨fun hOne => ?_, ?_⟩
      · obtain ⟨handle, hMem, rfl⟩ := alive_iff.mp hAlive
        exact hOne _ hMem handle rfl _ hMade rfl
      · rintro rfl _ hMem handle rfl ⟨type₁, key₁⟩ hMade₁ rfl
        have hWeak₁ := h.alive type₁ key.tie _ (alive_iff.mpr ⟨handle, hMem, rfl⟩) hMade₁
        obtain rfl := Option.some.inj (hWeak.symm.trans hWeak₁)
        exact (Prod.mk.inj (Option.some.inj (hMade₁.symm.trans hMade))).1
    · have hExpired : ∀ object, svc.weak key.tie = some object → ¬svc.Alive object :=
        fun object hWeak hAlive => hFound ⟨object, hWeak, hAlive⟩
      obtain ⟨hHonours, hSettled⟩ := h.expired type f hExpired
      refine ⟨iff_of_true ?_ hHonours, fun _ => hSettled⟩
      rintro _ hMem handle rfl ⟨type₁, key₁⟩ hMade rfl
      exact absurd (alive_iff.mpr ⟨handle, hMem, rfl⟩) (h.not_alive hExpired hMade)
  | copy j =>
    obtain ⟨handle, hHandle, hPure⟩ := Option.bind_eq_some_iff.mp hStep
    obtain rfl := Option.some.inj hPure
    have hSettled := h.copy hHandle
    exact ⟨iff_of_true trivial (.of_settled hSettled rfl nofun), fun _ => hSettled⟩
  | release i =>
    obtain ⟨handle, -, hPure⟩ := Option.bind_eq_some_iff.mp hStep
    obtain rfl := Option.some.inj hPure
    have hSettled := h.release i
    exact ⟨iff_of_true trivial (.of_settled hSettled rfl nofun), fun _ => hSettled⟩

theorem settled_empty : Settled ({} : EntityService τ) := ⟨nofun, nofun, nofun⟩

/-- The service honours every call of a run exactly when no call requires a key as one type while an
object is alive that was made for the key as another type. -/
theorem honours_run_iff (ops : List (ServiceOp τ)) (svc : EntityService τ)
    (hRun : run step {} ops = some svc) :
    Safe step Honours {} ops ↔ Along step OneType {} ops :=
  safe_iff_of_run (fun _ _ _ h hStep => (h.step hStep).1)
    (fun _ _ _ h hHonours hStep => (h.step hStep).2 hHonours) settled_empty hRun

/-- Two types of handles. -/
inductive HandleKind
  | fix
  | web
deriving DecidableEq

/-- The locked key with no values. -/
def emptyKey : LockedKey := ⟨KeyImpl.lock sizes {}, KeyImpl.locked_lock sizes {}⟩

/-- A key required as one type, released, and required as another. -/
def laterType : List (ServiceOp HandleKind) :=
  [.require .fix emptyKey .makes, .require .fix emptyKey .throws, .release 0, .release 1,
    .require .web emptyKey .makes]

theorem laterType_honoured : Safe step Honours {} laterType := by
  obtain ⟨svc, hRun⟩ := Option.isSome_iff_exists.mp
    (show (run step {} laterType).isSome = true by decide +kernel)
  refine (honours_run_iff laterType svc hRun).mpr ?_
  decide +kernel

/-- A key required as one type while it is held as another. -/
def twoTypes : List (ServiceOp HandleKind) :=
  [.require .fix emptyKey .makes, .require .web emptyKey .makes]

/-- The second call returns the object that was made as the first type. -/
theorem twoTypes_dishonoured :
    ∃ svc, run step {} twoTypes = some svc ∧
      svc.handles = [some ⟨.fix, 0⟩, some ⟨.web, 0⟩] ∧ svc.made = [(.fix, emptyKey.tie)] := by
  refine ⟨_, rfl, ?_, ?_⟩ <;> decide +kernel

end EntityService

end Arby.Entity
