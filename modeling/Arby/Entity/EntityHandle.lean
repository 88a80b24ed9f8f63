import Arby.Kit.Run
import Arby.Kit.Slots

/-! The handles of entities, which start what they construct and stop what they let go. The stop is
dispatched to the entity's executor: it runs at once when the caller is there already, and is posted
otherwise. -/

namespace Arby.Entity

open Kit

inductive EntityState
  | notStarted
  | started
  | stopped
deriving DecidableEq, Repr

/-- The calls on an entity that its assertions guard. -/
inductive EntityCall
  | start
  | stop
deriving DecidableEq, Repr

/-- `entity_base`, with the calls that it has returned from. -/
structure EntityBase where
  estate : EntityState := .notStarted
  calls : List EntityCall := []
deriving DecidableEq, Repr

/-- `start`, `none` when its assertion fails. -/
def EntityBase.start (x : EntityBase) : Option EntityBase :=
  if x.estate = .notStarted then
    some { estate := .started, calls := x.calls ++ [.start] }
  else none

/-- `stop`, `none` when its assertion fails. -/
def EntityBase.stop (x : EntityBase) : Option EntityBase :=
  if x.estate = .started then
    some { estate := .stopped, calls := x.calls ++ [.stop] }
  else none

/-- What waits on the executor of entity `e`. -/
inductive HandleTask
  | handleStart (e : ℕ)
  | handleStop (e : ℕ)
  | stop (e : ℕ)
deriving DecidableEq, Repr

/-- The entities and the handles of a program. A handle is the entity that its `impl_` points to, if
any. An entity lives on as long as something points to it, so that its name stays in use. -/
structure HandleHeap where
  entities : List EntityBase := []
  handles : List (Option (Option ℕ)) := []
  pending : List HandleTask := []
  /-- The entities that a handle has had. -/
  held : List ℕ := []
deriving DecidableEq, Repr

inductive HandleOp
  /-- An entity made outside of any handle, which its maker may start. -/
  | make (begun : Bool)
  /-- `entity_handle(exec, args...)`. -/
  | construct
  /-- `entity_handle(impl)`. -/
  | adopt (impl : Option ℕ)
  /-- `entity_handle(std::move(handle j))`. -/
  | moveConstruct (j : ℕ)
  /-- `handle i = std::move(handle j)`, on the executor of the entity it lets go or not. -/
  | moveAssign (i j : ℕ) (atOnce : Bool)
  | destroy (i : ℕ) (atOnce : Bool)
  /-- The executor runs a task. -/
  | run (task : HandleTask)
deriving DecidableEq, Repr

namespace HandleHeap

/-- A new entity. Its name is the number of those before it. -/
def create (s : HandleHeap) : HandleHeap := { s with entities := s.entities ++ [{}] }

def start (s : HandleHeap) (e : ℕ) : Option HandleHeap := do
  let x ← s.entities[e]?
  let x ← x.start
  return { s with entities := s.entities.set e x, pending := s.pending ++ [.handleStart e] }

def stop (s : HandleHeap) (e : ℕ) : Option HandleHeap := do
  let x ← s.entities[e]?
  let x ← x.stop
  return { s with entities := s.entities.set e x, pending := s.pending ++ [.handleStop e] }

/-- `stop_check` of a handle on `impl`. -/
def stopCheck (s : HandleHeap) (impl : Option ℕ) (atOnce : Bool) : Option HandleHeap :=
  match impl with
  | none => some s
  | some e => if atOnce then s.stop e else some { s with pending := s.pending ++ [.stop e] }

/-- A new handle on `impl`. -/
def hold (s : HandleHeap) (impl : Option ℕ) : HandleHeap :=
  { s with handles := s.handles ++ [some impl], held := s.held ++ impl.toList }

/-- One operation, `none` when an assertion fails or it names what there is not. `handle_start` and
`handle_stop` do nothing but what a derived class makes of them. -/
def step (s : HandleHeap) : HandleOp → Option HandleHeap
  | .make begun => if begun then s.create.start s.entities.length else some s.create
  | .construct => do
    let s' ← s.create.start s.entities.length
    return s'.hold (some s.entities.length)
  | .adopt impl => some (s.hold impl)
  | .moveConstruct j => do
    let impl ← slot s.handles j
    return { s with handles := s.handles.set j (some none) ++ [some impl] }
  | .moveAssign i j atOnce => do
    let mine ← slot s.handles i
    let impl ← slot s.handles j
    if i = j then return s
    let s' ← s.stopCheck mine atOnce
    return { s' with handles := (s'.handles.set i (some impl)).set j (some none) }
  | .destroy i atOnce => do
    let mine ← slot s.handles i
    let s' ← s.stopCheck mine atOnce
    return { s' with handles := s'.handles.set i none }
  | .run task =>
    if task ∈ s.pending then
      let s' := { s with pending := s.pending.erase task }
      match task with
      | .stop e => s'.stop e
      | .handleStart _ | .handleStop _ => some s'
    else none

/-- The number of handles on entity `e`. -/
def owners (s : HandleHeap) (e : ℕ) : ℕ := s.handles.countP (· = some (some e))

/-- The operation names handles, entities and tasks that there are. -/
def Names (s : HandleHeap) : HandleOp → Prop
  | .make _ | .construct => True
  | .adopt impl => ∀ e ∈ impl, e < s.entities.length
  | .moveConstruct j => (slot s.handles j).isSome
  | .moveAssign i j _ => (slot s.handles i).isSome ∧ (slot s.handles j).isSome
  | .destroy i _ => (slot s.handles i).isSome
  | .run task => task ∈ s.pending

/-- A handle takes over an entity only when that is started, and when no handle has it and none has
let it go. -/
def TakesOver (s : HandleHeap) : HandleOp → Prop
  | .adopt impl => ∀ e ∈ impl, s.entities[e]?.any (·.estate = .started) ∧ s.owners e = 0 ∧
      HandleTask.stop e ∉ s.pending
  | _ => True

instance (s : HandleHeap) (op : HandleOp) : Decidable (s.Names op) :=
  match op with
  | .make _ | .construct | .adopt _ | .moveConstruct _ | .moveAssign .. | .destroy .. | .run _ => by
    dsimp only [Names]
    infer_instance

instance (s : HandleHeap) (op : HandleOp) : Decidable (s.TakesOver op) :=
  match op with
  | .make _ | .construct | .adopt _ | .moveConstruct _ | .moveAssign .. | .destroy .. | .run _ => by
    dsimp only [TakesOver]
    infer_instance

/-- An entity is started before it is stopped and stopped at most once, not as long as a handle has
it, and when handles have had it but none has it any more, then by the time that no stop waits on its
executor. -/
structure Lawful (s : HandleHeap) (e : ℕ) (x : EntityBase) : Prop where
  order : x.calls <+: [.start, .stop]
  kept : .stop ∈ x.calls → s.owners e = 0
  released : e ∈ s.held → s.owners e = 0 → HandleTask.stop e ∉ s.pending → .stop ∈ x.calls

end HandleHeap

end Arby.Entity
