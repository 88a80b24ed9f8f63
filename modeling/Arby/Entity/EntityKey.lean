import Arby.Kit.Nodes
import Arby.Kit.Slots
import Mathlib.Data.List.Lex
import Mathlib.Data.Prod.Lex
import Mathlib.Data.String.Basic

/-! The key of an entity: a map of strings with its cached hash and digest. Keys are copied by
sharing the block that holds these, and a block is cloned when one of its owners changes it. -/

namespace Arby.Entity

open Kit

/-- `entity_key::map_type`. -/
abbrev MapType := OrdMap String String

/-- `unsigned char[SHA_DIGEST_LENGTH]`. -/
abbrev Digest := Vector UInt8 20

/-- The hash functions: those of `boost::hash` for a map and for a string, `boost::hash_combine`,
and SHA-1. -/
structure HashFunctions where
  map : MapType → ℕ
  string : String → ℕ
  combine : ℕ → ℕ → ℕ
  sha1 : String → Digest

/-- Hash functions that count entries and characters. -/
def sizes : HashFunctions where
  map values := values.entries.length
  string := String.length
  combine seed hash := 31 * seed + hash
  sha1 input := Vector.replicate 20 (UInt8.ofNat input.length)

def toHex (nibble : UInt8) : Char := "0123456789abcdef".toList.getD nibble.toNat '0'

/-- `stringify`: two hexadecimal digits for each byte. -/
def stringify (digest : Digest) : String :=
  String.ofList (digest.toList.flatMap fun (byte : UInt8) => [toHex (byte >>> 4), toHex (byte &&& 0xf)])

/-- `entity_key::impl`. -/
structure KeyImpl where
  values : MapType := ∅
  cpphash : ℕ := 0
  sha1hash : String := ""
  locked : Bool := false

namespace KeyImpl

def clone (p : KeyImpl) : KeyImpl := { values := p.values }

/-- What `entity_key::lock` feeds to SHA-1. -/
def sha1Input (values : MapType) : String :=
  values.entries.foldl (fun input entry => input ++ entry.1 ++ entry.2) ""

/-- The body of `entity_key::lock`. -/
def lock (hash : HashFunctions) (p : KeyImpl) : KeyImpl :=
  { p with
    cpphash := hash.map p.values
    sha1hash := stringify (hash.sha1 (sha1Input p.values))
    locked := true }

/-- `std::tie` of the members that keys are compared by. -/
def tie (p : KeyImpl) : ℕ ×ₗ String ×ₗ List (String ×ₗ String) :=
  toLex (p.cpphash, toLex (p.sha1hash, p.values.entries.map toLex))

end KeyImpl

/-- The loop of `entity_key::merge`: entries of `other` whose keys `target` has not. -/
def mergeValues (target other : MapType) : MapType :=
  other.entries.foldl (fun target entry => target.emplace entry.1 entry.2) target

/-- An `entity_key`, as its pointer and the block that it points to. -/
abbrev EntityKey := Node KeyImpl

namespace EntityKey

def locked (key : EntityKey) : Bool := key.val.locked

def hashValue (key : EntityKey) : ℕ := key.val.cpphash

def sha1Digest (key : EntityKey) : String := key.val.sha1hash

/-- `operator==`. -/
def eq (key other : EntityKey) : Bool :=
  key.addr = other.addr || key.val.tie = other.val.tie

/-- `operator<`. -/
def lt (key other : EntityKey) : Bool :=
  key.addr ≠ other.addr && key.val.tie < other.val.tie

end EntityKey

structure EntityMoniker where
  classname : String
  key : EntityKey

namespace EntityMoniker

def hashValue (hash : HashFunctions) (arg : EntityMoniker) : ℕ :=
  hash.combine (hash.combine 0 (hash.string arg.classname)) arg.key.hashValue

/-- `operator==`. -/
def eq (l r : EntityMoniker) : Bool := l.classname = r.classname && l.key.eq r.key

/-- `operator<`. -/
def lt (l r : EntityMoniker) : Bool :=
  l.classname < r.classname || l.classname = r.classname && l.key.lt r.key

end EntityMoniker

/-- Any number of `entity_key` objects and the blocks that they share. An object is named by its
place in `keys`, which says what it points to, and is `none` once it is destroyed; a block is named
by its place in `impls`. -/
structure KeyHeap where
  impls : List KeyImpl := []
  keys : List (Option ℕ) := []

/-- `KeyOp.copy j` makes a new object from object `j`, and `KeyOp.assign i j` assigns it to `i`. -/
inductive KeyOp
  | construct (values : MapType)
  | copy (j : ℕ)
  | assign (i j : ℕ)
  | destroy (i : ℕ)
  | set (i : ℕ) (key value : String)
  | merge (i j : ℕ)
  | lock (i : ℕ)

namespace KeyHeap

/-- Where object `i` points to, `none` when there is no such object. -/
def pointer (heap : KeyHeap) (i : ℕ) : Option ℕ := slot heap.keys i

/-- Object `i`. -/
def lookup (heap : KeyHeap) (i : ℕ) : Option EntityKey := do
  let a ← heap.pointer i
  let p ← heap.impls[a]?
  return ⟨a, p⟩

/-- `impl_.use_count()` of the objects that point to `a`. -/
def useCount (heap : KeyHeap) (a : ℕ) : ℕ := heap.keys.countP (· = some a)

/-- `copy_check` of object `i`, and its block afterwards. -/
def copyCheck (heap : KeyHeap) (i : ℕ) : Option (KeyHeap × EntityKey) := do
  let key ← heap.lookup i
  if heap.useCount key.addr = 1 then return (heap, key)
  let a := heap.impls.length
  return ({ impls := heap.impls ++ [key.val.clone], keys := heap.keys.set i (some a) },
    ⟨a, key.val.clone⟩)

def setImpl (heap : KeyHeap) (a : ℕ) (p : KeyImpl) : KeyHeap :=
  { heap with impls := heap.impls.set a p }

def set (heap : KeyHeap) (i : ℕ) (key value : String) : Option KeyHeap := do
  let (heap, target) ← heap.copyCheck i
  return heap.setImpl target.addr
    { target.val with values := target.val.values.insert key value }

def merge (heap : KeyHeap) (i j : ℕ) : Option KeyHeap := do
  let (heap, target) ← heap.copyCheck i
  let other ← heap.lookup j
  return heap.setImpl target.addr
    { target.val with values := mergeValues target.val.values other.val.values }

def lock (hash : HashFunctions) (heap : KeyHeap) (i : ℕ) : Option KeyHeap := do
  let key ← heap.lookup i
  return heap.setImpl key.addr (key.val.lock hash)

def step (hash : HashFunctions) (heap : KeyHeap) : KeyOp → Option KeyHeap
  | .construct values =>
    some { impls := heap.impls ++ [{ values := values }], keys := heap.keys ++ [some heap.impls.length] }
  | .copy j => do
    let a ← heap.pointer j
    return { heap with keys := heap.keys ++ [some a] }
  | .assign i j => do
    let _ ← heap.pointer i
    let a ← heap.pointer j
    return { heap with keys := heap.keys.set i (some a) }
  | .destroy i => do
    let _ ← heap.pointer i
    return { heap with keys := heap.keys.set i none }
  | .set i key value => heap.set i key value
  | .merge i j => heap.merge i j
  | .lock i => heap.lock hash i

end KeyHeap

end Arby.Entity
