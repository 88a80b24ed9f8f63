import Arby.Util.StringList

/-! Texts that are shown in part. A text that is too long is copied into a buffer of the pool, up to
three dots; an object is serialised each time that it is shown. -/

namespace Arby.Util

open Kit

/-- What a truncation shows of `s`. -/
def truncated (s : String) (limit : ℕ) : String :=
  if s.length ≤ max limit 3 then s
  else String.ofList (s.toList.take (max limit 3 - 3)) ++ "..."

theorem length_truncated_le (s : String) (limit : ℕ) :
    (truncated s limit).length ≤ max limit 3 := by
  unfold truncated
  split
  · assumption
  · have hDots : "...".length = 3 := by decide
    rw [String.length_append, hDots, String.length_ofList, List.length_take]
    omega

namespace StringLists

/-- The string of node `a`. -/
def text (st : StringLists) (a : ℕ) : String := (st.nodes[a]?.map StringNode.s).getD ""

def setText (st : StringLists) (a : ℕ) (s : String) : StringLists :=
  { st with nodes := st.nodes.modify a fun node => { node with s } }

end StringLists

/-- A `std::string_view`: of a text of somebody else, or of the first `size` bytes of a buffer. -/
inductive View
  | text (sv : String)
  | buffer (node size : ℕ)
deriving DecidableEq

namespace StringLists

def read (st : StringLists) : View → String
  | .text sv => sv
  | .buffer node size => String.ofList ((st.text node).toList.take size)

/-- `handle = buffers_.pop()` for handle `i`, where list 0 is `buffers_`: the handle that is returned
is assigned, and destroyed. -/
def assignPop (st : StringLists) (i : ℕ) : Option StringLists :=
  run step st [.pop 0, .moveAssign i st.handles.length, .destroy st.handles.length]

/-- `truncate_op_base::transform` of the object with handle `i`. -/
def transform (st : StringLists) (i : ℕ) (sv : String) (limit : ℕ) :
    Option (StringLists × View) := do
  let limit := max limit 3
  let st ←
    if st.pnode i = none ∧ sv.length > limit then do
      let st ← st.assignPop i
      let pnode ← st.pnode i
      pure (st.setText pnode (String.ofList (sv.toList.take (limit - 3)) ++ "..."))
    else pure st
  match st.pnode i with
  | some pnode => return (st, .buffer pnode (st.text pnode).length)
  | none => return (st, .text sv)

end StringLists

/-- `truncate_op`, with the place of its handle. -/
structure TruncateOp where
  handle : ℕ
  sv : View

namespace TruncateOp

/-- The constructor. -/
def construct (pool : StringLists) (sv : String) (limit : ℕ) :
    Option (StringLists × TruncateOp) := do
  let handle := pool.handles.length
  let pool ← pool.step .empty
  let (pool, sv) ← pool.transform handle sv limit
  return (pool, { handle, sv })

/-- `operator<<`, on a stream that has written `os`. -/
def insert (pool : StringLists) (os : String) (op : TruncateOp) : String := os ++ pool.read op.sv

/-- `to_string`. -/
def toString (pool : StringLists) (op : TruncateOp) : String := pool.read op.sv

end TruncateOp

/-- `json_truncate_op`. -/
structure JsonTruncateOp (ω : Type) where
  o : ω
  limit : ℕ

namespace JsonTruncateOp

variable {ω : Type}

/-- The constructor. -/
def construct (o : ω) (limit : ℕ) : JsonTruncateOp ω := { o, limit := max 3 limit }

variable (serialize : ω → String)

/-- `operator<<`. -/
def insert (os : String) (op : JsonTruncateOp ω) : String :=
  let s := serialize op.o
  if s.length > op.limit then os ++ (String.ofList (s.toList.take (op.limit - 3)) ++ "...")
  else os ++ s

/-- `to_string`. -/
def toString (op : JsonTruncateOp ω) : String := serialize op.o

/-- Both ways of showing the object truncate its serialisation. -/
def Renders (o : ω) (limit : ℕ) : Prop :=
  (∀ os, insert serialize os (construct o limit) = os ++ truncated (serialize o) limit) ∧
    toString serialize (construct o limit) = truncated (serialize o) limit

theorem insert_construct (os : String) (o : ω) (limit : ℕ) :
    insert serialize os (construct o limit) = os ++ truncated (serialize o) limit := by
  unfold insert construct truncated
  dsimp only
  rw [Nat.max_comm 3 limit]
  by_cases hLong : (serialize o).length > max limit 3
  · rw [if_pos hLong, if_neg (Nat.not_le.mpr hLong)]
  · rw [if_neg hLong, if_pos (Nat.not_lt.mp hLong)]

/-- `to_string` does not truncate, so that it does what it should when there is nothing to cut. -/
theorem renders_iff (o : ω) (limit : ℕ) :
    Renders serialize o limit ↔ (serialize o).length ≤ max limit 3 := by
  constructor
  · rintro ⟨-, hString⟩
    rw [toString, construct] at hString
    rw [hString]
    exact length_truncated_le _ _
  · intro hShort
    refine ⟨fun os => insert_construct serialize os o limit, ?_⟩
    rw [truncated, if_pos hShort]
    rfl

end JsonTruncateOp

/-- A truncation, with the text and the limit that it was made for. -/
structure Truncation where
  op : TruncateOp
  s : String
  limit : ℕ

/-- The pool of a thread, and the truncations that use it. One is `none` once it is destroyed. -/
structure Truncations where
  pool : StringLists := .start 1
  ops : List (Option Truncation) := []

inductive TruncationsOp
  | truncate (s : String) (limit : ℕ)
  | destroy (i : ℕ)

namespace Truncations

def step (st : Truncations) : TruncationsOp → Option Truncations
  | .truncate s limit => do
    let (pool, op) ← TruncateOp.construct st.pool s limit
    return { pool, ops := st.ops ++ [some { op, s, limit }] }
  | .destroy i =>
    match slot st.ops i with
    | none => some st
    | some made => do
      let pool ← st.pool.step (.destroy made.op.handle)
      return { pool, ops := st.ops.set i none }

/-- Both ways of showing a truncation show what is wanted of its text. -/
def Renders (st : Truncations) : Prop :=
  ∀ i made, slot st.ops i = some made →
    (∀ os, made.op.insert st.pool os = os ++ truncated made.s made.limit) ∧
      made.op.toString st.pool = truncated made.s made.limit

end Truncations

/-! ### What an operation on one handle leaves alone -/

namespace StringLists

variable {st st' st'' : StringLists} {a i j l m : ℕ} {view : View} {h self : Handle}

theorem text_setNext (st : StringLists) (a : ℕ) (v : Option ℕ) :
    (st.setNext a v).text = st.text := by
  funext b
  unfold text setNext
  rw [List.getElem?_modify]
  cases st.nodes[b]? with
  | none => rfl
  | some node => by_cases hb : a = b <;> simp [hb]

theorem text_setText_self (ha : a < st.nodes.length) (s : String) :
    (st.setText a s).text a = s := by
  simp [text, setText, ha]

theorem text_setText_of_ne {b : ℕ} (hb : b ≠ a) (s : String) :
    (st.setText a s).text b = st.text b := by
  unfold text setText
  rw [List.getElem?_modify_ne _ _ hb.symm]

theorem next_setText (st : StringLists) (a : ℕ) (s : String) : (st.setText a s).next = st.next := by
  funext b
  unfold next setText
  rw [List.getElem?_modify]
  cases st.nodes[b]? with
  | none => rfl
  | some node => by_cases hb : a = b <;> simp [hb]

/-- Who owns a node does not depend on its text. -/
theorem Owned.setText (hOwned : st.Owned) (a : ℕ) (s : String) : (st.setText a s).Owned := by
  have hLength : (st.setText a s).nodes.length = st.nodes.length := List.length_modify ..
  have hOwns : (st.setText a s).Owns = st.Owns := by
    funext o b
    cases o with
    | freeList l =>
      rw [Owns, next_setText]
      rfl
    | handle k => rfl
  refine ⟨⟨?_, ?_, ?_⟩, ?_, hOwned.hosts⟩
  · rw [next_setText]
    exact hOwned.lists
  · rw [hLength, hOwns]
    exact hOwned.owner
  · rw [hLength, hOwns]
    exact hOwned.made
  · rw [next_setText]
    exact hOwned.detached

/-- Other handles than `i` have the nodes that they had, with the same texts. -/
structure Spares (st st' : StringLists) (i : ℕ) : Prop where
  handle : ∀ m ≠ i, ∀ h, st.handle m = some h → st'.handle m = some h
  text : ∀ m ≠ i, ∀ b, st.pnode m = some b → st'.text b = st.text b
  firsts : st'.firsts.length = st.firsts.length

theorem Spares.pnode (hSpares : Spares st st' i) (hm : m ≠ i) (ha : st.pnode m = some a) :
    st'.pnode m = some a := by
  obtain ⟨h, hHandle, hNode⟩ := Option.bind_eq_some_iff.mp ha
  exact Option.bind_eq_some_iff.mpr ⟨h, hSpares.handle m hm h hHandle, hNode⟩

theorem Spares.trans (hSpares : Spares st st' i) (hSpares' : Spares st' st'' i) :
    Spares st st'' i where
  handle m hm h hh := hSpares'.handle m hm h (hSpares.handle m hm h hh)
  text m hm b hb := (hSpares'.text m hm b (hSpares.pnode hm hb)).trans (hSpares.text m hm b hb)
  firsts := hSpares'.firsts.trans hSpares.firsts

/-- A view of handle `i`: of the buffer that it has, if of any. -/
def Backed (st : StringLists) (i : ℕ) : View → Prop
  | .text _ => True
  | .buffer node _ => st.pnode i = some node

theorem Spares.backed (hSpares : Spares st st' i) (hm : m ≠ i) (hBacked : st.Backed m view) :
    st'.Backed m view ∧ st'.read view = st.read view := by
  cases view with
  | text sv => exact ⟨trivial, rfl⟩
  | buffer node size =>
    refine ⟨hSpares.pnode hm hBacked, ?_⟩
    rw [read, hSpares.text m hm node hBacked, read]

/-! ### The pool in use -/

/-- What `pop` leaves as it was. -/
theorem pop_kept (st : StringLists) (l : ℕ) : (∃ a, (st.pop l).2 = ⟨some l, some a⟩) ∧
    (st.pop l).1.handles = st.handles ∧ (st.pop l).1.firsts.length = st.firsts.length ∧
    ∀ b < st.nodes.length, (st.pop l).1.text b = st.text b := by
  unfold pop unlink
  cases st.first l with
  | none =>
    refine ⟨⟨_, rfl⟩, rfl, rfl, fun b hb => ?_⟩
    show ((st.nodes ++ [({} : StringNode)])[b]?.map StringNode.s).getD "" = st.text b
    rw [List.getElem?_append_left hb, text]
  | some a =>
    refine ⟨⟨a, rfl⟩, rfl, List.length_set, fun b _ => ?_⟩
    exact congrFun (text_setNext _ _ _) b

theorem step_moveAssign (hi : st.handle i = some self) (hNone : self.pnode = none)
    (hj : st.handle j = some h) (hne : i ≠ j) : ∃ st', st.step (.moveAssign i j) = some st' ∧
      st'.nodes = st.nodes ∧ st'.firsts = st.firsts ∧ st'.handle =
        Function.update (Function.update st.handle j (some { h with pnode := none })) i (some h) := by
  have hMove : st.step (.moveAssign i j) =
      some ((st.setHandle j (some { h with pnode := none })).setHandle i (some h)) := by
    simp only [step, hi, hj, release, hNone]
    rfl
  have hLeft := handle_setHandle hj (some { h with pnode := none })
  have hi₁ : (st.setHandle j (some { h with pnode := none })).handle i = some self := by
    rw [hLeft, Function.update_of_ne hne, hi]
  exact ⟨_, hMove, rfl, rfl, by rw [handle_setHandle hi₁, hLeft]⟩

theorem step_destroy (hi : st.handle i = some self) (hNone : self.pnode = none) :
    st.step (.destroy i) = some (st.setHandle i none) := by
  simp only [step, hi, release, hNone]
  rfl

/-- The popped node comes to handle `i`, and the handle that `pop` returned is gone. -/
theorem Owned.assignPop (hOwned : st.Owned) (hl : 0 < st.firsts.length)
    (hi : st.handle i = some self) (hNone : self.pnode = none) : ∃ st' a,
      st.assignPop i = some st' ∧ st'.Owned ∧ st'.pnode i = some a ∧ Spares st st' i := by
  obtain ⟨⟨a, hPopped⟩, hHandles, hFirsts, hText⟩ := st.pop_kept 0
  have hne : i ≠ st.handles.length := (lt_of_slot hi).ne
  have hOwned₁ := hOwned.pop hl
  have hPop : st.step (.pop 0) = some ((st.pop 0).1.addHandle (st.pop 0).2) := if_pos hl
  have hHandle₁ := handle_addHandle (st.pop 0).1 (st.pop 0).2
  rw [hHandles, show (st.pop 0).1.handle = st.handle by unfold handle; rw [hHandles], hPopped]
    at hHandle₁
  have hText₁ : ∀ b < st.nodes.length,
      ((st.pop 0).1.addHandle (st.pop 0).2).text b = st.text b := hText
  have hFirsts₁ : ((st.pop 0).1.addHandle (st.pop 0).2).firsts.length = st.firsts.length := hFirsts
  rw [hPopped] at hOwned₁ hPop hText₁ hFirsts₁
  generalize (st.pop 0).1.addHandle ⟨some 0, some a⟩ = st₁ at *
  have hi₁ : st₁.handle i = some self := by rw [hHandle₁, Function.update_of_ne hne, hi]
  have hk₁ : st₁.handle st.handles.length = some ⟨some 0, some a⟩ := by
    rw [hHandle₁, Function.update_self]
  obtain ⟨st₂, hMove, hNodes₂, hFirsts₂, hHandle₂⟩ := step_moveAssign hi₁ hNone hk₁ hne
  have hSafe : st₁.NoSelfMove (.moveAssign i st.handles.length) := fun hEq => absurd hEq hne
  obtain ⟨st₂', hMove', hOwned₂⟩ := hOwned₁.step hSafe
  obtain rfl := Option.some.inj (hMove.symm.trans hMove')
  have hk₂ : st₂.handle st.handles.length = some ⟨some 0, none⟩ := by
    rw [hHandle₂, Function.update_of_ne hne.symm, Function.update_self]
  have hDestroy := step_destroy hk₂ rfl
  obtain ⟨st₃, hDestroy', hOwned₃⟩ := hOwned₂.step (show st₂.NoSelfMove (.destroy _) from trivial)
  obtain rfl := Option.some.inj (hDestroy.symm.trans hDestroy')
  have hHandle₃ := handle_setHandle hk₂ none
  have hKept : ∀ m ≠ i, m ≠ st.handles.length →
      (st₂.setHandle st.handles.length none).handle m = st.handle m := by
    intro m hm hk
    rw [hHandle₃, Function.update_of_ne hk, hHandle₂, Function.update_of_ne hm,
      Function.update_of_ne hk, hHandle₁, Function.update_of_ne hk]
  refine ⟨_, a, ?_, hOwned₃, ?_, ⟨?_, ?_, ?_⟩⟩
  · rw [StringLists.assignPop, run_cons, hPop, Option.bind_some, run_cons, hMove, Option.bind_some,
      run_cons, hDestroy, Option.bind_some, run_nil]
  · rw [pnode, hHandle₃, Function.update_of_ne hne, hHandle₂, Function.update_self]
    rfl
  · intro m hm h hh
    rw [hKept m hm (lt_of_slot hh).ne, hh]
  · intro m _ b hb
    have hLt := hOwned.made (.handle m) b hb
    show st₂.text b = st.text b
    rw [text, hNodes₂, ← text, hText₁ b hLt]
  · show st₂.firsts.length = st.firsts.length
    rw [hFirsts₂, hFirsts₁]

/-- The view of a new truncation reads what is wanted of its text, and the others read on. -/
theorem Owned.transform (hOwned : st.Owned) (hl : 0 < st.firsts.length)
    (hi : st.handle i = some self) (hNone : self.pnode = none) (sv : String) (limit : ℕ) :
    ∃ st' view, st.transform i sv limit = some (st', view) ∧ st'.Owned ∧ Spares st st' i ∧
      (∃ h, st'.handle i = some h) ∧ st'.Backed i view ∧ st'.read view = truncated sv limit := by
  have hNode : st.pnode i = none := (pnode_of_handle hi).trans hNone
  unfold StringLists.transform truncated
  by_cases hLong : sv.length > max limit 3
  · obtain ⟨st₁, a, hPop, hOwned₁, hNode₁, hSpares⟩ := hOwned.assignPop hl hi hNone
    have ha := hOwned₁.made (.handle i) a hNode₁
    have hText := text_setText_self ha (String.ofList (sv.toList.take (max limit 3 - 3)) ++ "...")
    have hOwned₂ := hOwned₁.setText a (String.ofList (sv.toList.take (max limit 3 - 3)) ++ "...")
    rw [if_neg (Nat.not_le.mpr hLong)]
    dsimp only
    rw [if_pos ⟨hNode, hLong⟩, hPop]
    generalize String.ofList (sv.toList.take (max limit 3 - 3)) ++ "..." = shown at *
    have hNode₂ : (st₁.setText a shown).pnode i = some a := hNode₁
    obtain ⟨h, hHandle, -⟩ := Option.bind_eq_some_iff.mp hNode₂
    refine ⟨st₁.setText a shown, .buffer a shown.length, ?_, hOwned₂, hSpares.trans ⟨?_, ?_, rfl⟩,
      ⟨h, hHandle⟩, hNode₂, ?_⟩
    · simp only [Option.bind_eq_bind, Option.bind_some, hNode₁, Option.pure_def, hNode₂, hText]
    · exact fun m _ h hh => hh
    · intro m hm b hb
      refine text_setText_of_ne ?_ shown
      rintro rfl
      cases hOwned₁.owner_eq (show st₁.Owns (.handle m) b from hb)
        (show st₁.Owns (.handle i) b from hNode₁)
      exact hm rfl
    · rw [read, hText, List.take_of_length_le (String.length_toList ▸ le_rfl), String.ofList_toList]
  · refine ⟨st, .text sv, ?_, hOwned, ⟨fun _ _ _ hh => hh, fun _ _ _ _ => rfl, rfl⟩, ⟨self, hi⟩,
      trivial, ?_⟩
    · dsimp only
      rw [if_neg fun h => hLong h.2]
      simp only [Option.pure_def, Option.bind_eq_bind, Option.bind_some, hNode]
    · rw [if_pos (Nat.not_lt.mp hLong)]
      rfl

/-- A handle that is destroyed takes no other with it. -/
theorem Owned.destroy (hOwned : st.Owned) (hi : st.handle i = some self) :
    ∃ st', st.step (.destroy i) = some st' ∧ st'.Owned ∧ Spares st st' i := by
  obtain ⟨st₁, hRelease, hHandles, hReleased⟩ := hOwned.release hi (v := none) nofun
  have hStep : st.step (.destroy i) = some (st₁.setHandle i none) := by
    simp only [StringLists.step, hi, hRelease]
    rfl
  have hKept : st₁.text = st.text ∧ st₁.firsts.length = st.firsts.length := by
    unfold StringLists.release at hRelease
    split at hRelease
    · obtain rfl := Option.some.inj hRelease
      exact ⟨rfl, rfl⟩
    · obtain ⟨l, -, hLink⟩ := Option.bind_eq_some_iff.mp hRelease
      unfold StringLists.link at hLink
      split at hLink
      · obtain rfl := Option.some.inj hLink
        exact ⟨text_setNext _ _ _, List.length_set⟩
      · cases hLink
  have hHandle : (st₁.setHandle i none).handle = Function.update st.handle i none := by
    have hSame : st₁.handle = st.handle := by
      unfold handle
      rw [hHandles]
    rw [handle_setHandle (by rw [hSame]; exact hi), hSame]
  refine ⟨_, hStep, hReleased, ⟨fun m hm h hh => ?_, fun m _ b _ => ?_, hKept.2⟩⟩
  · rw [hHandle, Function.update_of_ne hm, hh]
  · exact congrFun hKept.1 b

end StringLists

theorem TruncateOp.construct_spares {pool : StringLists} (hOwned : pool.Owned)
    (hl : 0 < pool.firsts.length) (s : String) (limit : ℕ) : ∃ pool' op,
      construct pool s limit = some (pool', op) ∧ op.handle = pool.handles.length ∧ pool'.Owned ∧
      pool.Spares pool' op.handle ∧ (∃ h, pool'.handle op.handle = some h) ∧
      pool'.Backed op.handle op.sv ∧ pool'.read op.sv = truncated s limit := by
  obtain ⟨pool₁, hStep, hOwned₁⟩ := hOwned.step (show pool.NoSelfMove .empty from trivial)
  obtain rfl := Option.some.inj hStep
  have hHandle := pool.handle_addHandle {}
  have hi : (pool.addHandle {}).handle pool.handles.length = some {} := by
    rw [hHandle, Function.update_self]
  have hAdded : pool.Spares (pool.addHandle {}) pool.handles.length := by
    refine ⟨fun m hm h hh => ?_, fun _ _ _ _ => rfl, rfl⟩
    rw [hHandle, Function.update_of_ne hm, hh]
  obtain ⟨pool₂, view, hTransform, hOwned₂, hSpares, hLive, hBacked, hRead⟩ :=
    hOwned₁.transform hl hi rfl s limit
  refine ⟨pool₂, ⟨pool.handles.length, view⟩, ?_, rfl, hOwned₂, hAdded.trans hSpares, hLive, hBacked,
    hRead⟩
  rw [construct, hStep, Option.bind_eq_bind, Option.bind_some, hTransform]
  rfl

namespace Truncations

variable {st st' : Truncations} {made : Truncation} {k : ℕ}

/-- What holds of a truncation in the pool. -/
structure Kept (pool : StringLists) (made : Truncation) : Prop where
  handle : ∃ h, pool.handle made.op.handle = some h
  backed : pool.Backed made.op.handle made.op.sv
  read : pool.read made.op.sv = truncated made.s made.limit

theorem Kept.spares {pool pool' : StringLists} {i : ℕ} (hKept : Kept pool made)
    (hSpares : pool.Spares pool' i) (hne : made.op.handle ≠ i) : Kept pool' made := by
  obtain ⟨h, hHandle⟩ := hKept.handle
  obtain ⟨hBacked, hRead⟩ := hSpares.backed hne hKept.backed
  exact ⟨⟨h, hSpares.handle _ hne h hHandle⟩, hBacked, hRead.trans hKept.read⟩

/-- The invariant: each truncation has a handle of its own, and reads what is wanted of its text. -/
structure Valid (st : Truncations) : Prop where
  owned : st.pool.Owned
  list : 0 < st.pool.firsts.length
  kept : ∀ k made, slot st.ops k = some made → Kept st.pool made
  distinct : ∀ k k' made made', slot st.ops k = some made → slot st.ops k' = some made' →
    made.op.handle = made'.op.handle → k = k'

theorem valid_start : Valid {} where
  owned := StringLists.owned_start 1
  list := Nat.one_pos
  kept := nofun
  distinct := nofun

theorem Valid.renders (hValid : st.Valid) : st.Renders := by
  intro i made hMade
  have hRead := (hValid.kept i made hMade).read
  exact ⟨fun os => congrArg (os ++ ·) hRead, hRead⟩

theorem Valid.truncate (hValid : st.Valid) (s : String) (limit : ℕ) :
    ∃ st', st.step (.truncate s limit) = some st' ∧ st'.Valid := by
  obtain ⟨pool, op, hConstruct, hPlace, hOwned, hSpares, hLive, hBacked, hRead⟩ :=
    TruncateOp.construct_spares hValid.owned hValid.list s limit
  have hStep : st.step (.truncate s limit) =
      some { pool, ops := st.ops ++ [some { op, s, limit }] } := by
    rw [step, hConstruct]
    rfl
  have hOther : ∀ k made, slot st.ops k = some made → made.op.handle ≠ op.handle := by
    intro k made hMade hEq
    obtain ⟨h, hHandle⟩ := (hValid.kept k made hMade).handle
    exact (lt_of_slot hHandle).ne (hEq.trans hPlace)
  have hOps : ∀ k made, slot (st.ops ++ [some (⟨op, s, limit⟩ : Truncation)]) k = some made →
      k = st.ops.length ∧ made = ⟨op, s, limit⟩ ∨ slot st.ops k = some made := by
    intro k made hMade
    rw [slot_concat] at hMade
    by_cases hk : k = st.ops.length
    · rw [hk, Function.update_self] at hMade
      exact .inl ⟨hk, (Option.some.inj hMade).symm⟩
    · rw [Function.update_of_ne hk] at hMade
      exact .inr hMade
  refine ⟨_, hStep, hOwned, ?_, fun k made hMade => ?_, fun k k' made made' hMade hMade' hEq => ?_⟩
  · rw [hSpares.firsts]
    exact hValid.list
  · rcases hOps k made hMade with ⟨-, rfl⟩ | hOld
    · exact ⟨hLive, hBacked, hRead⟩
    · exact (hValid.kept k made hOld).spares hSpares (hOther k made hOld)
  · rcases hOps k made hMade with ⟨rfl, rfl⟩ | hOld <;>
      rcases hOps k' made' hMade' with ⟨rfl, rfl⟩ | hOld'
    · rfl
    · exact absurd hEq.symm (hOther k' made' hOld')
    · exact absurd hEq (hOther k made hOld)
    · exact hValid.distinct k k' made made' hOld hOld' hEq

theorem Valid.destroy (hValid : st.Valid) (i : ℕ) :
    ∃ st', st.step (.destroy i) = some st' ∧ st'.Valid := by
  simp only [step]
  cases hSlot : slot st.ops i with
  | none => exact ⟨st, rfl, hValid⟩
  | some gone =>
    obtain ⟨h, hHandle⟩ := (hValid.kept i gone hSlot).handle
    obtain ⟨pool, hStep, hOwned, hSpares⟩ := hValid.owned.destroy hHandle
    have hOps : ∀ k made, slot (st.ops.set i none) k = some made →
        k ≠ i ∧ slot st.ops k = some made := by
      intro k made hMade
      rw [slot_set (lt_of_slot hSlot)] at hMade
      by_cases hk : k = i
      · rw [hk, Function.update_self] at hMade
        cases hMade
      · rw [Function.update_of_ne hk] at hMade
        exact ⟨hk, hMade⟩
    refine ⟨{ pool, ops := st.ops.set i none }, by simp only [hStep]; rfl, hOwned, ?_,
      fun k made hMade => ?_, fun k k' made made' hMade hMade' hEq => ?_⟩
    · rw [hSpares.firsts]
      exact hValid.list
    · obtain ⟨hk, hOld⟩ := hOps k made hMade
      exact (hValid.kept k made hOld).spares hSpares fun hEq =>
        hk (hValid.distinct k i made gone hOld hSlot hEq)
    · exact hValid.distinct k k' made made' (hOps k made hMade).2 (hOps k' made' hMade').2 hEq

/-- Whatever was truncated and destroyed on a thread before, a truncation of a text shows in both ways
what is wanted; one of an object does exactly when there is nothing to cut. -/
theorem renders_run_iff {ω : Type} (serialize : ω → String) :
    (∀ ops, Safe step (fun _ _ st => st.Renders) {} ops) ∧
    (∀ s limit, (truncated s limit).length ≤ max limit 3) ∧
    ∀ o limit, JsonTruncateOp.Renders serialize o limit ↔ (serialize o).length ≤ max limit 3 := by
  refine ⟨fun ops => safe_of_invariant ?_ valid_start ops, length_truncated_le,
    JsonTruncateOp.renders_iff serialize⟩
  intro st op hValid
  obtain ⟨st', hStep, hValid'⟩ : ∃ st', st.step op = some st' ∧ st'.Valid := by
    cases op with
    | truncate s limit => exact hValid.truncate s limit
    | destroy i => exact hValid.destroy i
  exact ⟨st', hStep, hValid'.renders, hValid'⟩

end Truncations

/-- An object with one value, and a limit below the length of its text. -/
theorem JsonTruncateOp.toString_not_truncated :
    ¬∀ (serialize : String → String) (o : String) (limit : ℕ),
    Renders serialize o limit := by
  intro h
  have hShort := (renders_iff id "\x7b\"a\":1\x7d" 4).mp (h id _ 4)
  exact absurd hShort (by decide)

end Arby.Util
