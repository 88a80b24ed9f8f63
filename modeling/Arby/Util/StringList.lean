import Arby.Kit.Chain
import Arby.Kit.Run
import Arby.Kit.Slots

/-! Lists of string buffers. A handle takes a buffer from a list and gives it back at the end of its
life; handles are moved, so that each buffer has one owner. -/

namespace Arby.Util

open Kit

/-- `string_list::node`. -/
structure StringNode where
  next : Option ℕ := none
  s : String := ""
deriving DecidableEq

/-- `string_list::handle`. -/
structure Handle where
  host : Option ℕ := none
  pnode : Option ℕ := none
deriving DecidableEq

/-- Any number of string lists, with the nodes that they made and the handles. Nodes, lists and
handles are named by their places; a handle is `none` once it is destroyed. -/
structure StringLists where
  nodes : List StringNode := []
  firsts : List (Option ℕ) := []
  handles : List (Option Handle) := []

namespace StringLists

/-- `first` of list `l`. -/
def first (st : StringLists) (l : ℕ) : Option ℕ := slot st.firsts l

/-- `next` of node `a`. -/
def next (st : StringLists) (a : ℕ) : Option ℕ := st.nodes[a]?.bind StringNode.next

/-- Handle `i`. -/
def handle (st : StringLists) (i : ℕ) : Option Handle := slot st.handles i

/-- `pnode` of handle `i`. -/
def pnode (st : StringLists) (i : ℕ) : Option ℕ := (st.handle i).bind Handle.pnode

def setNext (st : StringLists) (a : ℕ) (next : Option ℕ) : StringLists :=
  { st with nodes := st.nodes.modify a fun node => { node with next } }

def setFirst (st : StringLists) (l : ℕ) (first : Option ℕ) : StringLists :=
  { st with firsts := st.firsts.set l first }

def setHandle (st : StringLists) (i : ℕ) (h : Option Handle) : StringLists :=
  { st with handles := st.handles.set i h }

def addHandle (st : StringLists) (h : Handle) : StringLists :=
  { st with handles := st.handles ++ [some h] }

/-- The stores of `link`. -/
def linked (st : StringLists) (l a : ℕ) : StringLists :=
  (st.setNext a (st.first l)).setFirst l (some a)

/-- `link` of node `a` into list `l`, `none` when its assertion fails. -/
def link (st : StringLists) (l a : ℕ) : Option StringLists :=
  if st.next a = none then some (st.linked l a) else none

/-- `unlink` of the first node of list `l`. -/
def unlink (st : StringLists) (l : ℕ) : StringLists × Option ℕ :=
  match st.first l with
  | none => (st, none)
  | some result => ((st.setFirst l (st.next result)).setNext result none, some result)

/-- `pop`, with the handle that it returns. -/
def pop (st : StringLists) (l : ℕ) : StringLists × Handle :=
  match st.unlink l with
  | (st, some pnode) => (st, { host := some l, pnode := some pnode })
  | (st, none) =>
    ({ st with nodes := st.nodes ++ [{}] }, { host := some l, pnode := some st.nodes.length })

/-- What the destructor and the assignment do first: the node of `h` goes back to its list. -/
def release (st : StringLists) (h : Handle) : Option StringLists :=
  match h.pnode with
  | none => some st
  | some pnode => do
    let host ← h.host
    st.link host pnode

end StringLists

/-- `pop l` takes a buffer of list `l` into a new handle, and `empty` makes a handle with none.
`moveConstruct j` makes a handle from handle `j`, and `moveAssign i j` assigns it to handle `i`. -/
inductive HandleOp
  | pop (l : ℕ)
  | empty
  | moveConstruct (j : ℕ)
  | moveAssign (i j : ℕ)
  | destroy (i : ℕ)

namespace StringLists

/-- The step has no result when the assertion of `link` fails. What has no list or no handle to work
on does nothing. -/
def step (st : StringLists) : HandleOp → Option StringLists
  | .pop l =>
    if l < st.firsts.length then some ((st.pop l).1.addHandle (st.pop l).2) else some st
  | .empty => some (st.addHandle {})
  | .moveConstruct j =>
    match st.handle j with
    | none => some st
    | some other =>
      some ((st.setHandle j (some { other with pnode := none })).addHandle other)
  | .moveAssign i j =>
    match st.handle i, st.handle j with
    | some self, some other => do
      let st ← st.release self
      -- `pnode` is written last, so that a handle keeps it when it is assigned to itself
      return (st.setHandle j (some { other with pnode := none })).setHandle i (some other)
    | _, _ => some st
  | .destroy i =>
    match st.handle i with
    | none => some st
    | some self => do
      let st ← st.release self
      return st.setHandle i none

/-- Who can own a node. -/
inductive Owner
  | freeList (l : ℕ)
  | handle (i : ℕ)
deriving DecidableEq

def Owns (st : StringLists) : Owner → ℕ → Prop
  | .freeList l, a => ∃ xs, Chain st.next (st.first l) xs ∧ a ∈ xs
  | .handle i, a => st.pnode i = some a

/-- Every list comes to its end, where it has each of its nodes once, and every node has one owner
and no other. -/
structure SingleOwner (st : StringLists) : Prop where
  lists : ∀ l, ∃ xs, Chain st.next (st.first l) xs ∧ xs.Nodup
  owner : ∀ a < st.nodes.length, ∃! owner, st.Owns owner a
  made : ∀ owner a, st.Owns owner a → a < st.nodes.length

/-- No handle that has a node is assigned to itself. -/
def NoSelfMove (st : StringLists) : HandleOp → Prop
  | .moveAssign i j => i = j → st.pnode i = none
  | _ => True

instance (st : StringLists) (op : HandleOp) : Decidable (st.NoSelfMove op) :=
  match op with
  | .pop _ | .empty | .moveConstruct _ | .moveAssign _ _ | .destroy _ => by
    dsimp only [NoSelfMove]
    infer_instance

/-- `n` lists without nodes. -/
def start (n : ℕ) : StringLists := { firsts := List.replicate n none }

/-- The invariant: beside the owners, the node of a handle points to nothing, and the handle knows its
list. -/
structure Owned (st : StringLists) : Prop extends SingleOwner st where
  detached : ∀ i a, st.pnode i = some a → st.next a = none
  hosts : ∀ i h, st.handle i = some h → h.pnode ≠ none →
    ∃ l, h.host = some l ∧ l < st.firsts.length

variable {st st' : StringLists} {op : HandleOp} {a i j l n : ℕ} {h self other : Handle}
  {o o' : Owner} {xs : List ℕ}

/-! ### The fields after a store -/

theorem next_setNext (ha : a < st.nodes.length) (v : Option ℕ) :
    (st.setNext a v).next = Function.update st.next a v := by
  funext b
  unfold next setNext
  rw [List.getElem?_modify]
  by_cases hb : a = b
  · subst hb
    simp [ha]
  · simp [Function.update_of_ne (Ne.symm hb), hb]

@[simp] theorem length_setNext (v : Option ℕ) : (st.setNext a v).nodes.length = st.nodes.length :=
  List.length_modify ..

theorem first_setFirst (hl : l < st.firsts.length) (v : Option ℕ) :
    (st.setFirst l v).first = Function.update st.first l v := slot_set hl v

theorem handle_setHandle (hi : st.handle i = some h) (v : Option Handle) :
    (st.setHandle i v).handle = Function.update st.handle i v := slot_set (lt_of_slot hi) v

theorem handle_addHandle (st : StringLists) (h : Handle) :
    (st.addHandle h).handle = Function.update st.handle st.handles.length (some h) :=
  slot_concat _ _

/-- The place of the next handle. -/
theorem pnode_length (st : StringLists) : st.pnode st.handles.length = none := by
  rw [pnode, handle, slot_of_ge le_rfl, Option.bind_none]

theorem pnode_of_handle (hi : st.handle i = some h) : st.pnode i = h.pnode := by
  rw [pnode, hi, Option.bind_some]

theorem pnode_eq_update {v : Option Handle} (hHandle : st'.handle = Function.update st.handle i v) :
    st'.pnode = Function.update st.pnode i (v.bind Handle.pnode) := by
  funext k
  unfold pnode
  rw [hHandle]
  by_cases hk : k = i
  · rw [hk, Function.update_self, Function.update_self]
  · rw [Function.update_of_ne hk, Function.update_of_ne hk]

/-! ### Owners -/

theorem owns_freeList_iff (hChain : Chain st.next (st.first l) xs) :
    st.Owns (.freeList l) a ↔ a ∈ xs := by
  refine ⟨?_, fun ha => ⟨xs, hChain, ha⟩⟩
  rintro ⟨ys, hChain', ha⟩
  rwa [hChain.unique hChain']

theorem SingleOwner.owner_eq (hOwner : st.SingleOwner) (ho : st.Owns o a) (ho' : st.Owns o' a) :
    o = o' := (hOwner.owner a (hOwner.made o a ho)).unique ho ho'

theorem SingleOwner.notMem (hOwner : st.SingleOwner) (hOwns : st.Owns o a)
    (hChain : Chain st.next (st.first l) xs) (hne : o ≠ .freeList l) : a ∉ xs :=
  fun ha => hne (hOwner.owner_eq hOwns ((owns_freeList_iff hChain).mpr ha))

/-- Node `a` goes to the owner `o`, and the others stay where they are. -/
def Goes (st st' : StringLists) (a : ℕ) (o : Owner) : Prop :=
  ∀ o' b, st'.Owns o' b ↔ if b = a then o' = o else st.Owns o' b

theorem SingleOwner.goes (hOwner : st.SingleOwner) (hGoes : Goes st st' a o)
    (hLists : ∀ l, ∃ xs, Chain st'.next (st'.first l) xs) (ha : a < st'.nodes.length)
    (hLength : ∀ b ≠ a, b < st'.nodes.length ↔ b < st.nodes.length) : st'.SingleOwner := by
  refine ⟨fun l => ?_, fun b hb => ?_, fun o' b hOwns => ?_⟩
  · obtain ⟨xs, hChain⟩ := hLists l
    exact ⟨xs, hChain, hChain.nodup⟩
  · by_cases hba : b = a
    · refine ⟨o, (hGoes o b).mpr (by rw [if_pos hba]), fun o' hOwns => ?_⟩
      have hNew := (hGoes o' b).mp hOwns
      rwa [if_pos hba] at hNew
    · obtain ⟨owner, hOwns, hOnly⟩ := hOwner.owner b ((hLength b hba).mp hb)
      refine ⟨owner, (hGoes owner b).mpr (by rwa [if_neg hba]), fun o' hOwns' => hOnly o' ?_⟩
      have hOld := (hGoes o' b).mp hOwns'
      rwa [if_neg hba] at hOld
  · by_cases hba : b = a
    · rwa [hba]
    · rw [hGoes, if_neg hba] at hOwns
      exact (hLength b hba).mpr (hOwner.made o' b hOwns)

theorem Owned.goes (hOwned : st.Owned) (hGoes : Goes st st' a o)
    (hLists : ∀ l, ∃ xs, Chain st'.next (st'.first l) xs) (ha : a < st'.nodes.length)
    (hLength : ∀ b ≠ a, b < st'.nodes.length ↔ b < st.nodes.length)
    (hNext : ∀ b ≠ a, st'.next b = st.next b) (hDetached : ∀ i, o = .handle i → st'.next a = none)
    (hHosts : ∀ i h, st'.handle i = some h → h.pnode ≠ none →
      ∃ l, h.host = some l ∧ l < st'.firsts.length) : st'.Owned := by
  refine ⟨hOwned.toSingleOwner.goes hGoes hLists ha hLength, fun i b hi => ?_, hHosts⟩
  have hOwns := (hGoes (.handle i) b).mp hi
  by_cases hba : b = a
  · rw [if_pos hba] at hOwns
    rw [hba]
    exact hDetached i hOwns.symm
  · rw [if_neg hba] at hOwns
    rw [hNext b hba]
    exact hOwned.detached i b hOwns

theorem owned_start (n : ℕ) : (start n).Owned := by
  have hFirst : (start n).first = fun _ => none := by
    funext l
    unfold first start slot
    rw [List.getElem?_replicate]
    split <;> rfl
  refine ⟨⟨fun l => ⟨[], congrFun hFirst l, List.nodup_nil⟩, nofun, ?_⟩, nofun, nofun⟩
  intro o a hOwns
  cases o with
  | handle i => cases hOwns
  | freeList l =>
    have hChain : Chain (start n).next ((start n).first l) [] := congrFun hFirst l
    rw [owns_freeList_iff hChain] at hOwns
    cases hOwns

/-! ### What the operations do -/

/-- Nodes, lists and the nodes of the handles stay as they are. -/
theorem Owned.sameNodes (hOwned : st.Owned) (hNodes : st'.nodes = st.nodes)
    (hFirsts : st'.firsts = st.firsts) (hPnode : st'.pnode = st.pnode)
    (hHosts : ∀ i h, st'.handle i = some h → h.pnode ≠ none →
      ∃ l, h.host = some l ∧ l < st.firsts.length) : st'.Owned := by
  have hNext : st'.next = st.next := by
    unfold next
    rw [hNodes]
  have hFirst : st'.first = st.first := by
    unfold first
    rw [hFirsts]
  have hOwns : st'.Owns = st.Owns := by
    funext o a
    cases o with
    | freeList l => rw [Owns, hNext, hFirst, Owns]
    | handle i => rw [Owns, hPnode, Owns]
  refine ⟨⟨?_, ?_, ?_⟩, ?_, ?_⟩
  · rw [hNext, hFirst]
    exact hOwned.lists
  · rw [hNodes, hOwns]
    exact hOwned.owner
  · rw [hNodes, hOwns]
    exact hOwned.made
  · rw [hPnode, hNext]
    exact hOwned.detached
  · rw [hFirsts]
    exact hHosts

/-- The handles know their lists when the node of `h` comes to handle `i`. -/
theorem hosts_update (hHosts : ∀ i h, st.handle i = some h → h.pnode ≠ none →
      ∃ l, h.host = some l ∧ l < n) {v : Option Handle}
    (hHandle : st'.handle = Function.update st.handle i v)
    (hNew : ∀ h ∈ v, h.pnode ≠ none → ∃ l, h.host = some l ∧ l < n) :
    ∀ i h, st'.handle i = some h → h.pnode ≠ none → ∃ l, h.host = some l ∧ l < n := by
  intro k h hk
  rw [hHandle] at hk
  by_cases hki : k = i
  · rw [hki, Function.update_self] at hk
    exact hNew h hk
  · rw [Function.update_of_ne hki] at hk
    exact hHosts k h hk

/-- Handle `i`, which has no node, takes that of handle `j`. -/
theorem Owned.move (hOwned : st.Owned) (hNodes : st'.nodes = st.nodes)
    (hFirsts : st'.firsts = st.firsts) (hj : st.handle j = some other) (hi : st.pnode i = none)
    (hne : i ≠ j) (hHandle : st'.handle = Function.update
      (st.setHandle j (some { other with pnode := none })).handle i (some other)) : st'.Owned := by
  have hOther := pnode_of_handle hj
  have hLeft := handle_setHandle hj (some { other with pnode := none })
  have hPnode : st'.pnode = Function.update (Function.update st.pnode j none) i other.pnode := by
    rw [pnode_eq_update hHandle, pnode_eq_update hLeft]
    rfl
  have hHosts := hosts_update (hosts_update hOwned.hosts hLeft fun h hh hSome => by
      obtain rfl := Option.some.inj hh
      exact absurd rfl hSome) hHandle
    fun h hh => by
      obtain rfl := Option.some.inj hh
      exact hOwned.hosts j other hj
  cases hNode : other.pnode with
  | none =>
    have hJ : Function.update st.pnode j none = st.pnode := by
      rw [← hNode, ← hOther, Function.update_eq_self]
    refine hOwned.sameNodes hNodes hFirsts ?_ hHosts
    rw [hPnode, hJ, hNode, ← hi, Function.update_eq_self]
  | some a =>
    rw [hNode] at hPnode hOther
    have hNext : st'.next = st.next := by
      unfold next
      rw [hNodes]
    have hFirst : st'.first = st.first := by
      unfold first
      rw [hFirsts]
    have hOwns : st.Owns (.handle j) a := hOther
    have hGoes : Goes st st' a (.handle i) := by
      intro o b
      cases o with
      | freeList l =>
        have hSame : st'.Owns (.freeList l) b ↔ st.Owns (.freeList l) b := by
          rw [Owns, hNext, hFirst, Owns]
        rw [hSame]
        split
        · rename_i hba
          refine iff_of_false (fun hList => ?_) nofun
          cases hOwned.owner_eq hOwns (hba ▸ hList)
        · rfl
      | handle k =>
        show st'.pnode k = some b ↔
          if b = a then Owner.handle k = .handle i else st.pnode k = some b
        rw [hPnode]
        by_cases hki : k = i
        · rw [hki, Function.update_self, hi]
          grind
        · rw [Function.update_of_ne hki]
          by_cases hkj : k = j
          · rw [hkj, Function.update_self, hOther]
            grind
          · rw [Function.update_of_ne hkj]
            split
            · rename_i hba
              refine iff_of_false (fun hk => ?_) fun hEq => hki (Owner.handle.inj hEq)
              exact hkj (Owner.handle.inj (hOwned.owner_eq (o := .handle k) (hba ▸ hk) hOwns))
            · rfl
    refine hOwned.goes hGoes ?_ ?_ ?_ (fun b _ => congrFun hNext b) (fun _ _ => ?_) ?_
    · rw [hNext, hFirst]
      exact fun l => (hOwned.lists l).imp fun _ hChain => hChain.1
    · rw [hNodes]
      exact hOwned.made _ a hOwns
    · rw [hNodes]
      exact fun b _ => Iff.rfl
    · rw [hNext]
      exact hOwned.detached j a hOther
    · rw [hFirsts]
      exact hHosts

/-- The stores of `link`: node `a` of handle `i` comes to the front of list `l`. -/
theorem SingleOwner.link (hOwner : st.SingleOwner) (hi : st.pnode i = some a)
    (hNext : st'.next = Function.update st.next a (st.first l))
    (hFirst : st'.first = Function.update st.first l (some a))
    (hPnode : st'.pnode = Function.update st.pnode i none) :
    Goes st st' a (.freeList l) ∧ ∀ l, ∃ xs, Chain st'.next (st'.first l) xs := by
  have hOwns : st.Owns (.handle i) a := hi
  have hChains : ∀ m xs, Chain st.next (st.first m) xs →
      Chain st'.next (st'.first m) (if m = l then a :: xs else xs) := by
    intro m xs hChain
    have ha := hOwner.notMem hOwns hChain nofun
    rw [hNext, hFirst]
    by_cases hm : m = l
    · subst hm
      rw [if_pos rfl, Function.update_self]
      exact hChain.push ha
    · rw [if_neg hm, Function.update_of_ne hm]
      exact hChain.update ha _
  refine ⟨fun o b => ?_, fun m => ?_⟩
  · cases o with
    | freeList m =>
      obtain ⟨xs, hChain, -⟩ := hOwner.lists m
      have ha := hOwner.notMem hOwns hChain nofun
      rw [owns_freeList_iff (hChains m xs hChain), owns_freeList_iff hChain]
      grind
    | handle k =>
      show st'.pnode k = some b ↔
        if b = a then Owner.handle k = .freeList l else st.pnode k = some b
      rw [hPnode]
      by_cases hki : k = i
      · rw [hki, Function.update_self, hi]
        grind
      · rw [Function.update_of_ne hki]
        split
        · rename_i hba
          refine iff_of_false (fun hk => ?_) nofun
          exact hki (Owner.handle.inj (hOwner.owner_eq (o := .handle k) (hba ▸ hk) hOwns))
        · rfl
  · obtain ⟨xs, hChain, -⟩ := hOwner.lists m
    exact ⟨_, hChains m xs hChain⟩

/-- The node of handle `i` goes back to its list, and the handle is left without one. The assertion of
`link` holds. -/
theorem Owned.release (hOwned : st.Owned) (hi : st.handle i = some self) {v : Option Handle}
    (hEmpty : ∀ h ∈ v, h.pnode = none) : ∃ st₁, st.release self = some st₁ ∧
      st₁.handles = st.handles ∧ (st₁.setHandle i v).Owned := by
  have hSelf := pnode_of_handle hi
  have hNone : v.bind Handle.pnode = none := by
    cases v with
    | none => rfl
    | some h => exact hEmpty h rfl
  unfold StringLists.release
  cases hNode : self.pnode with
  | none =>
    refine ⟨st, rfl, rfl, ?_⟩
    have hHandle := handle_setHandle hi v
    refine hOwned.sameNodes rfl rfl ?_ ?_
    · rw [pnode_eq_update hHandle, hNone, ← hNode, ← hSelf, Function.update_eq_self]
    · refine hosts_update hOwned.hosts hHandle fun h hh hSome => absurd (hEmpty h hh) hSome
  | some a =>
    rw [hNode] at hSelf
    obtain ⟨l, hHost, hl⟩ := hOwned.hosts i self hi (by rw [hNode]; nofun)
    obtain ⟨xs, hChain, -⟩ := hOwned.lists l
    have hOwns : st.Owns (.handle i) a := hSelf
    have ha := hOwned.made _ a hOwns
    have hLink : st.link l a = some (st.linked l a) := if_pos (hOwned.detached i a hSelf)
    rw [hHost]
    refine ⟨_, hLink, rfl, ?_⟩
    have hNext : ((st.linked l a).setHandle i v).next = Function.update st.next a (st.first l) :=
      next_setNext ha _
    have hFirst : ((st.linked l a).setHandle i v).first = Function.update st.first l (some a) :=
      slot_set hl _
    have hHandle : ((st.linked l a).setHandle i v).handle = Function.update st.handle i v :=
      handle_setHandle hi v
    have hPnode := pnode_eq_update hHandle
    rw [hNone] at hPnode
    obtain ⟨hGoes, hLists⟩ := hOwned.toSingleOwner.link hSelf hNext hFirst hPnode
    have hLength : ((st.linked l a).setHandle i v).nodes.length = st.nodes.length :=
      length_setNext _
    have hFirsts : ((st.linked l a).setHandle i v).firsts.length = st.firsts.length :=
      List.length_set
    refine hOwned.goes hGoes hLists ?_ ?_ ?_ (fun _ hEq => nomatch hEq) ?_
    · rw [hLength]
      exact ha
    · rw [hLength]
      exact fun b _ => Iff.rfl
    · exact fun b hb => (congrFun hNext b).trans (Function.update_of_ne hb ..)
    · rw [hFirsts]
      exact hosts_update hOwned.hosts hHandle fun h hh hSome => absurd (hEmpty h hh) hSome

/-- A node that no handle has comes to handle `i`, which has none. -/
theorem owns_handle_update (hPnode : st'.pnode = Function.update st.pnode i (some a))
    (hi : st.pnode i = none) (hFree : ∀ k, st.pnode k ≠ some a) (k b : ℕ) :
    st'.Owns (.handle k) b ↔
      if b = a then Owner.handle k = .handle i else st.Owns (.handle k) b := by
  show st'.pnode k = some b ↔ if b = a then Owner.handle k = .handle i else st.pnode k = some b
  rw [hPnode]
  by_cases hki : k = i
  · rw [hki, Function.update_self, hi]
    grind
  · rw [Function.update_of_ne hki]
    split
    · rename_i hba
      exact iff_of_false (hba ▸ hFree k) fun hEq => hki (Owner.handle.inj hEq)
    · rfl

theorem Owned.hosts_addHandle (hOwned : st.Owned) (hl : l < st.firsts.length)
    (hHandle : st'.handle =
      Function.update st.handle n (some { host := some l, pnode := some a })) :
    ∀ i h, st'.handle i = some h → h.pnode ≠ none → ∃ l, h.host = some l ∧ l < st.firsts.length :=
  hosts_update hOwned.hosts hHandle fun h hh _ => by
    obtain rfl := Option.some.inj hh
    exact ⟨l, rfl, hl⟩

/-- A list without nodes makes a new one. -/
theorem Owned.popNew (hOwned : st.Owned) (hl : l < st.firsts.length) :
    (addHandle { st with nodes := st.nodes ++ [{}] }
      { host := some l, pnode := some st.nodes.length }).Owned := by
  have hNext : (addHandle { st with nodes := st.nodes ++ [{}] }
      { host := some l, pnode := some st.nodes.length }).next = st.next := by
    funext b
    show (st.nodes ++ [({} : StringNode)])[b]?.bind StringNode.next =
      st.nodes[b]?.bind StringNode.next
    rcases lt_trichotomy b st.nodes.length with hb | rfl | hb
    · rw [List.getElem?_append_left hb]
    · simp
    · have hLe : (st.nodes ++ [({} : StringNode)]).length ≤ b := by
        rw [List.length_append, List.length_singleton]
        exact hb
      rw [List.getElem?_eq_none hLe, List.getElem?_eq_none hb.le]
  have hHandle := handle_addHandle { st with nodes := st.nodes ++ [{}] }
    { host := some l, pnode := some st.nodes.length }
  have hPnode := pnode_eq_update hHandle
  have hFresh : ∀ o, ¬st.Owns o st.nodes.length := fun o hOwns => (hOwned.made o _ hOwns).false
  refine hOwned.goes (a := st.nodes.length) (o := .handle st.handles.length) ?_ ?_ ?_ ?_ ?_ ?_ ?_
  · intro o b
    cases o with
    | freeList m =>
      have hSame : (addHandle { st with nodes := st.nodes ++ [{}] }
          { host := some l, pnode := some st.nodes.length }).Owns (.freeList m) b ↔
            st.Owns (.freeList m) b := by
        rw [Owns, hNext]
        rfl
      rw [hSame]
      split
      · rename_i hba
        exact iff_of_false (hba ▸ hFresh _) nofun
      · rfl
    | handle k =>
      exact owns_handle_update hPnode st.pnode_length (fun k => hFresh (.handle k)) k b
  · rw [hNext]
    exact fun m => (hOwned.lists m).imp fun _ hChain => hChain.1
  · simp [addHandle]
  · intro b hb
    simp only [addHandle, List.length_append, List.length_singleton]
    omega
  · exact fun b _ => congrFun hNext b
  · intro _ _
    rw [hNext, next, List.getElem?_eq_none le_rfl, Option.bind_none]
  · exact hOwned.hosts_addHandle hl hHandle

/-- The first node of a list is taken off. -/
theorem Owned.popFirst (hOwned : st.Owned) (hl : l < st.firsts.length)
    (hFirst : st.first l = some a) :
    (addHandle ((st.setFirst l (st.next a)).setNext a none)
      { host := some l, pnode := some a }).Owned := by
  obtain ⟨chain, hChain, -⟩ := hOwned.lists l
  obtain ⟨xs, rfl⟩ : ∃ xs, chain = a :: xs := by
    cases chain with
    | nil => cases hFirst.symm.trans hChain
    | cons x xs =>
      obtain rfl := Option.some.inj (hFirst.symm.trans hChain.1)
      exact ⟨xs, rfl⟩
  have hOwns : st.Owns (.freeList l) a := ⟨_, hChain, List.mem_cons_self⟩
  have ha := hOwned.made _ a hOwns
  have hNext : (addHandle ((st.setFirst l (st.next a)).setNext a none)
      { host := some l, pnode := some a }).next = Function.update st.next a none :=
    next_setNext ha none
  have hFirst' : (addHandle ((st.setFirst l (st.next a)).setNext a none)
      { host := some l, pnode := some a }).first = Function.update st.first l (st.next a) :=
    first_setFirst hl _
  have hHandle : (addHandle ((st.setFirst l (st.next a)).setNext a none)
      { host := some l, pnode := some a }).handle = Function.update st.handle st.handles.length
        (some { host := some l, pnode := some a }) := handle_addHandle st _
  have hPnode := pnode_eq_update hHandle
  have hLength : (addHandle ((st.setFirst l (st.next a)).setNext a none)
      { host := some l, pnode := some a }).nodes.length = st.nodes.length := length_setNext none
  have hFirsts : (addHandle ((st.setFirst l (st.next a)).setNext a none)
      { host := some l, pnode := some a }).firsts.length = st.firsts.length := List.length_set
  generalize addHandle ((st.setFirst l (st.next a)).setNext a none)
    { host := some l, pnode := some a } = st' at *
  have hChains : ∀ m ys, Chain st.next (st.first m) ys →
      Chain st'.next (st'.first m) (if m = l then xs else ys) := by
    intro m ys hChain'
    rw [hNext, hFirst']
    by_cases hm : m = l
    · rw [if_pos hm, hm, Function.update_self]
      exact hChain.pop none
    · rw [if_neg hm, Function.update_of_ne hm]
      have ha' := hOwned.notMem hOwns hChain' fun hEq => hm (Owner.freeList.inj hEq).symm
      exact hChain'.update ha' _
  refine hOwned.goes (a := a) (o := .handle st.handles.length) ?_ ?_ ?_ ?_ ?_ ?_ ?_
  · intro o b
    cases o with
    | freeList m =>
      obtain ⟨ys, hChain', -⟩ := hOwned.lists m
      rw [owns_freeList_iff (hChains m ys hChain'), owns_freeList_iff hChain']
      by_cases hm : m = l
      · subst hm
        obtain rfl := hChain'.unique hChain
        have := hChain.head_notMem
        grind
      · have := hOwned.notMem hOwns hChain' fun hEq => hm (Owner.freeList.inj hEq).symm
        grind
    | handle k =>
      refine owns_handle_update hPnode st.pnode_length (fun k hk => ?_) k b
      cases hOwned.owner_eq hOwns (show st.Owns (.handle k) a from hk)
  · intro m
    obtain ⟨ys, hChain', -⟩ := hOwned.lists m
    exact ⟨_, hChains m ys hChain'⟩
  · rwa [hLength]
  · exact fun b _ => by rw [hLength]
  · exact fun b hb => (congrFun hNext b).trans (Function.update_of_ne hb ..)
  · exact fun _ _ => (congrFun hNext a).trans (Function.update_self ..)
  · rw [hFirsts]
    exact hOwned.hosts_addHandle hl hHandle

theorem Owned.pop (hOwned : st.Owned) (hl : l < st.firsts.length) :
    ((st.pop l).1.addHandle (st.pop l).2).Owned := by
  unfold StringLists.pop unlink
  cases hFirst : st.first l with
  | none => exact hOwned.popNew hl
  | some a => exact hOwned.popFirst hl hFirst

/-! ### Steps and runs -/

theorem Owned.moveAssign (hOwned : st.Owned) (hi : st.handle i = some self)
    (hj : st.handle j = some other) (hne : i ≠ j) : ∃ st₁, st.release self = some st₁ ∧
      ((st₁.setHandle j (some { other with pnode := none })).setHandle i (some other)).Owned := by
  obtain ⟨st₁, hRelease, hHandles, hReleased⟩ := hOwned.release hi
    (v := some { self with pnode := none }) fun h hh => by obtain rfl := Option.some.inj hh; rfl
  refine ⟨st₁, hRelease, ?_⟩
  have hHandle : st₁.handle = st.handle := by
    unfold handle
    rw [hHandles]
  have hi₁ : st₁.handle i = some self := by rw [hHandle, hi]
  have hj₁ : st₁.handle j = some other := by rw [hHandle, hj]
  have hEmptied := handle_setHandle hi₁ (some { self with pnode := none })
  have hj₂ : (st₁.setHandle i (some { self with pnode := none })).handle j = some other := by
    rw [hEmptied, Function.update_of_ne hne.symm, hj₁]
  have hLeft := handle_setHandle hj₁ (some { other with pnode := none })
  have hi₃ : (st₁.setHandle j (some { other with pnode := none })).handle i = some self := by
    rw [hLeft, Function.update_of_ne hne, hi₁]
  refine hReleased.move rfl rfl hj₂ ?_ hne ?_
  · rw [pnode, hEmptied, Function.update_self]
    rfl
  · rw [handle_setHandle hi₃, hLeft, handle_setHandle hj₂, hEmptied, Function.update_comm hne,
      Function.update_idem]

/-- A handle that is assigned to itself without a node stays as it is. -/
theorem Owned.selfAssign (hOwned : st.Owned) (hi : st.handle i = some self)
    (hNone : st.pnode i = none) : st.release self = some st ∧
      ((st.setHandle i (some { self with pnode := none })).setHandle i (some self)).Owned := by
  have hSelf : self.pnode = none := (pnode_of_handle hi).symm.trans hNone
  have hOnce := handle_setHandle hi (some { self with pnode := none })
  have hHandle : ((st.setHandle i (some { self with pnode := none })).setHandle i
      (some self)).handle = st.handle := by
    have hAgain : (st.setHandle i (some { self with pnode := none })).handle i =
        some { self with pnode := none } := by rw [hOnce, Function.update_self]
    rw [handle_setHandle hAgain, hOnce, Function.update_idem, ← hi, Function.update_eq_self]
  refine ⟨by rw [StringLists.release, hSelf], hOwned.sameNodes rfl rfl ?_ ?_⟩
  · unfold pnode
    rw [hHandle]
  · rw [hHandle]
    exact hOwned.hosts

/-- The step lemma: the assertion holds, and every node keeps its one owner. -/
theorem Owned.step (hOwned : st.Owned) (hMove : st.NoSelfMove op) :
    ∃ st', st.step op = some st' ∧ st'.Owned := by
  cases op with
  | pop l =>
    simp only [StringLists.step]
    split
    · rename_i hl
      exact ⟨_, rfl, hOwned.pop hl⟩
    · exact ⟨st, rfl, hOwned⟩
  | empty =>
    have hHandle := handle_addHandle st {}
    refine ⟨_, rfl, hOwned.sameNodes rfl rfl ?_ ?_⟩
    · rw [pnode_eq_update hHandle]
      exact (congrArg _ st.pnode_length.symm).trans (Function.update_eq_self _ _)
    · refine hosts_update hOwned.hosts hHandle fun h hh hSome => ?_
      obtain rfl := Option.some.inj hh
      exact absurd rfl hSome
  | moveConstruct j =>
    simp only [StringLists.step]
    cases hj : st.handle j with
    | none => exact ⟨st, rfl, hOwned⟩
    | some other =>
      refine ⟨_, rfl, hOwned.move rfl rfl hj st.pnode_length ?_ ?_⟩
      · exact (lt_of_slot hj).ne'
      · rw [handle_addHandle]
        rw [show (st.setHandle j _).handles.length = st.handles.length from List.length_set]
  | moveAssign i j =>
    simp only [StringLists.step]
    cases hi : st.handle i with
    | none => exact ⟨st, rfl, hOwned⟩
    | some self =>
      cases hj : st.handle j with
      | none => exact ⟨st, rfl, hOwned⟩
      | some other =>
        by_cases hij : i = j
        · subst hij
          obtain rfl := Option.some.inj (hi.symm.trans hj)
          obtain ⟨hRelease, hStays⟩ := hOwned.selfAssign hi (hMove rfl)
          exact ⟨_, by simp only [hRelease]; rfl, hStays⟩
        · obtain ⟨st₁, hRelease, hMoved⟩ := hOwned.moveAssign hi hj hij
          exact ⟨_, by simp only [hRelease]; rfl, hMoved⟩
  | destroy i =>
    simp only [StringLists.step]
    cases hi : st.handle i with
    | none => exact ⟨st, rfl, hOwned⟩
    | some self =>
      obtain ⟨st₁, hRelease, -, hReleased⟩ := hOwned.release hi (v := none) nofun
      exact ⟨_, by simp only [hRelease]; rfl, hReleased⟩

/-- A handle that is assigned to itself gives its node back and keeps it. -/
theorem Owned.selfMove (hOwned : st.Owned) (hMove : ¬st.NoSelfMove op)
    (hStep : st.step op = some st') : ¬st'.SingleOwner := by
  cases op with
  | moveAssign i j =>
    simp only [NoSelfMove, Classical.not_imp] at hMove
    obtain ⟨rfl, hSome⟩ := hMove
    obtain ⟨a, hNode⟩ := Option.ne_none_iff_exists'.mp hSome
    obtain ⟨self, hi, hSelf⟩ := Option.bind_eq_some_iff.mp hNode
    obtain ⟨l, hHost, hl⟩ := hOwned.hosts i self hi (by rw [hSelf]; nofun)
    have ha := hOwned.made (.handle i) a hNode
    have hRelease : st.release self = some (st.linked l a) := by
      rw [StringLists.release, hSelf, hHost]
      exact if_pos (hOwned.detached i a hNode)
    simp only [StringLists.step, hi, hRelease] at hStep
    obtain rfl := Option.some.inj hStep
    intro hOwner
    have hi₁ : (st.linked l a).handle i = some self := hi
    have hOnce := handle_setHandle hi₁ (some { self with pnode := none })
    have hAgain : ((st.linked l a).setHandle i (some { self with pnode := none })).handle i =
        some { self with pnode := none } := by rw [hOnce, Function.update_self]
    have hKept : (((st.linked l a).setHandle i (some { self with pnode := none })).setHandle i
        (some self)).Owns (.handle i) a := by
      rw [Owns, pnode, handle_setHandle hAgain, Function.update_self, Option.bind_some, hSelf]
    have hPnode : ((st.linked l a).setHandle i none).pnode = Function.update st.pnode i none :=
      pnode_eq_update (handle_setHandle hi₁ none)
    have hLinked : ((st.linked l a).setHandle i none).Owns (.freeList l) a := by
      have hFirst : ((st.linked l a).setHandle i none).first =
          Function.update st.first l (some a) := slot_set hl _
      have hNext : ((st.linked l a).setHandle i none).next =
          Function.update st.next a (st.first l) := next_setNext ha _
      have hGoes := (hOwned.toSingleOwner.link hNode hNext hFirst hPnode).1
      exact (hGoes _ a).mpr (by rw [if_pos rfl])
    cases hOwner.owner_eq hKept (show Owns _ (.freeList l) a from hLinked)
  | _ => exact absurd trivial hMove

/-- In every run the assertion holds and every node has one owner exactly when no handle that has a
node is assigned to itself. -/
theorem singleOwner_run_iff (n : ℕ) (ops : List HandleOp) :
    Safe step (fun _ _ st => st.SingleOwner) (start n) ops ↔
      Along step NoSelfMove (start n) ops := by
  refine safe_iff_along (I := Owned) (A := fun _ _ => True) ?_ ?_ (owned_start n) ?_
  · intro st op hOwned _
    constructor
    · intro hMove
      obtain ⟨st', hStep, hOwned'⟩ := hOwned.step hMove
      exact ⟨st', hStep, hOwned'.toSingleOwner⟩
    · rintro ⟨st', hStep, hOwner⟩
      by_contra hMove
      exact hOwned.selfMove hMove hStep hOwner
  · intro st op st' hOwned _ hMove hStep
    obtain ⟨st'', hStep', hOwned'⟩ := hOwned.step hMove
    obtain rfl := Option.some.inj (hStep'.symm.trans hStep)
    exact hOwned'
  · exact along_of_forall (fun _ _ => trivial) _

/-- A handle is assigned to itself. -/
theorem selfMove_owned_twice : ¬Safe step (fun _ _ st => st.SingleOwner) (start 1)
    [.pop 0, .moveAssign 0 0] := by
  intro h
  obtain ⟨st, hPop, hOwner, st', hMove, hOwner', -⟩ := h
  obtain rfl := Option.some.inj hPop
  obtain rfl := Option.some.inj hMove
  cases hOwner'.owner_eq (show Owns _ (.handle 0) 0 from rfl)
    (show Owns _ (.freeList 0) 0 from ⟨[0], ⟨rfl, rfl⟩, List.mem_singleton_self 0⟩)

end StringLists

end Arby.Util
