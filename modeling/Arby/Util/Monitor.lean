import Arby.Kit.Handles
import Arby.Kit.Run
import Mathlib.Data.Finset.Sort
import Mathlib.Data.Prod.Lex
import Mathlib.Data.String.Basic

/-! The monitor of what runs. A coroutine keeps a sentinel on its instance in the set, which it may
hand on, and the last one to have it takes the instance out. -/

namespace Arby.Util

open Kit

structure Instance where
  name : String
  version : ℕ
  creationTime : ℤ
deriving DecidableEq, Repr

/-- What `operator<` ties. -/
def Instance.tie (x : Instance) : String ×ₗ ℕ ×ₗ ℤ := toLex (x.name, toLex (x.version, x.creationTime))

theorem Instance.tie_injective : Function.Injective Instance.tie := by
  rintro ⟨name, version, time⟩ ⟨name', version', time'⟩ h
  have h := toLex.injective h
  obtain ⟨rfl, h⟩ := Prod.mk.inj h
  obtain ⟨rfl, rfl⟩ := Prod.mk.inj (toLex.injective h)
  rfl

instance : LinearOrder Instance := LinearOrder.lift' Instance.tie Instance.tie_injective

/-- The iterator is the element that it refers to. -/
structure Sentinel where
  iter : Instance
  valid : Bool
deriving DecidableEq, Repr

def Sentinel.owned (s : Sentinel) : List Instance := if s.valid then [s.iter] else []

/-- The static members, and the sentinels that were made. A name that `next_index_` has no entry for
has index 0. -/
structure Monitor where
  nextIndex : String → ℕ := fun _ => 0
  instances : Finset Instance := ∅
  sentinels : List (Option Sentinel) := []

inductive MonitorOp
  | record (name : String) (now : ℤ)
  | move (j : ℕ)
  | destroy (i : ℕ)
deriving DecidableEq, Repr

namespace Monitor

/-- `none` is an iterator that refers to nothing. -/
def erase (m : Monitor) (iter : Instance) : Option Monitor :=
  if iter ∈ m.instances then some { m with instances := m.instances.erase iter } else none

/-- One operation, `none` when it is undefined or names a sentinel that there is not. An element that
is in the set already is not inserted, and the sentinel is on that one. -/
def step (m : Monitor) : MonitorOp → Option Monitor
  | .record name now =>
    let iter : Instance := ⟨name, m.nextIndex name, now⟩
    some {
      nextIndex := Function.update m.nextIndex name ((m.nextIndex name + 1) % 2 ^ 64)
      instances := insert iter m.instances
      sentinels := m.sentinels ++ [some ⟨iter, true⟩] }
  | .move j => do
    let other ← slot m.sentinels j
    return { m with sentinels := m.sentinels.set j (some { other with valid := false }) ++ [some other] }
  | .destroy i => do
    let s ← slot m.sentinels i
    let m ← if s.valid then m.erase s.iter else some m
    return { m with sentinels := m.sentinels.set i none }

/-- The operation names a sentinel that there is. -/
def Names (m : Monitor) : MonitorOp → Prop
  | .record _ _ => True
  | .move j => (slot m.sentinels j).isSome
  | .destroy i => (slot m.sentinels i).isSome

instance (m : Monitor) (op : MonitorOp) : Decidable (m.Names op) :=
  match op with
  | .record .. | .move _ | .destroy _ => by
    dsimp only [Names]
    infer_instance

/-- What `mon` lists. -/
def mon (m : Monitor) : List Instance := m.instances.sort (· ≤ ·)

end Monitor

def MonitorOp.records (name : String) : MonitorOp → Bool
  | .record name' _ => name' = name
  | _ => false

/-- What the first of the operations recorded, and then `op`: the version is the number of those that
had the name before. -/
def recordedNext (recorded : List Instance) : MonitorOp → List Instance
  | .record name now => recorded ++ [⟨name, recorded.countP (·.name = name), now⟩]
  | _ => recorded

def recorded (ops : List MonitorOp) : List Instance := ops.foldl recordedNext []

namespace Monitor

variable {m m' : Monitor} {op : MonitorOp} {past : List Instance} {name : String} {now : ℤ}

/-- The set has what a sentinel is on, and nothing else. The sentinels that are gone took out the rest
of what was recorded. -/
structure Accounts (past : List Instance) (m : Monitor) : Prop where
  once : m.instances.val = (held Sentinel.owned m.sentinels : Multiset Instance)
  gone : ∃ gone, (held Sentinel.owned m.sentinels ++ gone).Perm past
  /-- Of those with one name the oldest come first. -/
  listed : ∀ name, (m.mon.filter (·.name = name)).Sublist past

/-- The invariant. -/
structure Versioned (past : List Instance) (m : Monitor) : Prop where
  once : m.instances.val = (held Sentinel.owned m.sentinels : Multiset Instance)
  gone : ∃ gone, (held Sentinel.owned m.sentinels ++ gone).Perm past
  next : ∀ name, m.nextIndex name = past.countP (·.name = name) % 2 ^ 64
  versions : ∀ x ∈ past, x.version < past.countP (·.name = x.name)
  ordered : past.Pairwise fun x y => x.name = y.name → x.version < y.version

theorem Versioned.subset (h : m.Versioned past) {x : Instance} (hx : x ∈ m.instances) : x ∈ past := by
  obtain ⟨gone, hPerm⟩ := h.gone
  have hHeld : x ∈ held Sentinel.owned m.sentinels := by
    rw [← Finset.mem_val, h.once] at hx
    exact hx
  exact hPerm.subset (List.mem_append_left gone hHeld)

/-- As long as the versions have not come round, the next version of the name is new. -/
theorem Versioned.record (h : m.Versioned past) (hFew : past.countP (·.name = name) < 2 ^ 64) :
    ∃ m', m.step (.record name now) = some m' ∧
      m'.Versioned (recordedNext past (.record name now)) := by
  have hVersion : m.nextIndex name = past.countP (·.name = name) :=
    (h.next name).trans (Nat.mod_eq_of_lt hFew)
  have hNew : (⟨name, m.nextIndex name, now⟩ : Instance) ∉ m.instances := by
    intro hMem
    have hLt := h.versions _ (h.subset hMem)
    rw [hVersion] at hLt
    exact lt_irrefl _ hLt
  refine ⟨_, rfl, ?_, ?_, fun name' => ?_, fun x hx => ?_, ?_⟩
  · simp only [Finset.insert_val_of_notMem hNew, h.once, held_concat, Multiset.cons_coe]
    exact Multiset.coe_eq_coe.mpr (List.perm_append_singleton _ _).symm
  · obtain ⟨gone, hPerm⟩ := h.gone
    refine ⟨gone, ?_⟩
    simp only [held_concat, recordedNext, hVersion]
    refine List.Perm.trans ?_ (hPerm.append_right _)
    rw [List.append_assoc, List.append_assoc]
    exact List.perm_append_comm.append_left _
  · simp only [recordedNext, List.countP_append, List.countP_singleton]
    by_cases hName : name' = name
    · subst hName
      simp [h.next]
    · rw [Function.update_of_ne hName, h.next]
      simp [Ne.symm hName]
  · simp only [recordedNext, List.countP_append, List.countP_singleton]
    rcases List.mem_append.mp hx with hx | hx
    · exact Nat.lt_of_lt_of_le (h.versions x hx) (Nat.le_add_right ..)
    · obtain rfl := List.mem_singleton.mp hx
      simp
  · refine List.pairwise_append.mpr ⟨h.ordered, List.pairwise_singleton .., fun x hx y hy hName => ?_⟩
    obtain rfl := List.mem_singleton.mp hy
    have hLt := h.versions x hx
    rw [hName] at hLt
    exact hLt

/-- What the sentinels are on together stays as it is, and so does the rest. -/
theorem Versioned.move (h : m.Versioned past) {j : ℕ} (hName : m.Names (.move j)) :
    ∃ m', m.step (.move j) = some m' ∧ m'.Versioned past := by
  obtain ⟨other, hOther⟩ := Option.isSome_iff_exists.mp hName
  have hHeld := held_moved hOther (show Sentinel.owned { other with valid := false } = [] from rfl)
  refine ⟨{ m with
    sentinels := m.sentinels.set j (some { other with valid := false }) ++ [some other] },
    by simp [step, hOther], ?_, ?_, h.next, h.versions, h.ordered⟩
  · exact h.once.trans (Multiset.coe_eq_coe.mpr hHeld.symm)
  · obtain ⟨gone, hPerm⟩ := h.gone
    exact ⟨gone, (hHeld.append_right gone).trans hPerm⟩

theorem Versioned.destroy (h : m.Versioned past) {i : ℕ} (hName : m.Names (.destroy i)) :
    ∃ m', m.step (.destroy i) = some m' ∧ m'.Versioned past := by
  obtain ⟨s, hAt⟩ := Option.isSome_iff_exists.mp hName
  have hHeld : (held Sentinel.owned (m.sentinels.set i none) ++ s.owned).Perm
      (held Sentinel.owned m.sentinels) := by
    simpa using held_set Sentinel.owned hAt none
  obtain ⟨gone, hPerm⟩ := h.gone
  have hGone : (held Sentinel.owned (m.sentinels.set i none) ++ (s.owned ++ gone)).Perm past := by
    rw [← List.append_assoc]
    exact (hHeld.append_right gone).trans hPerm
  cases hValid : s.valid with
  | false =>
    have hNothing : s.owned = [] := by simp [Sentinel.owned, hValid]
    rw [hNothing, List.append_nil] at hHeld
    refine ⟨{ m with sentinels := m.sentinels.set i none }, by simp [step, hAt, hValid], ?_, ⟨_, hGone⟩,
      h.next, h.versions, h.ordered⟩
    exact h.once.trans (Multiset.coe_eq_coe.mpr hHeld.symm)
  | true =>
    have hOwned : s.owned = [s.iter] := by simp [Sentinel.owned, hValid]
    rw [hOwned] at hHeld
    have hMem : s.iter ∈ m.instances := by
      rw [← Finset.mem_val, h.once]
      exact hHeld.subset (by simp)
    refine ⟨{ m with
      instances := m.instances.erase s.iter
      sentinels := m.sentinels.set i none }, by simp [step, hAt, hValid, Monitor.erase, hMem], ?_,
      ⟨_, hGone⟩, h.next, h.versions, h.ordered⟩
    rw [Finset.erase_val, h.once]
    refine Multiset.coe_eq_coe.mpr ?_
    have hErase := (hHeld.symm.trans (List.perm_append_singleton ..)).erase s.iter
    rwa [List.erase_cons_head] at hErase

theorem le_iff {x y : Instance} : x ≤ y ↔ x.tie ≤ y.tie := Iff.rfl

/-- Of one name, both the list that `mon` makes and what was recorded go by versions. -/
theorem Versioned.listed (h : m.Versioned past) (name : String) :
    (m.mon.filter (·.name = name)).Sublist past := by
  have hSub : m.mon.filter (·.name = name) ⊆ past.filter (·.name = name) := by
    intro x hx
    obtain ⟨hMem, hName⟩ := List.mem_filter.mp hx
    exact List.mem_filter.mpr ⟨h.subset ((Finset.mem_sort _).mp hMem), hName⟩
  have hSorted : (past.filter (·.name = name)).Pairwise (· ≤ ·) := by
    refine List.pairwise_filter.mpr (h.ordered.imp fun {x y} hVersion hx hy => ?_)
    have hName : x.name = y.name := (of_decide_eq_true hx).trans (of_decide_eq_true hy).symm
    rw [le_iff, Instance.tie, Instance.tie, hName, Prod.Lex.toLex_le_toLex]
    exact .inr ⟨rfl, Prod.Lex.toLex_le_toLex.mpr (.inl (hVersion hName))⟩
  have hList : (m.mon.filter (·.name = name)).Pairwise (· ≤ ·) :=
    (Finset.pairwise_sort m.instances (· ≤ ·)).filter _
  have hNodup : (m.mon.filter (·.name = name)).Nodup := (Finset.sort_nodup _ _).filter _
  exact (List.sublist_of_subperm_of_pairwise (List.subperm_of_subset hNodup hSub) hList hSorted).trans
    List.filter_sublist

theorem Versioned.accounts (h : m.Versioned past) : m.Accounts past := ⟨h.once, h.gone, h.listed⟩

theorem versioned_start : Versioned [] {} :=
  ⟨rfl, ⟨[], .nil⟩, fun _ => rfl, nofun, .nil⟩

theorem countP_recordedNext (past : List Instance) (op : MonitorOp) (name : String) :
    (recordedNext past op).countP (·.name = name) =
      past.countP (·.name = name) + [op].countP (MonitorOp.records name) := by
  cases op with
  | record name' now =>
    simp [recordedNext, MonitorOp.records, List.countP_append, List.countP_singleton]
  | move | destroy => simp [recordedNext, MonitorOp.records]

/-- The step lemma. -/
theorem Versioned.step (h : m.Versioned past) (hName : m.Names op)
    (hFew : ∀ name, (recordedNext past op).countP (·.name = name) ≤ 2 ^ 64) :
    ∃ m', m.step op = some m' ∧ m'.Versioned (recordedNext past op) := by
  cases op with
  | record name now =>
    apply h.record
    have hNext := hFew name
    rw [countP_recordedNext] at hNext
    simp only [List.countP_singleton, MonitorOp.records, decide_true, if_true] at hNext
    omega
  | move j => exact h.move hName
  | destroy i => exact h.destroy hName

/-- The run lemma. -/
theorem Versioned.of_run {ops : List MonitorOp} (h : m.Versioned past)
    (hNames : Along Monitor.step Names m ops)
    (hFew : ∀ name, past.countP (·.name = name) + ops.countP (MonitorOp.records name) ≤ 2 ^ 64) :
    ∃ m', run Monitor.step m ops = some m' ∧ m'.Versioned (ops.foldl recordedNext past) := by
  induction ops generalizing m past with
  | nil => exact ⟨m, rfl, h⟩
  | cons op ops ih =>
    have hSplit : ∀ name, (recordedNext past op).countP (·.name = name) +
        ops.countP (MonitorOp.records name) ≤ 2 ^ 64 := by
      intro name
      have hAll := hFew name
      rw [← List.singleton_append, List.countP_append] at hAll
      rw [countP_recordedNext]
      omega
    obtain ⟨m', hStep, h'⟩ := h.step hNames.1 fun name => le_of_add_le_left (hSplit name)
    obtain ⟨m'', hRun, h''⟩ := ih h' (hNames.2 m' hStep) hSplit
    exact ⟨m'', by rw [run_cons, hStep]; exact hRun, h''⟩

/-- In every run in which no name is recorded more than 2^64 times: no operation is undefined, the
set has each instance that a valid sentinel is on, once, and those of one name in the order in which
they were recorded; so it is empty once no sentinel is left. -/
theorem accounts_run (ops : List MonitorOp) (hNames : Along Monitor.step Names {} ops)
    (hFew : ∀ name, ops.countP (MonitorOp.records name) ≤ 2 ^ 64) :
    ∃ m, run Monitor.step {} ops = some m ∧ m.Accounts (recorded ops) ∧
      ((∀ i, slot m.sentinels i = none) → m.instances = ∅) := by
  obtain ⟨m, hRun, h⟩ := versioned_start.of_run hNames (by simpa using hFew)
  refine ⟨m, hRun, h.accounts, fun hNone => ?_⟩
  rw [← Finset.val_eq_zero, h.once, Multiset.coe_eq_zero]
  refine List.eq_nil_iff_forall_not_mem.mpr fun x hx => ?_
  obtain ⟨i, s, hAt, -⟩ := mem_held.mp hx
  cases (hNone i).symm.trans hAt

/-- A coroutine hands its sentinel on and ends, another of its name still runs. -/
def twoSends : List MonitorOp :=
  [.record "send_loop" 5, .record "run" 6, .record "send_loop" 6, .move 0, .destroy 0, .destroy 1,
    .destroy 3]

theorem twoSends_accounts : ∃ m, run Monitor.step {} twoSends = some m ∧
    m.Accounts (recorded twoSends) ∧ ((∀ i, slot m.sentinels i = none) → m.instances = ∅) := by
  refine accounts_run twoSends (by decide +kernel) fun name => ?_
  exact (List.countP_le_length ..).trans (by decide +kernel)

example : (run Monitor.step {} twoSends).map mon = some [⟨"send_loop", 1, 6⟩] := by decide +kernel

end Monitor

end Arby.Util
