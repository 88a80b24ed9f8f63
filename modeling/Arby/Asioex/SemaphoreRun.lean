import Arby.Asioex.AsyncSemaphore
import Arby.Kit.Run

/-! The runs of a semaphore: acquires of both kinds, releases and cancellations come in any order.
The ring holds the waiting acquires in the order in which they came, and permits are conserved as
long as no acquire is initiated while one is free. -/

namespace Arby.Asioex

open Kit

namespace AsyncSemaphore

variable {sem sem' : AsyncSemaphore} {id : ℕ} {slot : Option ℕ} {ec : ErrorCode}
  {before after : List ℕ}

/-- The ring, the wait operations and the cancellation slots are those of the waiting acquires, and
every other acquire was completed once. -/
structure Linked (sem : AsyncSemaphore) : Prop where
  ring : sem.heap.Ring .waiters (sem.waiting.map .op)
  ops : ∀ id, (sem.ops id).isSome ↔ id ∈ sem.waiting
  slots : ∀ slot id, sem.slots slot = some id →
    ∃ op, sem.ops id = some op ∧ op.slot = some slot
  once : (sem.posted.map Completion.id).Nodup
  issued : ∀ c ∈ sem.posted, c.id < sem.issued
  outcome : ∀ c ∈ sem.posted, c.ec = 0 ∨ c.ec = operationAborted

theorem mem_waiting : id ∈ sem.waiting ↔ id < sem.issued ∧ id ∉ sem.posted.map Completion.id := by
  simp [waiting]

theorem waiting_nodup (sem : AsyncSemaphore) : sem.waiting.Nodup := List.nodup_range.filter _

theorem waiting_posted (hPosted : sem'.posted = sem.posted ++ [⟨id, ec⟩])
    (hIssued : sem'.issued = sem.issued) (hWaiting : sem.waiting = before ++ id :: after) :
    sem'.waiting = before ++ after := by
  have hFilter : sem'.waiting = sem.waiting.filter (· ≠ id) := by
    simp only [waiting, hPosted, hIssued, List.filter_filter, List.map_append, List.map_singleton,
      List.mem_append, List.mem_singleton, not_or, Bool.decide_and, Bool.and_comm]
  have hNodup := hWaiting ▸ sem.waiting_nodup
  rw [List.nodup_append] at hNodup
  obtain ⟨-, hAfter, hBefore⟩ := hNodup
  rw [hFilter, hWaiting, List.filter_append, List.filter_cons_of_neg (by simp),
    List.filter_eq_self.mpr, List.filter_eq_self.mpr]
  · intro x hx
    exact decide_eq_true (ne_of_mem_of_not_mem hx (List.nodup_cons.mp hAfter).1)
  · intro x hx
    exact decide_eq_true (hBefore x hx id List.mem_cons_self)

theorem Linked.not_posted_issued (h : sem.Linked) : sem.issued ∉ sem.posted.map Completion.id := by
  intro hMem
  obtain ⟨c, hc, hId⟩ := List.mem_map.mp hMem
  exact (h.issued c hc).ne hId

/-- An acquire that is initiated and not completed comes last. -/
theorem Linked.waiting_initiated (h : sem.Linked) (hPosted : sem'.posted = sem.posted)
    (hIssued : sem'.issued = sem.issued + 1) : sem'.waiting = sem.waiting ++ [sem.issued] := by
  simp only [waiting, hPosted, hIssued, List.range_succ, List.filter_append]
  rw [List.filter_cons_of_pos (by simpa using h.not_posted_issued), List.filter_nil]

/-- An acquire that is completed at once never waits. -/
theorem Linked.waiting_immediate (h : sem.Linked)
    (hPosted : sem'.posted = sem.posted ++ [⟨sem.issued, ec⟩])
    (hIssued : sem'.issued = sem.issued + 1) : sem'.waiting = sem.waiting := by
  have hInitiated : waiting { sem with issued := sem.issued + 1 } = sem.waiting ++ [sem.issued] :=
    h.waiting_initiated rfl rfl
  have hWaiting : sem'.waiting = sem.waiting ++ [] :=
    @waiting_posted { sem with issued := sem.issued + 1 } _ _ _ _ _ hPosted hIssued hInitiated
  rwa [List.append_nil] at hWaiting

theorem Linked.complete (h : sem.Linked) (hWaiting : sem.waiting = before ++ id :: after)
    (hEc : ec = 0 ∨ ec = operationAborted) : ∃ sem', sem.complete id ec = some sem' ∧
      sem'.Linked ∧ sem'.count = sem.count ∧ sem'.issued = sem.issued ∧
      sem'.posted = sem.posted ++ [⟨id, ec⟩] := by
  have hMem : id ∈ sem.waiting := by simp [hWaiting]
  obtain ⟨op, hOp⟩ := Option.isSome_iff_exists.mp ((h.ops id).mpr hMem)
  have hRing := h.ring
  rw [hWaiting, List.map_append, List.map_cons] at hRing
  obtain ⟨heap, hUnlink, hRing', -⟩ := hRing.unlink
  let sem' : AsyncSemaphore := { sem with
    slots := op.slot.elim sem.slots (Function.update sem.slots · none)
    heap := heap.destroy (.op id)
    ops := Function.update sem.ops id none
    posted := sem.posted ++ [⟨id, ec⟩] }
  have hWaiting' : sem'.waiting = before ++ after := waiting_posted rfl rfl hWaiting
  have hMem' : ∀ other, other ∈ sem'.waiting ↔ other ∈ sem.waiting ∧ other ≠ id := by
    intro other
    simp only [mem_waiting, sem', List.map_append, List.map_singleton, List.mem_append,
      List.mem_singleton, not_or, and_assoc]
  refine ⟨sem', ?_, ?_, rfl, rfl, rfl⟩
  · simp only [AsyncSemaphore.complete, hOp, hUnlink, Option.bind_eq_bind, Option.bind_some,
      Option.pure_def, sem']
  · refine ⟨?_, fun other => ?_, fun slot other hSlot => ?_, ?_, fun c hc => ?_, fun c hc => ?_⟩
    · rw [hWaiting', List.map_append]
      refine hRing'.update ?_ none
      rw [← List.map_append, ← hWaiting', List.mem_cons,
        List.mem_map_of_injective WaiterAddr.op_injective, hMem']
      simp
    · rw [hMem', ← h.ops other]
      by_cases hOther : other = id <;> simp [sem', hOther]
    · -- A slot that still points to an operation is not that of `id`, which was cleared.
      have hKept : sem.slots slot = some other ∧ op.slot ≠ some slot := by
        cases hOpSlot : op.slot with
        | none => simpa [sem', hOpSlot] using hSlot
        | some s =>
          by_cases hs : slot = s
          · simp [sem', hOpSlot, hs] at hSlot
          · exact ⟨by simpa [sem', hOpSlot, hs] using hSlot, by simpa using Ne.symm hs⟩
      obtain ⟨op', hOp', hSlot'⟩ := h.slots slot other hKept.1
      have hne : other ≠ id := by
        rintro rfl
        obtain rfl := Option.some.inj (hOp.symm.trans hOp')
        exact hKept.2 hSlot'
      exact ⟨op', by rw [← hOp']; exact Function.update_of_ne hne .., hSlot'⟩
    · have := mem_waiting.mp hMem
      simpa [sem', List.nodup_append, h.once] using fun c hc hId => this.2 (List.mem_map.mpr ⟨c, hc, hId⟩)
    · rcases List.mem_append.mp hc with hc | hc
      · exact h.issued c hc
      · rw [List.mem_singleton.mp hc]
        exact (mem_waiting.mp hMem).1
    · rcases List.mem_append.mp hc with hc | hc
      · exact h.outcome c hc
      · rw [List.mem_singleton.mp hc]
        exact hEc

/-- Without a permit the acquire is queued behind those that wait. -/
theorem Linked.asyncAcquire_queued (h : sem.Linked) (hCount : sem.count = 0) (slot : Option ℕ) :
    ∃ sem', sem.asyncAcquire slot = some sem' ∧ sem'.Linked ∧ sem'.count = 0 ∧
      sem'.posted = sem.posted ∧ sem'.waiting = sem.waiting ++ [sem.issued] := by
  have hNew : sem.issued ∉ sem.waiting := fun hMem => (mem_waiting.mp hMem).1.ne rfl
  have hOut : WaiterAddr.op sem.issued ∉ .waiters :: sem.waiting.map .op := by
    rw [List.mem_cons, List.mem_map_of_injective WaiterAddr.op_injective]
    simp [hNew]
  have hRing : (sem.heap.construct (.op sem.issued)).Ring .waiters (sem.waiting.map .op) :=
    h.ring.update hOut _
  obtain ⟨heap, hLink, hRing', -⟩ := hRing.linkBefore hOut (by simp [BilistHeap.construct])
  let sem' : AsyncSemaphore := { sem with
    issued := sem.issued + 1
    heap
    ops := Function.update sem.ops sem.issued (some { slot })
    slots := slot.elim sem.slots (Function.update sem.slots · (some sem.issued)) }
  have hWaiting : sem'.waiting = sem.waiting ++ [sem.issued] := h.waiting_initiated rfl rfl
  refine ⟨sem', ?_, ?_, hCount, rfl, hWaiting⟩
  · simp only [asyncAcquire, hCount, ne_eq, not_true_eq_false, if_false, constructWaitOp, addWaiter,
      hLink, Option.bind_eq_bind, Option.bind_some, Option.pure_def, sem']
  · refine ⟨?_, fun other => ?_, fun s other hSlot => ?_, h.once, fun c hc => ?_, h.outcome⟩
    · rw [hWaiting, List.map_append]
      exact hRing'
    · rw [hWaiting, List.mem_append, List.mem_singleton, ← h.ops other]
      by_cases hOther : other = sem.issued <;> simp [sem', hOther]
    · -- The slot of the new acquire points to it, and no other slot has changed.
      by_cases hs : slot = some s
      · have : other = sem.issued := by simpa [sem', hs, eq_comm] using hSlot
        exact ⟨{ slot }, by simp [sem', this], hs⟩
      · have hKept : sem.slots s = some other := by
          cases slot with
          | none => exact hSlot
          | some s' =>
            have hne : s ≠ s' := fun hEq => hs (congrArg some hEq.symm)
            simpa [sem', Function.update_of_ne hne] using hSlot
        obtain ⟨op, hOp, hOpSlot⟩ := h.slots s other hKept
        have hne : other ≠ sem.issued := by
          rintro rfl
          exact hNew ((h.ops _).mp (by rw [hOp]; rfl))
        exact ⟨op, by rw [← hOp]; exact Function.update_of_ne hne .., hOpSlot⟩
    · exact (h.issued c hc).trans (Nat.lt_succ_self _)

/-- With a permit the acquire is completed at once, and the permit stays. -/
theorem Linked.asyncAcquire_immediate (h : sem.Linked) (hCount : sem.count ≠ 0)
    (slot : Option ℕ) : ∃ sem', sem.asyncAcquire slot = some sem' ∧ sem'.Linked ∧
      sem'.count = sem.count ∧ sem'.posted = sem.posted ++ [⟨sem.issued, 0⟩] ∧
      sem'.waiting = sem.waiting := by
  let sem' : AsyncSemaphore := { sem with
    issued := sem.issued + 1
    posted := sem.posted ++ [⟨sem.issued, 0⟩] }
  have hWaiting : sem'.waiting = sem.waiting := h.waiting_immediate rfl rfl
  refine ⟨sem', if_pos hCount, ?_, rfl, rfl, hWaiting⟩
  refine ⟨hWaiting ▸ h.ring, hWaiting ▸ h.ops, h.slots, ?_, fun c hc => ?_, fun c hc => ?_⟩
  · simpa [sem', List.nodup_append, h.once] using
      fun c hc hId => h.not_posted_issued (List.mem_map.mpr ⟨c, hc, hId⟩)
  · rcases List.mem_append.mp hc with hc | hc
    · exact (h.issued c hc).trans (Nat.lt_succ_self _)
    · rw [List.mem_singleton.mp hc]
      exact Nat.lt_succ_self _
  · rcases List.mem_append.mp hc with hc | hc
    · exact h.outcome c hc
    · rw [List.mem_singleton.mp hc]
      exact .inl rfl

theorem Linked.withCount (h : sem.Linked) (count : ℤ) : Linked { sem with count } :=
  ⟨h.ring, h.ops, h.slots, h.once, h.issued, h.outcome⟩

/-- A release completes the acquire that has waited longest, or gives the permit back. -/
theorem Linked.release (h : sem.Linked) (hCount : 0 ≤ sem.count) (hMax : sem.count < intMax) :
    ∃ sem', sem.release = some sem' ∧ sem'.Linked ∧
      (sem.waiting = [] ∧ sem'.count = sem.count + 1 ∧ sem'.posted = sem.posted ∧
          sem'.waiting = [] ∨
        ∃ id ids, sem.waiting = id :: ids ∧ sem'.count = sem.count ∧
          sem'.posted = sem.posted ++ [⟨id, 0⟩] ∧ sem'.waiting = ids) := by
  have hFirst := h.ring.next_self
  obtain ⟨node, hNode, hNext⟩ := Option.map_eq_some_iff.mp hFirst
  unfold AsyncSemaphore.release
  rw [if_neg (not_le.mpr hMax)]
  cases hWaiting : sem.waiting with
  | nil =>
    rw [hWaiting] at hNext
    refine ⟨{ sem with count := sem.count + 1 }, ?_, h.withCount _, .inl ⟨rfl, rfl, rfl, hWaiting⟩⟩
    simp only [hNode, Option.bind_eq_bind, Option.bind_some]
    rw [hNext]
    rfl
  | cons id ids =>
    rw [hWaiting] at hNext
    obtain ⟨sem', hComplete, hLinked, hCount', hIssued, hPosted⟩ :=
      h.complete (hWaiting.trans (List.nil_append _).symm) (.inl rfl)
    have hDecrement : decrement { sem with count := sem.count + 1 } = some sem := by
      unfold decrement
      rw [if_pos (show 0 < sem.count + 1 by omega), Int.add_sub_cancel]
    refine ⟨sem', ?_, hLinked, .inr ⟨id, ids, rfl, hCount', hPosted, ?_⟩⟩
    · simp only [hNode, Option.bind_eq_bind, Option.bind_some]
      rw [hNext]
      simp only [List.map_cons, List.headD_cons, hDecrement, Option.bind_some, hComplete]
    · exact waiting_posted hPosted hIssued (hWaiting.trans (List.nil_append _).symm)

/-- A cancellation completes the acquire of its slot, or changes nothing. -/
theorem Linked.emit (h : sem.Linked) (slot : ℕ) (type : CancellationType) :
    ∃ sem', sem.emit slot type = some sem' ∧ sem'.Linked ∧ sem'.count = sem.count ∧
      (sem'.posted = sem.posted ∧ sem'.waiting = sem.waiting ∨
        ∃ before id after, sem.waiting = before ++ id :: after ∧
          sem'.posted = sem.posted ++ [⟨id, operationAborted⟩] ∧
          sem'.waiting = before ++ after) := by
  unfold AsyncSemaphore.emit
  cases hSlot : sem.slots slot with
  | none => exact ⟨sem, rfl, h, rfl, .inl ⟨rfl, rfl⟩⟩
  | some id =>
    dsimp only
    split
    · obtain ⟨op, hOp, -⟩ := h.slots slot id hSlot
      obtain ⟨before, after, hWaiting⟩ :=
        List.append_of_mem ((h.ops id).mp (by rw [hOp]; rfl))
      obtain ⟨sem', hComplete, hLinked, hCount, hIssued, hPosted⟩ :=
        h.complete hWaiting (.inr rfl)
      exact ⟨sem', hComplete, hLinked, hCount,
        .inr ⟨before, id, after, hWaiting, hPosted, waiting_posted hPosted hIssued hWaiting⟩⟩
    · exact ⟨sem, rfl, h, rfl, .inl ⟨rfl, rfl⟩⟩

end AsyncSemaphore

/-- A semaphore in use: `taken` calls of `try_acquire` have returned true, and `released` calls of
`release` have been made. -/
structure SemaphoreRun where
  sem : AsyncSemaphore
  taken : ℕ := 0
  released : ℕ := 0

inductive SemaphoreOp
  | asyncAcquire (slot : Option ℕ)
  | tryAcquire
  | release
  | emit (slot : ℕ) (type : CancellationType)
deriving DecidableEq

namespace SemaphoreRun

def step (st : SemaphoreRun) : SemaphoreOp → Option SemaphoreRun
  | .asyncAcquire slot => do
    let sem ← st.sem.asyncAcquire slot
    return { st with sem }
  | .tryAcquire =>
    let (sem, acquired) := st.sem.tryAcquire
    some { st with sem, taken := st.taken + acquired.toNat }
  | .release => do
    let sem ← st.sem.release
    return { st with sem, released := st.released + 1 }
  | .emit slot type => do
    let sem ← st.sem.emit slot type
    return { st with sem }

/-- A semaphore that has just been constructed. -/
def start (initialCount : ℤ) : SemaphoreRun := { sem := { count := initialCount } }

/-- The invariant of a semaphore in use. -/
structure Sound (st : SemaphoreRun) : Prop where
  linked : st.sem.Linked
  count_nonneg : 0 ≤ st.sem.count
  count_zero : st.sem.waiting ≠ [] → st.sem.count = 0

/-- What a step does to the counter, to the completions and to the waiting acquires. -/
inductive Effect (st st' : SemaphoreRun) : SemaphoreOp → Prop
  | kept {op : SemaphoreOp} (hOp : op = .tryAcquire ∨ ∃ slot type, op = .emit slot type)
      (hCount : st'.sem.count = st.sem.count) (hPosted : st'.sem.posted = st.sem.posted)
      (hWaiting : st'.sem.waiting = st.sem.waiting) (hTaken : st'.taken = st.taken)
      (hReleased : st'.released = st.released) : Effect st st' op
  | queued {slot : Option ℕ} (hFree : st.sem.count = 0) (hCount : st'.sem.count = 0)
      (hPosted : st'.sem.posted = st.sem.posted)
      (hWaiting : st'.sem.waiting = st.sem.waiting ++ [st.sem.issued])
      (hTaken : st'.taken = st.taken) (hReleased : st'.released = st.released) :
      Effect st st' (.asyncAcquire slot)
  | immediate {slot : Option ℕ} (hFree : st.sem.count ≠ 0)
      (hCount : st'.sem.count = st.sem.count)
      (hPosted : st'.sem.posted = st.sem.posted ++ [⟨st.sem.issued, 0⟩])
      (hWaiting : st'.sem.waiting = st.sem.waiting) (hTaken : st'.taken = st.taken)
      (hReleased : st'.released = st.released) : Effect st st' (.asyncAcquire slot)
  | taken (hFree : 0 < st.sem.count) (hCount : st'.sem.count = st.sem.count - 1)
      (hPosted : st'.sem.posted = st.sem.posted) (hWaiting : st'.sem.waiting = st.sem.waiting)
      (hTaken : st'.taken = st.taken + 1) (hReleased : st'.released = st.released) :
      Effect st st' .tryAcquire
  | returned (hNone : st.sem.waiting = []) (hCount : st'.sem.count = st.sem.count + 1)
      (hPosted : st'.sem.posted = st.sem.posted) (hWaiting : st'.sem.waiting = [])
      (hTaken : st'.taken = st.taken) (hReleased : st'.released = st.released + 1) :
      Effect st st' .release
  | handed {id : ℕ} {ids : List ℕ} (hFirst : st.sem.waiting = id :: ids)
      (hCount : st'.sem.count = st.sem.count)
      (hPosted : st'.sem.posted = st.sem.posted ++ [⟨id, 0⟩]) (hWaiting : st'.sem.waiting = ids)
      (hTaken : st'.taken = st.taken) (hReleased : st'.released = st.released + 1) :
      Effect st st' .release
  | cancelled {slot : ℕ} {type : CancellationType} {before : List ℕ} {id : ℕ} {after : List ℕ}
      (hSlot : st.sem.waiting = before ++ id :: after) (hCount : st'.sem.count = st.sem.count)
      (hPosted : st'.sem.posted = st.sem.posted ++ [⟨id, operationAborted⟩])
      (hWaiting : st'.sem.waiting = before ++ after) (hTaken : st'.taken = st.taken)
      (hReleased : st'.released = st.released) : Effect st st' (.emit slot type)

variable {st st' : SemaphoreRun} {op : SemaphoreOp} {ops : List SemaphoreOp} {n : ℤ}

/-- A step has a result, and one of these effects, unless it is a release past the greatest
`int`. -/
theorem Sound.effect (h : st.Sound) (hMax : op = .release → st.sem.count < intMax) :
    ∃ st', st.step op = some st' ∧ st'.sem.Linked ∧ Effect st st' op := by
  cases op with
  | asyncAcquire slot =>
    by_cases hCount : st.sem.count = 0
    · obtain ⟨sem, hSem, hLinked, hCount', hPosted, hWaiting⟩ :=
        h.linked.asyncAcquire_queued hCount slot
      exact ⟨{ st with sem }, by simp [step, hSem], hLinked,
        .queued hCount hCount' hPosted hWaiting rfl rfl⟩
    · obtain ⟨sem, hSem, hLinked, hCount', hPosted, hWaiting⟩ :=
        h.linked.asyncAcquire_immediate hCount slot
      exact ⟨{ st with sem }, by simp [step, hSem], hLinked,
        .immediate hCount hCount' hPosted hWaiting rfl rfl⟩
  | tryAcquire =>
    by_cases hFree : 0 < st.sem.count
    · refine ⟨{ st with
        sem := { st.sem with count := st.sem.count - 1 }
        taken := st.taken + 1 }, ?_, h.linked.withCount _, .taken hFree rfl rfl rfl rfl rfl⟩
      simp [step, AsyncSemaphore.tryAcquire, hFree]
    · refine ⟨st, ?_, h.linked, .kept (.inl rfl) rfl rfl rfl rfl rfl⟩
      simp [step, AsyncSemaphore.tryAcquire, hFree]
  | release =>
    obtain ⟨sem, hSem, hLinked, hCases⟩ := h.linked.release h.count_nonneg (hMax rfl)
    refine ⟨{ st with sem, released := st.released + 1 }, by simp [step, hSem], hLinked, ?_⟩
    rcases hCases with ⟨hNone, hCount, hPosted, hWaiting⟩ | ⟨id, ids, hFirst, hCount, hPosted, hWaiting⟩
    · exact .returned hNone hCount hPosted hWaiting rfl rfl
    · exact .handed hFirst hCount hPosted hWaiting rfl rfl
  | emit slot type =>
    obtain ⟨sem, hSem, hLinked, hCount, hCases⟩ := h.linked.emit slot type
    refine ⟨{ st with sem }, by simp [step, hSem], hLinked, ?_⟩
    rcases hCases with ⟨hPosted, hWaiting⟩ | ⟨before, id, after, hSlot, hPosted, hWaiting⟩
    · exact .kept (.inr ⟨slot, type, rfl⟩) hCount hPosted hWaiting rfl rfl
    · exact .cancelled hSlot hCount hPosted hWaiting rfl rfl

theorem sound_start (hn : 0 ≤ n) : (start n).Sound where
  linked := {
    ring := BilistHeap.ring_sentinel (by simp [start, BilistHeap.next, BilistHeap.construct])
      (by simp [start, BilistHeap.prev, BilistHeap.construct])
    ops := by simp [start, AsyncSemaphore.waiting]
    slots := nofun
    once := List.nodup_nil
    issued := nofun
    outcome := nofun }
  count_nonneg := hn
  count_zero hWaiting := absurd rfl hWaiting

theorem Sound.of_effect (h : st.Sound) (hLinked : st'.sem.Linked) (hEffect : Effect st st' op) :
    st'.Sound := by
  have hZero := h.count_zero
  refine ⟨hLinked, ?_, fun hNe => ?_⟩
  · have := h.count_nonneg
    cases hEffect <;> omega
  · cases hEffect with
    | kept _ hCount _ hWaiting => rw [hCount, hZero (hWaiting ▸ hNe)]
    | queued _ hCount => exact hCount
    | immediate hFree _ _ hWaiting => exact absurd (hZero (hWaiting ▸ hNe)) hFree
    | taken hFree _ _ hWaiting =>
      have := hZero (hWaiting ▸ hNe)
      omega
    | returned _ _ _ hWaiting => exact absurd hWaiting hNe
    | handed hFirst hCount => rw [hCount, hZero (by simp [hFirst])]
    | cancelled hSlot hCount => rw [hCount, hZero (by simp [hSlot])]

/-- The steps from a sound state: they end soundly, by one of the effects. -/
theorem Sound.step (h : st.Sound) (hStep : st.step op = some st') :
    st'.Sound ∧ Effect st st' op := by
  have hMax : op = .release → st.sem.count < intMax := by
    rintro rfl
    refine lt_of_not_ge fun hGe => ?_
    simp [SemaphoreRun.step, AsyncSemaphore.release, hGe] at hStep
  obtain ⟨st₁, hStep₁, hLinked, hEffect⟩ := h.effect hMax
  obtain rfl := Option.some.inj (hStep₁.symm.trans hStep)
  exact ⟨h.of_effect hLinked hEffect, hEffect⟩

/-- The acquires that have succeeded so far. -/
def acquired (st : SemaphoreRun) : ℕ := st.taken + st.sem.posted.countP (·.ec = 0)

/-- No permit is lost or made, and no more acquirers hold one than there were permits. -/
structure Conserved (n : ℤ) (st : SemaphoreRun) : Prop where
  permits : st.sem.count + st.acquired - st.released = n
  holders : (st.acquired : ℤ) - st.released ≤ n

instance (n : ℤ) (st : SemaphoreRun) : Decidable (st.Conserved n) :=
  decidable_of_iff (st.sem.count + st.acquired - st.released = n ∧
    (st.acquired : ℤ) - st.released ≤ n) ⟨fun h => ⟨h.1, h.2⟩, fun h => ⟨h.1, h.2⟩⟩

/-- An asynchronous acquire is initiated only when no permit is free. -/
def NoneFree (st : SemaphoreRun) : SemaphoreOp → Prop
  | .asyncAcquire _ => st.sem.count = 0
  | _ => True

instance (st : SemaphoreRun) (op : SemaphoreOp) : Decidable (st.NoneFree op) :=
  match op with
  | .asyncAcquire _ | .tryAcquire | .release | .emit _ _ => by
    dsimp only [NoneFree]
    infer_instance

theorem conserved_iff (h : st.Sound) :
    st.Conserved n ↔ st.sem.count + st.acquired - st.released = n := by
  refine ⟨Conserved.permits, fun hPermits => ⟨hPermits, ?_⟩⟩
  have := h.count_nonneg
  omega

theorem Conserved.effect_iff (h : st.Conserved n) (h' : st'.Sound) (hEffect : Effect st st' op) :
    st.NoneFree op ↔ st'.Conserved n := by
  have hPermits := h.permits
  have hAcquired : ∀ c, st'.sem.posted = st.sem.posted ++ [c] → st'.taken = st.taken →
      st'.acquired = st.acquired + if c.ec = 0 then 1 else 0 := by
    intro c hPosted hTaken
    rw [acquired, acquired, hPosted, hTaken, List.countP_append, List.countP_singleton, Nat.add_assoc]
    simp only [decide_eq_true_eq]
  have hKept : st'.sem.posted = st.sem.posted → st'.acquired = st'.taken + (st.acquired - st.taken) := by
    intro hPosted
    rw [acquired, acquired, hPosted, Nat.add_sub_cancel_left]
  have hLe : st.taken ≤ st.acquired := Nat.le_add_right ..
  rw [conserved_iff h']
  cases hEffect with
  | kept hOp hCount hPosted _ hTaken hReleased =>
    have := hKept hPosted
    refine iff_of_true ?_ (by omega)
    rcases hOp with rfl | ⟨_, _, rfl⟩ <;> trivial
  | queued hFree hCount hPosted _ hTaken hReleased =>
    have := hKept hPosted
    exact iff_of_true hFree (by omega)
  | immediate hFree hCount hPosted _ hTaken hReleased =>
    have := hAcquired _ hPosted hTaken
    simp only [if_true] at this
    exact iff_of_false hFree (by omega)
  | taken hFree hCount hPosted _ hTaken hReleased =>
    have := hKept hPosted
    exact iff_of_true trivial (by omega)
  | returned _ hCount hPosted _ hTaken hReleased =>
    have := hKept hPosted
    exact iff_of_true trivial (by omega)
  | handed _ hCount hPosted _ hTaken hReleased =>
    have := hAcquired _ hPosted hTaken
    simp only [if_true] at this
    exact iff_of_true trivial (by omega)
  | cancelled _ hCount hPosted _ hTaken hReleased =>
    have := hAcquired _ hPosted hTaken
    rw [if_neg (show operationAborted ≠ 0 by decide)] at this
    exact iff_of_true trivial (by omega)

/-- In every run permits are conserved exactly when no asynchronous acquire is initiated while one
is free. -/
theorem conserved_run_iff (hn : 0 ≤ n) (hRun : run SemaphoreRun.step (start n) ops = some st) :
    Safe SemaphoreRun.step (fun _ _ st => st.Conserved n) (start n) ops ↔
      Along SemaphoreRun.step NoneFree (start n) ops := by
  refine safe_iff_of_run (I := fun st => st.Sound ∧ st.Conserved n)
    (fun st op st' h hStep => ?_) (fun st op st' h hConserved hStep => ?_) ?_ hRun
  · obtain ⟨h', hEffect⟩ := h.1.step hStep
    exact h.2.effect_iff h' hEffect
  · exact ⟨(h.1.step hStep).1, hConserved⟩
  · exact ⟨sound_start hn, (conserved_iff (sound_start hn)).mpr (by simp [start, acquired])⟩

/-- The permit is tried for, waited for, handed over and given back. -/
def handedOver : List SemaphoreOp :=
  [.tryAcquire, .asyncAcquire none, .release, .release, .tryAcquire]

theorem handedOver_conserved :
    Safe SemaphoreRun.step (fun _ _ st => st.Conserved 1) (start 1) handedOver := by
  have hRun : (run SemaphoreRun.step (start 1) handedOver).isSome = true := by decide +kernel
  obtain ⟨st, hSt⟩ := Option.isSome_iff_exists.mp hRun
  exact (conserved_run_iff (by decide) hSt).mpr (by decide +kernel)

/-- Two acquires of a semaphore with one permit. -/
def secondAcquire : List SemaphoreOp := [.asyncAcquire none, .asyncAcquire none]

/-- Both succeed, and the permit is still free. -/
theorem secondAcquire_unconserved :
    (run SemaphoreRun.step (start 1) secondAcquire).isSome = true ∧
      ¬Safe SemaphoreRun.step (fun _ _ st => st.Conserved 1) (start 1) secondAcquire := by
  decide +kernel

end SemaphoreRun

end Arby.Asioex
