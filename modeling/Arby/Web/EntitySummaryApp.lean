import Arby.Kit.OrdMap
import Arby.Kit.Run

/-! The summary of all entities that a web request asks for. The request visits the entities on its
own executor at once and sends a task to each other one, which reports back to the request's
executor. It counts down for each such report, but has never counted up. -/

namespace Arby.Web

open Kit

variable {ε : Type*}

/-- The address of an entity, and the executor that it lives on. -/
structure Entity (ε : Type*) where
  addr : ℕ
  executor : ε
deriving DecidableEq

/-- How far `asio::dispatch` gets before it returns: the task of the entity may run at once, and so
may its callback. -/
inductive Dispatch
  | posted
  | ran
  | reported
deriving DecidableEq

/-- The response, before it is formatted. -/
structure SummaryResponse where
  count : ℕ
  lines : List (ℕ × String)
deriving DecidableEq

/-- A pointer as `fmt` prints it. -/
def pointerText (p : ℕ) : String := "0x" ++ String.ofList (Nat.toDigits 16 p)

def SummaryResponse.body (response : SummaryResponse) : String :=
  response.lines.foldl (fun body line => body ++ pointerText line.1 ++ " - " ++ line.2 ++ "\r\n")
    (toString response.count ++ " entities:\r\n")

/-- Where the request is. `notified` is a wait that is over, with the request not yet resumed. -/
inductive RequestPhase
  | enumerating
  | waiting
  | notified
  | writing (response : SummaryResponse)
  | finished
deriving DecidableEq

/-- A request. `tasks` wait on the executors of their entities, and `finals` on that of the request,
in the order in which they were posted. `enumerated` are the entities visited, and `reports` what
their `summary` calls returned. -/
structure SummaryRequest (ε : Type*) where
  thisExec : ε
  cacheCopy : List (Entity ε)
  summaries : OrdMap ℕ String := ∅
  outstanding : ℤ := 0
  tasks : List (Entity ε) := []
  finals : List (ℕ × String) := []
  phase : RequestPhase := .enumerating
  enumerated : List (Entity ε) := []
  reports : List (ℕ × String) := []

/-- `visit` and `expired` are the turns of the loop of `enumerate`. -/
inductive SummaryOp
  | expired
  | visit (how : Dispatch) (summary : String)
  | check
  | runTask (k : ℕ) (summary : String)
  | runFinal
  | written
deriving DecidableEq

/-- The least value of an `int`. -/
def intMin : ℤ := -2 ^ 31

namespace SummaryRequest

/-- The callback `final`. -/
def final (st : SummaryRequest ε) (p : ℕ) (result : String) : Option (SummaryRequest ε) :=
  if st.outstanding = intMin then none
  else
    some { st with
      summaries := st.summaries.emplace p result
      outstanding := st.outstanding - 1
      phase := if st.phase = .waiting then .notified else st.phase }

/-- The callback `enumerator`, for the entity `p`. -/
def enumerator [DecidableEq ε] (st : SummaryRequest ε) (p : Entity ε) (how : Dispatch)
    (summary : String) : Option (SummaryRequest ε) :=
  let st := { st with enumerated := st.enumerated ++ [p] }
  let ran := { st with reports := st.reports ++ [(p.addr, summary)] }
  if p.executor = st.thisExec then
    some { ran with summaries := st.summaries.emplace p.addr summary }
  else
    match how with
    | .posted => some { st with tasks := st.tasks ++ [p] }
    | .ran => some { ran with finals := st.finals ++ [(p.addr, summary)] }
    | .reported => ran.final p.addr summary

/-- The loop on `outstanding`, to its next wait or its end. -/
def whileOutstanding (st : SummaryRequest ε) : SummaryRequest ε :=
  if st.outstanding = 0 then
    { st with phase := .writing ⟨st.summaries.entries.length, st.summaries.entries⟩ }
  else { st with phase := .waiting }

/-- A callback that runs when the request has finished finds its locals gone. -/
def step [DecidableEq ε] (st : SummaryRequest ε) : SummaryOp → Option (SummaryRequest ε)
  | .expired =>
    match st.phase, st.cacheCopy with
    | .enumerating, _ :: rest => some { st with cacheCopy := rest }
    | _, _ => none
  | .visit how summary =>
    match st.phase, st.cacheCopy with
    | .enumerating, p :: rest => { st with cacheCopy := rest }.enumerator p how summary
    | _, _ => none
  | .check =>
    match st.phase, st.cacheCopy with
    | .enumerating, [] => some st.whileOutstanding
    | .notified, _ => some st.whileOutstanding
    | _, _ => none
  | .runTask k summary => do
    let p ← st.tasks[k]?
    return { st with
      tasks := st.tasks.eraseIdx k
      finals := st.finals ++ [(p.addr, summary)]
      reports := st.reports ++ [(p.addr, summary)] }
  | .runFinal =>
    match st.finals with
    | [] => none
    | (p, result) :: rest =>
      match st.phase with
      | .enumerating => none
      | .finished => some { st with finals := rest }
      | _ => { st with finals := rest }.final p result
  | .written =>
    match st.phase with
    | .writing _ => some { st with phase := .finished }
    | _ => none

/-- The response has one line for each entity enumerated, with what it reported, and their number. -/
structure Complete (st : SummaryRequest ε) (response : SummaryResponse) : Prop where
  lines : response.lines.Perm st.reports
  everyone : (response.lines.map Prod.fst).Perm (st.enumerated.map Entity.addr)
  count : response.count = st.enumerated.length

/-- A response that is being written is complete, and no callback runs in a finished request. -/
structure Sound (st : SummaryRequest ε) (op : SummaryOp) (st' : SummaryRequest ε) : Prop where
  complete : ∀ response, st'.phase = .writing response → st'.Complete response
  alive : op = .runFinal → st.phase ≠ .finished

/-- When all entities have been enumerated, none of them lives on another executor, or one that does
has reported already. -/
def AllLocal (st : SummaryRequest ε) (op : SummaryOp) : Prop :=
  op = .check → st.phase = .enumerating →
    (∀ p ∈ st.enumerated, p.executor = st.thisExec) ∨ st.outstanding ≠ 0

instance [DecidableEq ε] : DecidableRel (@AllLocal ε) := fun st op => by
  dsimp only [AllLocal]
  infer_instance

variable [DecidableEq ε]

/-- Everything enumerated is in the summaries, in a callback or in a task; and once the request has
come to wait it waits for good, since `outstanding` is below zero. -/
structure Accounted (st : SummaryRequest ε) : Prop where
  distinct : ((st.enumerated ++ st.cacheCopy).map Entity.addr).Nodup
  everyone : ((st.summaries.entries ++ st.finals).map Prod.fst ++ st.tasks.map Entity.addr).Perm
    (st.enumerated.map Entity.addr)
  reports : (st.summaries.entries ++ st.finals).Perm st.reports
  remotes : (st.enumerated.countP (fun p => p.executor ≠ st.thisExec) : ℤ) =
    st.tasks.length + st.finals.length - st.outstanding

/-- How the phases go with the callbacks still to come. -/
def InPhase (st : SummaryRequest ε) : Prop :=
  match st.phase with
  | .enumerating => st.outstanding ≤ 0
  | .waiting | .notified => st.outstanding < 0
  | .writing response => st.tasks = [] ∧ st.finals = [] ∧ st.Complete response
  | .finished => st.tasks = [] ∧ st.finals = []

variable {st st' : SummaryRequest ε} {p : Entity ε} {rest : List (Entity ε)} {summary : String}
  {op : SummaryOp} {ops : List SummaryOp}

namespace Accounted

/-- The next entity is not in the summaries. -/
theorem fresh (h : st.Accounted) (hCopy : st.cacheCopy = p :: rest) :
    p.addr ∉ st.summaries.entries.map Prod.fst := by
  have hNew : p.addr ∉ st.enumerated.map Entity.addr := by
    have hDistinct := h.distinct
    rw [hCopy, List.map_append, List.map_cons, List.nodup_append] at hDistinct
    exact fun hMem => hDistinct.2.2 _ hMem _ List.mem_cons_self rfl
  refine fun hMem => hNew (h.everyone.subset ?_)
  simp only [List.map_append, List.mem_append]
  exact .inl (.inl hMem)

theorem expired (h : st.Accounted) (hCopy : st.cacheCopy = p :: rest) :
    Accounted { st with cacheCopy := rest } where
  distinct := by
    refine h.distinct.sublist (List.Sublist.map _ (List.Sublist.append_left ?_ _))
    rw [hCopy]
    exact List.sublist_cons_self ..
  everyone := h.everyone
  reports := h.reports
  remotes := h.remotes

theorem distinct_visit (h : st.Accounted) (hCopy : st.cacheCopy = p :: rest) :
    ((st.enumerated ++ [p] ++ rest).map Entity.addr).Nodup := by
  have hDistinct := h.distinct
  rwa [hCopy, List.append_cons] at hDistinct

omit [DecidableEq ε] in
theorem everyone_visit {addrs : List ℕ} (hEveryone : addrs.Perm (st.enumerated.map Entity.addr)) :
    (p.addr :: addrs).Perm ((st.enumerated ++ [p]).map Entity.addr) := by
  rw [List.map_append]
  exact (hEveryone.cons _).trans (List.perm_append_singleton ..).symm

/-- An entity on the executor of the request. -/
theorem visit_local (h : st.Accounted) (hCopy : st.cacheCopy = p :: rest)
    (hLocal : p.executor = st.thisExec) (summary : String) :
    Accounted { st with
      cacheCopy := rest
      enumerated := st.enumerated ++ [p]
      reports := st.reports ++ [(p.addr, summary)]
      summaries := st.summaries.emplace p.addr summary } where
  distinct := h.distinct_visit hCopy
  everyone :=
    (((OrdMap.entries_emplace_perm (h.fresh hCopy) summary).append_right _).map _ |>.append_right _).trans
      (everyone_visit h.everyone)
  reports :=
    ((OrdMap.entries_emplace_perm (h.fresh hCopy) summary).append_right _).trans
      ((h.reports.cons _).trans (List.perm_append_singleton ..).symm)
  remotes := by
    have hRemotes := h.remotes
    simpa [List.countP_append, hLocal] using hRemotes

/-- An entity on another executor, whose task waits. -/
theorem visit_posted (h : st.Accounted) (hCopy : st.cacheCopy = p :: rest)
    (hRemote : p.executor ≠ st.thisExec) :
    Accounted { st with
      cacheCopy := rest
      enumerated := st.enumerated ++ [p]
      tasks := st.tasks ++ [p] } where
  distinct := h.distinct_visit hCopy
  everyone := by
    refine List.Perm.trans ?_ (everyone_visit h.everyone)
    have hTasks : (st.tasks ++ [p]).map Entity.addr = st.tasks.map Entity.addr ++ [p.addr] :=
      List.map_append
    rw [hTasks, ← List.append_assoc]
    exact List.perm_append_singleton ..
  reports := h.reports
  remotes := by
    have hRemotes := h.remotes
    simp only [List.countP_append, List.length_append, List.length_singleton,
      List.countP_singleton, decide_eq_true hRemote, if_true]
    omega

/-- An entity on another executor, whose task has run. -/
theorem visit_ran (h : st.Accounted) (hCopy : st.cacheCopy = p :: rest)
    (hRemote : p.executor ≠ st.thisExec) (summary : String) :
    Accounted { st with
      cacheCopy := rest
      enumerated := st.enumerated ++ [p]
      reports := st.reports ++ [(p.addr, summary)]
      finals := st.finals ++ [(p.addr, summary)] } where
  distinct := h.distinct_visit hCopy
  everyone := by
    refine List.Perm.trans ?_ (everyone_visit h.everyone)
    rw [← List.append_assoc]
    exact ((List.perm_append_singleton ..).map _).append_right _
  reports := by
    rw [← List.append_assoc]
    exact h.reports.append_right _
  remotes := by
    have hRemotes := h.remotes
    simp only [List.countP_append, List.length_append, List.length_singleton,
      List.countP_singleton, decide_eq_true hRemote, if_true]
    omega

/-- A task that runs by itself. -/
theorem runTask (h : st.Accounted) {k : ℕ} (hTask : st.tasks[k]? = some p) (summary : String) :
    Accounted { st with
      tasks := st.tasks.eraseIdx k
      finals := st.finals ++ [(p.addr, summary)]
      reports := st.reports ++ [(p.addr, summary)] } where
  distinct := h.distinct
  everyone := by
    have hTasks : st.tasks.Perm (p :: st.tasks.eraseIdx k) := by
      obtain ⟨hLt, rfl⟩ := List.getElem?_eq_some_iff.mp hTask
      exact (List.getElem_cons_eraseIdx_perm hLt).symm
    refine List.Perm.trans ?_ h.everyone
    rw [← List.append_assoc]
    have hMoved : (st.summaries.entries ++ st.finals ++ [(p.addr, summary)]).map Prod.fst ++
        (st.tasks.eraseIdx k).map Entity.addr =
        (st.summaries.entries ++ st.finals).map Prod.fst ++ (p :: st.tasks.eraseIdx k).map Entity.addr := by
      simp
    rw [hMoved]
    exact (hTasks.symm.map _).append_left _
  reports := by
    rw [← List.append_assoc]
    exact h.reports.append_right _
  remotes := by
    have hRemotes := h.remotes
    have hLt := (List.getElem?_eq_some_iff.mp hTask).1
    simp only [List.length_append, List.length_singleton, List.length_eraseIdx, hLt, if_true]
    omega

/-- A callback that runs, wherever it is among those still to come. -/
theorem final (h : st.Accounted) {result : String} {finals : List (ℕ × String)} {a : ℕ}
    (hFinals : st.finals.Perm ((a, result) :: finals))
    (hFinal : SummaryRequest.final { st with finals := finals } a result = some st') :
    st'.Accounted ∧ st'.outstanding = st.outstanding - 1 ∧ st'.tasks = st.tasks ∧
      st'.phase = (if st.phase = .waiting then .notified else st.phase) := by
  unfold SummaryRequest.final at hFinal
  split at hFinal
  · cases hFinal
  · obtain rfl := Option.some.inj hFinal
    have hEntries : (st.summaries.entries ++ st.finals).Perm
        ((a, result) :: (st.summaries.entries ++ finals)) :=
      (hFinals.append_left _).trans List.perm_middle
    have hFresh : a ∉ st.summaries.entries.map Prod.fst := by
      have hNodup : ((st.summaries.entries ++ st.finals).map Prod.fst).Nodup := by
        have hDistinct := h.distinct
        rw [List.map_append, List.nodup_append] at hDistinct
        exact (List.nodup_append.mp (h.everyone.nodup_iff.mpr hDistinct.1)).1
      have hCons := (hEntries.map Prod.fst).nodup_iff.mp hNodup
      refine fun hMem => (List.nodup_cons.mp hCons).1 ?_
      rw [List.map_append, List.mem_append]
      exact .inl hMem
    have hEmplace : ((st.summaries.emplace a result).entries ++ finals).Perm
        (st.summaries.entries ++ st.finals) :=
      ((OrdMap.entries_emplace_perm hFresh result).append_right _).trans hEntries.symm
    refine ⟨⟨h.distinct, ((hEmplace.map _).append_right _).trans h.everyone,
      hEmplace.trans h.reports, ?_⟩, rfl, rfl, rfl⟩
    have hRemotes := h.remotes
    have hLength : st.finals.length = finals.length + 1 := hFinals.length_eq
    rw [hLength] at hRemotes
    push_cast at hRemotes ⊢
    omega

/-- The accounts do not depend on the phase. -/
theorem withPhase (h : st.Accounted) (phase : RequestPhase) :
    Accounted { st with phase := phase } :=
  ⟨h.distinct, h.everyone, h.reports, h.remotes⟩

end Accounted

/-- The invariant of a request whose remote entities are joined as `AllLocal` says. -/
structure Joined (st : SummaryRequest ε) : Prop where
  accounted : st.Accounted
  inPhase : st.InPhase

theorem Accounted.complete_iff (h : st.Accounted) :
    st.Complete ⟨st.summaries.entries.length, st.summaries.entries⟩ ↔ st.tasks = [] ∧ st.finals = [] := by
  constructor
  · intro hComplete
    have hLength := (hComplete.everyone.trans h.everyone.symm).length_eq
    simp only [List.length_append, List.length_map] at hLength
    exact ⟨List.eq_nil_of_length_eq_zero (by omega), List.eq_nil_of_length_eq_zero (by omega)⟩
  · rintro ⟨hTasks, hFinals⟩
    have hReports := h.reports
    have hEveryone := h.everyone
    rw [hFinals, List.append_nil] at hReports
    rw [hTasks, hFinals, List.append_nil, List.map_nil, List.append_nil] at hEveryone
    exact ⟨hReports, hEveryone, by simpa using hEveryone.length_eq⟩

/-- While nothing has been counted down, the entities on other executors are in tasks and callbacks. -/
theorem Accounted.allLocal_iff (h : st.Accounted) (hZero : st.outstanding = 0) :
    (∀ p ∈ st.enumerated, p.executor = st.thisExec) ↔ st.tasks = [] ∧ st.finals = [] := by
  have hRemotes := h.remotes
  rw [hZero, sub_zero] at hRemotes
  have hCount : (∀ p ∈ st.enumerated, p.executor = st.thisExec) ↔
      st.enumerated.countP (fun p => p.executor ≠ st.thisExec) = 0 := by
    simp [List.countP_eq_zero]
  rw [hCount, ← List.length_eq_zero_iff, ← List.length_eq_zero_iff]
  omega

theorem Joined.sound (h : st'.Joined) (hAlive : op = .runFinal → st.phase ≠ .finished) :
    Sound st op st' where
  complete response hPhase := by
    have hInPhase := h.inPhase
    rw [InPhase, hPhase] at hInPhase
    exact hInPhase.2.2
  alive := hAlive

/-- A turn of the loop of `enumerate` leaves the request enumerating. -/
theorem Joined.enumerator (h : st.Joined) (hPhase : st.phase = .enumerating)
    (hCopy : st.cacheCopy = p :: rest) {how : Dispatch}
    (hStep : SummaryRequest.enumerator { st with cacheCopy := rest } p how summary = some st') :
    st'.Joined := by
  have hInPhase := h.inPhase
  rw [InPhase, hPhase] at hInPhase
  by_cases hLocal : p.executor = st.thisExec
  · simp only [SummaryRequest.enumerator, if_pos hLocal, Option.some.injEq] at hStep
    subst hStep
    exact ⟨h.accounted.visit_local hCopy hLocal summary, by simpa [InPhase, hPhase] using hInPhase⟩
  · simp only [SummaryRequest.enumerator, if_neg hLocal] at hStep
    cases how with
    | posted =>
      obtain rfl := Option.some.inj hStep
      exact ⟨h.accounted.visit_posted hCopy hLocal, by simpa [InPhase, hPhase] using hInPhase⟩
    | ran =>
      obtain rfl := Option.some.inj hStep
      exact ⟨h.accounted.visit_ran hCopy hLocal summary, by simpa [InPhase, hPhase] using hInPhase⟩
    | reported =>
      obtain ⟨hAccounted, hOutstanding, -, hPhase'⟩ :=
        (h.accounted.visit_ran hCopy hLocal summary).final (List.perm_append_singleton ..) hStep
      refine ⟨hAccounted, ?_⟩
      have hEnumerating : st'.phase = .enumerating := by
        simpa [hPhase] using hPhase'
      rw [InPhase, hEnumerating]
      show st'.outstanding ≤ 0
      have hBefore : st.outstanding ≤ 0 := hInPhase
      rw [hOutstanding]
      show st.outstanding - 1 ≤ 0
      omega

/-- A callback that runs in a waiting request. -/
theorem Joined.runFinal (h : st.Joined) {result : String} {finals : List (ℕ × String)} {a : ℕ}
    (hPhase : st.phase = .waiting ∨ st.phase = .notified)
    (hFinals : st.finals = (a, result) :: finals)
    (hFinal : SummaryRequest.final { st with finals := finals } a result = some st') :
    st'.Joined := by
  have hInPhase : st.outstanding < 0 := by
    have hInPhase := h.inPhase
    rcases hPhase with hPhase | hPhase <;> rwa [InPhase, hPhase] at hInPhase
  obtain ⟨hAccounted, hOutstanding, -, hPhase'⟩ :=
    h.accounted.final (hFinals ▸ .refl _) hFinal
  refine ⟨hAccounted, ?_⟩
  have hNotified : st'.phase = .notified := by
    rcases hPhase with hPhase | hPhase <;> simpa [hPhase] using hPhase'
  rw [InPhase, hNotified]
  show st'.outstanding < 0
  omega

theorem Joined.written (h : st.Joined) {response : SummaryResponse}
    (hPhase : st.phase = .writing response) : Joined { st with phase := .finished } := by
  have hInPhase := h.inPhase
  rw [InPhase, hPhase] at hInPhase
  exact ⟨h.accounted.withPhase .finished, hInPhase.1, hInPhase.2.1⟩

theorem Joined.runTask (h : st.Joined) {k : ℕ} (hTask : st.tasks[k]? = some p) (summary : String) :
    Joined { st with
      tasks := st.tasks.eraseIdx k
      finals := st.finals ++ [(p.addr, summary)]
      reports := st.reports ++ [(p.addr, summary)] } := by
  refine ⟨h.accounted.runTask hTask summary, ?_⟩
  have hInPhase := h.inPhase
  have hTasks : st.tasks ≠ [] := by
    intro hNil
    rw [hNil] at hTask
    cases hTask
  rw [InPhase] at hInPhase ⊢
  cases hPhase : st.phase with
  | writing response =>
    rw [hPhase] at hInPhase
    exact absurd hInPhase.1 hTasks
  | finished =>
    rw [hPhase] at hInPhase
    exact absurd hInPhase.1 hTasks
  | _ =>
    rw [hPhase] at hInPhase
    exact hInPhase

/-- A request that has counted down waits. -/
theorem Joined.wait (h : st.Joined) (hOutstanding : st.outstanding < 0) :
    st.whileOutstanding.Joined := by
  rw [whileOutstanding, if_neg hOutstanding.ne]
  exact ⟨h.accounted.withPhase .waiting, hOutstanding⟩

/-- The end of the enumeration: a request that has not counted down writes its response, which is
complete when all entities are on its own executor. -/
theorem Joined.check (h : st.Joined) (hPhase : st.phase = .enumerating) :
    (AllLocal st .check ↔ Sound st .check st.whileOutstanding) ∧
      (AllLocal st .check → st.whileOutstanding.Joined) := by
  have hAllLocal : AllLocal st .check ↔
      (∀ p ∈ st.enumerated, p.executor = st.thisExec) ∨ st.outstanding ≠ 0 := by
    simp [AllLocal, hPhase]
  rw [hAllLocal]
  by_cases hZero : st.outstanding = 0
  · have hWriting : st.whileOutstanding =
        { st with phase := .writing ⟨st.summaries.entries.length, st.summaries.entries⟩ } :=
      if_pos hZero
    rw [or_iff_left (not_not_intro hZero), h.accounted.allLocal_iff hZero,
      ← h.accounted.complete_iff, hWriting]
    constructor
    · constructor
      · refine fun hComplete => ⟨?_, nofun⟩
        rintro response ⟨⟩
        exact ⟨hComplete.lines, hComplete.everyone, hComplete.count⟩
      · intro hSound
        have hComplete := hSound.complete _ rfl
        exact ⟨hComplete.lines, hComplete.everyone, hComplete.count⟩
    · intro hComplete
      obtain ⟨hTasks, hFinals⟩ := h.accounted.complete_iff.mp hComplete
      exact ⟨h.accounted.withPhase _, hTasks, hFinals, hComplete.lines, hComplete.everyone,
        hComplete.count⟩
  · have hInPhase := h.inPhase
    rw [InPhase, hPhase] at hInPhase
    have hJoined := h.wait (lt_of_le_of_ne hInPhase hZero)
    exact ⟨iff_of_true (.inr hZero) (hJoined.sound nofun), fun _ => hJoined⟩

/-- A step other than the first look at `outstanding`. -/
theorem Joined.step (h : st.Joined) (hOp : op = .check → st.phase ≠ .enumerating)
    (hStep : st.step op = some st') : st'.Joined ∧ (op = .runFinal → st.phase ≠ .finished) := by
  cases op with
  | expired =>
    simp only [SummaryRequest.step] at hStep
    split at hStep
    · rename_i hPhase hCopy
      obtain rfl := Option.some.inj hStep
      have hInPhase := h.inPhase
      exact ⟨⟨h.accounted.expired hCopy, by simpa [InPhase, hPhase] using hInPhase⟩, nofun⟩
    · cases hStep
  | visit how summary =>
    simp only [SummaryRequest.step] at hStep
    split at hStep
    · rename_i hPhase hCopy
      exact ⟨h.enumerator hPhase hCopy hStep, nofun⟩
    · cases hStep
  | check =>
    simp only [SummaryRequest.step] at hStep
    split at hStep
    · rename_i hPhase _
      exact absurd hPhase (hOp rfl)
    · rename_i hPhase
      obtain rfl := Option.some.inj hStep
      have hInPhase := h.inPhase
      rw [InPhase, hPhase] at hInPhase
      exact ⟨h.wait hInPhase, nofun⟩
    · cases hStep
  | runTask k summary =>
    obtain ⟨p, hTask, hPure⟩ := Option.bind_eq_some_iff.mp hStep
    obtain rfl := Option.some.inj hPure
    exact ⟨h.runTask hTask summary, nofun⟩
  | runFinal =>
    have hInPhase := h.inPhase
    rw [InPhase] at hInPhase
    simp only [SummaryRequest.step] at hStep
    cases hFinals : st.finals with
    | nil =>
      rw [hFinals] at hStep
      cases hStep
    | cons final finals =>
      obtain ⟨a, result⟩ := final
      rw [hFinals] at hStep hInPhase
      cases hPhase : st.phase with
      | enumerating =>
        rw [hPhase] at hStep
        cases hStep
      | waiting => exact ⟨h.runFinal (.inl hPhase) hFinals (by simpa [hPhase] using hStep), nofun⟩
      | notified => exact ⟨h.runFinal (.inr hPhase) hFinals (by simpa [hPhase] using hStep), nofun⟩
      | writing response =>
        rw [hPhase] at hInPhase
        cases hInPhase.2.1
      | finished =>
        rw [hPhase] at hInPhase
        cases hInPhase.2
  | written =>
    simp only [SummaryRequest.step] at hStep
    split at hStep
    · rename_i hPhase
      obtain rfl := Option.some.inj hStep
      exact ⟨h.written hPhase, nofun⟩
    · cases hStep

theorem Joined.sound_iff (h : st.Joined) (hStep : st.step op = some st') :
    (AllLocal st op ↔ Sound st op st') ∧ (AllLocal st op → st'.Joined) := by
  by_cases hFirst : op = .check ∧ st.phase = .enumerating
  · obtain ⟨rfl, hPhase⟩ := hFirst
    simp only [SummaryRequest.step, hPhase] at hStep
    split at hStep
    · obtain rfl := Option.some.inj hStep
      exact h.check hPhase
    · rename_i hEq
      cases hEq
    · cases hStep
  · have hOther : op = .check → st.phase ≠ .enumerating := fun hOp hPhase => hFirst ⟨hOp, hPhase⟩
    obtain ⟨hJoined, hAlive⟩ := h.step hOther hStep
    exact ⟨iff_of_true (fun hOp hPhase => absurd hPhase (hOther hOp)) (hJoined.sound hAlive),
      fun _ => hJoined⟩

/-- A request for the summaries of `entities`. -/
def start (thisExec : ε) (entities : List (Entity ε)) : SummaryRequest ε :=
  { thisExec := thisExec, cacheCopy := entities }

theorem joined_start (thisExec : ε) {entities : List (Entity ε)}
    (hDistinct : (entities.map Entity.addr).Nodup) : (start thisExec entities).Joined :=
  ⟨⟨hDistinct, .refl _, .refl _, rfl⟩, le_refl (0 : ℤ)⟩

/-- A response is written only when it is complete, and no callback comes after the end of the
request, exactly when at the end of the enumeration no entity lives on another executor or one that
does has reported already. -/
theorem sound_run_iff (thisExec : ε) (entities : List (Entity ε))
    (hDistinct : (entities.map Entity.addr).Nodup) (ops : List SummaryOp) (st : SummaryRequest ε)
    (hRun : run step (start thisExec entities) ops = some st) :
    Safe step Sound (start thisExec entities) ops ↔
      Along step AllLocal (start thisExec entities) ops :=
  safe_iff_of_run (fun _ _ _ h hStep => (h.sound_iff hStep).1)
    (fun _ _ _ h hSound hStep => (h.sound_iff hStep).2 ((h.sound_iff hStep).1.mpr hSound))
    (joined_start thisExec hDistinct) hRun

/-- Two entities on the executor of the request. -/
def localEntities : List (Entity Bool) := [⟨16, true⟩, ⟨32, true⟩]

def localRequest : List SummaryOp :=
  [.visit .posted "a", .visit .posted "b", .check, .written]

theorem localRequest_sound : Safe step Sound (start true localEntities) localRequest := by
  obtain ⟨st, hRun⟩ := Option.isSome_iff_exists.mp
    (show (run step (start true localEntities) localRequest).isSome = true by decide +kernel)
  refine (sound_run_iff true localEntities (by decide) localRequest st hRun).mpr ?_
  decide +kernel

/-- One entity on another executor, whose task is posted. -/
def remoteRequest : List SummaryOp := [.visit .posted "", .check, .written, .runTask 0 "a"]

/-- The response is written without it, and its callback is still to come when the request has
finished. -/
theorem remoteRequest_unsound :
    (run step (start true [⟨16, false⟩]) (remoteRequest.take 2)).map (·.phase) =
        some (.writing ⟨0, []⟩) ∧
      (run step (start true [⟨16, false⟩]) remoteRequest).map (fun st => (st.phase, st.finals)) =
        some (.finished, [(16, "a")]) ∧
      (run step (start true [⟨16, false⟩]) (remoteRequest ++ [.runFinal])).isSome = true := by
  decide +kernel

end SummaryRequest

end Arby.Web
