import Arby.Logging.DataLog

/-! Runs of the data log. Each payload goes from the arguments of `send` to the executor's queue, to
the channel, to the coroutine and to the file, and nothing overtakes on the way. -/

namespace Arby.Logging

open Kit

variable {σ : Type*}

/-- What becomes of a payload in the file: a line, or the end. -/
def Payload.item (payload : Payload) : Option String :=
  if payload.ec then none else some (payload.s ++ "\n")

/-- The payloads that a handler sends. -/
def Handler.payloads : Handler → List Payload
  | .doSend payload => [payload]
  | .stop => [.eof]
  | .resume => []

/-- What has been received and not yet written. -/
def Writer.inHand : Writer → List (Option String)
  | .received payload => [payload.item]
  | .writing currentLine => [some currentLine]
  | _ => []

/-- The resumption of `run` is in the executor's queue. -/
def Writer.resumes : Writer → Bool
  | .starting | .received _ | .wrote _ => true
  | _ => false

/-- The lines that an operation sends. -/
def LogOp.texts : LogOp → List String
  | .send s => [s]
  | _ => []

namespace DataLog

/-- All items sent so far. -/
def items (log : DataLog σ) : List (Option String) :=
  log.lines.map some ++ if log.destroyed then [none] else []

/-- The payloads whose `do_send` has not run yet. -/
def pending (log : DataLog σ) : List Payload := log.posted.flatMap Handler.payloads

variable {ch : Channel σ Payload} {capacity : ℕ} {queue : σ → List Payload}
  {Waiting Open : σ → Prop} {onExecutor : Bool} {log log' : DataLog σ} {payload : Payload}
  {handler : Handler} {hand : List (Option String)} {op : LogOp} {ops : List LogOp}

/-- The lines in front of something else are the first ones. -/
theorem prefix_of_items {xs zs : List String} {rest : List (Option String)} {destroyed : Bool}
    (h : xs.map some ++ rest = zs.map some ++ if destroyed then [none] else []) : xs <+: zs := by
  induction xs generalizing zs with
  | nil => exact List.nil_prefix
  | cons x xs ih =>
    cases zs with
    | nil => cases destroyed <;> simp at h
    | cons z zs =>
      obtain ⟨hHead, hTail⟩ := List.cons.inj h
      obtain rfl := Option.some.inj hHead
      exact List.cons_prefix_cons.mpr ⟨rfl, ih hTail⟩

/-- The end comes after all lines. -/
theorem end_of_items {xs zs : List String} {rest : List (Option String)} {destroyed : Bool}
    (h : xs.map some ++ none :: rest = zs.map some ++ if destroyed then [none] else []) :
    destroyed = true ∧ xs = zs ∧ rest = [] := by
  induction xs generalizing zs with
  | nil =>
    cases zs with
    | nil =>
      cases destroyed with
      | false => cases h
      | true => exact ⟨rfl, rfl, (List.cons.inj h).2⟩
    | cons z zs => cases h
  | cons x xs ih =>
    cases zs with
    | nil => cases destroyed <;> simp at h
    | cons z zs =>
      obtain ⟨hHead, hTail⟩ := List.cons.inj h
      obtain rfl := Option.some.inj hHead
      obtain ⟨hDestroyed, rfl, hRest⟩ := ih hTail
      exact ⟨hDestroyed, rfl, hRest⟩

/-- Every item is in the file, in hand, in the channel or still to be sent, in this order; `extra`
are payloads on the way from the last to the channel. -/
structure Ordered (queue : σ → List Payload) (Waiting Open : σ → Prop) (onExecutor : Bool)
    (extra : List Payload) (log : DataLog σ) : Prop where
  resumes : log.posted.count .resume = if log.writer.resumes then 1 else 0
  isOpen : Open log.channel ↔ log.writer ≠ .stopped
  waiting : log.writer ≠ .stopped → (Waiting log.channel ↔ log.writer = .awaiting)
  account : log.writer ≠ .stopped → log.failed = false →
    log.file.map some ++ log.writer.inHand ++
      (queue log.channel ++ extra ++ log.pending).map Payload.item = log.items
  written : log.file <+: log.lines
  whole : log.writer = .stopped → log.failed = false → log.destroyed = true ∧ log.file = log.lines
  failed : log.failed = true → log.writer = .wrote true ∨ log.writer = .stopped
  wrote : log.writer = .wrote true → log.failed = true
  direct : onExecutor = true → log.pending = []

/-- The same while `run` is running, with `hand` received and not yet written. -/
structure Running (queue : σ → List Payload) (Waiting Open : σ → Prop) (onExecutor : Bool)
    (hand : List (Option String)) (log : DataLog σ) : Prop where
  resumes : log.posted.count .resume = 0
  isOpen : Open log.channel
  waiting : ¬Waiting log.channel
  account : log.file.map some ++ hand ++ (queue log.channel ++ log.pending).map Payload.item =
    log.items
  written : log.file <+: log.lines
  failed : log.failed = false
  direct : onExecutor = true → log.pending = []

/-! ### The coroutine -/

theorem Running.take (hChannel : ch.IsFifo capacity queue Waiting Open)
    (h : Running queue Waiting Open onExecutor [payload.item] log) :
    Ordered queue Waiting Open onExecutor [] (log.take ch payload) := by
  have hAccount := h.account
  unfold DataLog.take
  rw [Payload.item] at hAccount
  split
  · rename_i hEnd
    rw [if_pos hEnd, List.append_assoc, List.singleton_append] at hAccount
    obtain ⟨hDestroyed, hFile, -⟩ := end_of_items hAccount
    exact {
      resumes := h.resumes
      isOpen := iff_of_false (hChannel.close _) (· rfl)
      waiting := fun hNe => absurd rfl hNe
      account := fun hNe => absurd rfl hNe
      written := h.written
      whole := fun _ _ => ⟨hDestroyed, hFile⟩
      failed := fun _ => .inr rfl
      wrote := nofun
      direct := h.direct }
  · rename_i hLine
    rw [if_neg hLine] at hAccount
    exact {
      resumes := h.resumes
      isOpen := iff_of_true h.isOpen nofun
      waiting := fun _ => iff_of_false h.waiting nofun
      account := fun _ _ => by rw [List.append_nil]; exact hAccount
      written := h.written
      whole := nofun
      failed := fun hFailed => by cases h.failed.symm.trans hFailed
      wrote := nofun
      direct := h.direct }

theorem Running.receive (hChannel : ch.IsFifo capacity queue Waiting Open)
    (h : Running queue Waiting Open onExecutor [] log) :
    Ordered queue Waiting Open onExecutor [] (log.receive ch) := by
  have hAccount := h.account
  unfold DataLog.receive
  cases hQueue : queue log.channel with
  | nil =>
    obtain ⟨channel, hReceive, hOpen, hWaiting⟩ :=
      hChannel.asyncReceive_nil log.channel h.isOpen h.waiting hQueue
    rw [hChannel.tryReceive_nil log.channel h.isOpen hQueue, hReceive]
    exact {
      resumes := h.resumes
      isOpen := iff_of_true hOpen nofun
      waiting := fun _ => iff_of_true hWaiting rfl
      account := fun _ _ => by
        show log.file.map some ++ [] ++ (queue channel ++ [] ++ log.pending).map Payload.item =
          log.items
        rw [hQueue] at hAccount
        rw [hChannel.queue_waiting channel hWaiting]
        exact hAccount
      written := h.written
      whole := nofun
      failed := fun hFailed => by cases h.failed.symm.trans hFailed
      wrote := nofun
      direct := h.direct }
  | cons payload rest =>
    obtain ⟨channel, hReceive, hOpen, hWaiting, hRest⟩ :=
      hChannel.tryReceive_cons log.channel payload rest h.isOpen hQueue
    rw [hReceive]
    refine Running.take hChannel ⟨h.resumes, hOpen, hWaiting, ?_, h.written, h.failed, h.direct⟩
    rw [hQueue, List.append_nil] at hAccount
    rw [hRest, List.append_assoc, List.singleton_append]
    exact hAccount

/-- The resumption taken from the executor's queue. -/
theorem Ordered.running {rest : List Handler}
    (h : Ordered queue Waiting Open onExecutor [] log) (hPosted : log.posted = .resume :: rest)
    (hResumes : log.writer.resumes = true) (hWrote : log.writer ≠ .wrote true)
    (hHand : log.writer.inHand = hand) :
    Running queue Waiting Open onExecutor hand { log with posted := rest } := by
  have hStopped : log.writer ≠ .stopped := by
    intro hStopped
    rw [hStopped] at hResumes
    cases hResumes
  have hAwaiting : log.writer ≠ .awaiting := by
    intro hAwaiting
    rw [hAwaiting] at hResumes
    cases hResumes
  have hFailed : log.failed = false := by
    by_contra hFailed
    rcases h.failed (by simpa using hFailed) with hEq | hEq
    · exact hWrote hEq
    · exact hStopped hEq
  have hCount := h.resumes
  have hAccount := h.account hStopped hFailed
  have hPending : log.pending = rest.flatMap Handler.payloads := by
    rw [pending, hPosted]
    rfl
  rw [hPosted, List.count_cons_self, if_pos hResumes] at hCount
  rw [List.append_nil, hPending, hHand] at hAccount
  exact {
    resumes := Nat.succ.inj hCount
    isOpen := h.isOpen.mpr hStopped
    waiting := fun hWaiting => hAwaiting ((h.waiting hStopped).mp hWaiting)
    account := hAccount
    written := h.written
    failed := hFailed
    direct := fun hOn => hPending.symm.trans (h.direct hOn) }

theorem Ordered.resume {rest : List Handler} (hChannel : ch.IsFifo capacity queue Waiting Open)
    (h : Ordered queue Waiting Open onExecutor [] log) (hPosted : log.posted = .resume :: rest)
    (hStep : DataLog.resume ch { log with posted := rest } = some log') :
    Ordered queue Waiting Open onExecutor [] log' := by
  unfold DataLog.resume at hStep
  split at hStep
  · rename_i hWriter
    obtain rfl := Option.some.inj hStep
    exact (h.running hPosted (by rw [hWriter]; rfl) (by rw [hWriter]; nofun)
      (by rw [hWriter]; rfl)).receive hChannel
  · rename_i payload hWriter
    obtain rfl := Option.some.inj hStep
    exact (h.running hPosted (by rw [hWriter]; rfl) (by rw [hWriter]; nofun)
      (by rw [hWriter]; rfl)).take hChannel
  · rename_i ec hWriter
    obtain rfl := Option.some.inj hStep
    cases ec with
    | false =>
      exact (h.running hPosted (by rw [hWriter]; rfl) (by rw [hWriter]; nofun)
        (by rw [hWriter]; rfl)).receive hChannel
    | true =>
      have hFailed := h.wrote hWriter
      have hCount := h.resumes
      rw [hPosted, List.count_cons_self, hWriter] at hCount
      exact {
        resumes := Nat.succ.inj hCount
        isOpen := iff_of_false (hChannel.close _) (· rfl)
        waiting := fun hNe => absurd rfl hNe
        account := fun hNe => absurd rfl hNe
        written := h.written
        whole := fun _ hFine => by cases hFailed.symm.trans hFine
        failed := fun _ => .inr rfl
        wrote := nofun
        direct := fun hOn => by
          have hPending := h.direct hOn
          rw [pending, hPosted] at hPending
          exact hPending }
  · cases hStep

/-! ### Sends -/

/-- A payload on its way enters the channel, or goes to the coroutine that waits for it. -/
theorem Ordered.doSend (hChannel : ch.IsFifo capacity queue Waiting Open)
    (h : Ordered queue Waiting Open onExecutor [payload] log) :
    Ordered queue Waiting Open onExecutor [] (log.doSend ch payload) := by
  unfold DataLog.doSend
  by_cases hStopped : log.writer = .stopped
  · obtain ⟨channel, hSend, hClosed⟩ :=
      hChannel.send_closed (mt h.isOpen.mp (not_not_intro hStopped)) payload
    rw [hSend]
    exact {
      resumes := h.resumes
      isOpen := iff_of_false hClosed (not_not_intro hStopped)
      waiting := fun hNe => absurd hStopped hNe
      account := fun hNe => absurd hStopped hNe
      written := h.written
      whole := h.whole
      failed := h.failed
      wrote := h.wrote
      direct := h.direct }
  · by_cases hAwaiting : log.writer = .awaiting
    · have hWaiting := (h.waiting hStopped).mpr hAwaiting
      obtain ⟨channel, hSend, hOpen, hNot, hQueue⟩ :=
        hChannel.send_waiting (h.isOpen.mpr hStopped) hWaiting payload
      have hFailed : log.failed ≠ true := by
        intro hFailed
        rcases h.failed hFailed with hEq | hEq <;> cases hAwaiting.symm.trans hEq
      have hCount := h.resumes
      rw [hAwaiting] at hCount
      rw [hSend]
      exact {
        resumes := by
          show (log.posted ++ [Handler.resume]).count Handler.resume = 1
          rw [List.count_append, hCount]
          rfl
        isOpen := iff_of_true hOpen nofun
        waiting := fun _ => iff_of_false hNot nofun
        account := fun _ hFine => by
          have hAccount := h.account hStopped hFine
          rw [hAwaiting, hChannel.queue_waiting _ hWaiting] at hAccount
          show log.file.map some ++ [payload.item] ++
            (queue channel ++ [] ++ (log.posted ++ [Handler.resume]).flatMap Handler.payloads).map
              Payload.item = log.items
          rw [hQueue, List.flatMap_append, ← hAccount]
          simp [Writer.inHand, pending, Handler.payloads]
        written := h.written
        whole := nofun
        failed := fun hTrue => absurd hTrue hFailed
        wrote := nofun
        direct := fun hOn => by
          show (log.posted ++ [Handler.resume]).flatMap Handler.payloads = []
          rw [List.flatMap_append, show log.posted.flatMap Handler.payloads = [] from h.direct hOn]
          rfl }
    · obtain ⟨channel, hSend, hOpen, hNot, hQueue⟩ :=
        hChannel.send_open (h.isOpen.mpr hStopped) (mt (h.waiting hStopped).mp hAwaiting) payload
      rw [hSend]
      exact {
        resumes := h.resumes
        isOpen := iff_of_true hOpen hStopped
        waiting := fun _ => iff_of_false hNot hAwaiting
        account := fun _ hFine => by
          have hAccount := h.account hStopped hFine
          show log.file.map some ++ log.writer.inHand ++
            (queue channel ++ [] ++ log.pending).map Payload.item = log.items
          rw [hQueue, List.append_nil]
          exact hAccount
        written := h.written
        whole := h.whole
        failed := h.failed
        wrote := h.wrote
        direct := h.direct }

/-- `send` or the destructor has been called, and its payload is on its way. -/
structure Announced (payload : Payload) (log log' : DataLog σ) : Prop where
  alive : log.destroyed = false
  same : log' = { log with sent := log'.sent, destroyed := log'.destroyed }
  lines : log.lines <+: log'.lines
  items : log'.items = log.items ++ [payload.item]

theorem announced_send (hAlive : log.destroyed = false) (s : String) :
    Announced ⟨false, s⟩ log { log with sent := log.sent ++ [s] } where
  alive := hAlive
  same := rfl
  lines := by
    rw [DataLog.lines, DataLog.lines, List.map_append]
    exact List.prefix_append ..
  items := by simp [DataLog.items, DataLog.lines, hAlive, Payload.item]

theorem announced_destroy (hAlive : log.destroyed = false) :
    Announced .eof log { log with destroyed := true } where
  alive := hAlive
  same := rfl
  lines := List.prefix_rfl
  items := by simp [DataLog.items, DataLog.lines, hAlive, Payload.item, Payload.eof]

theorem Announced.fields (h : Announced payload log log') :
    log'.channel = log.channel ∧ log'.posted = log.posted ∧ log'.writer = log.writer ∧
      log'.file = log.file ∧ log'.failed = log.failed := by
  rw [h.same]
  exact ⟨rfl, rfl, rfl, rfl, rfl⟩

/-- A caller on the executor: nothing is waiting in its queue. -/
theorem Ordered.announce (h : Ordered queue Waiting Open onExecutor [] log)
    (hAnnounced : Announced payload log log') (hOn : onExecutor = true) :
    Ordered queue Waiting Open onExecutor [payload] log' := by
  obtain ⟨hChannel, hPosted, hWriter, hFile, hFailed⟩ := hAnnounced.fields
  have hPending : log'.pending = log.pending := by rw [pending, pending, hPosted]
  exact {
    resumes := by rw [hPosted, hWriter]; exact h.resumes
    isOpen := by rw [hChannel, hWriter]; exact h.isOpen
    waiting := by rw [hChannel, hWriter]; exact h.waiting
    account := fun hStopped hFine => by
      rw [hWriter] at hStopped
      rw [hFailed] at hFine
      have hAccount := h.account hStopped hFine
      rw [h.direct hOn, List.append_nil, List.append_nil] at hAccount
      rw [hFile, hWriter, hChannel, hPending, h.direct hOn, List.append_nil, List.map_append,
        ← List.append_assoc, hAccount, hAnnounced.items]
      rfl
    written := hFile ▸ h.written.trans hAnnounced.lines
    whole := fun hStopped hFine => by
      rw [hWriter] at hStopped
      rw [hFailed] at hFine
      cases hAnnounced.alive.symm.trans (h.whole hStopped hFine).1
    failed := by rw [hFailed, hWriter]; exact h.failed
    wrote := by rw [hFailed, hWriter]; exact h.wrote
    direct := fun hOn => hPending.trans (h.direct hOn) }

/-- A caller elsewhere: the handler is the last one in the executor's queue. -/
theorem Ordered.post (h : Ordered queue Waiting Open false [] log)
    (hAnnounced : Announced payload log log') (hHandler : handler.payloads = [payload]) :
    Ordered queue Waiting Open false [] { log' with posted := log'.posted ++ [handler] } := by
  obtain ⟨hChannel, hPosted, hWriter, hFile, hFailed⟩ := hAnnounced.fields
  have hPending : (log'.posted ++ [handler]).flatMap Handler.payloads = log.pending ++ [payload] := by
    rw [List.flatMap_append, List.flatMap_singleton, hHandler, hPosted, pending]
  have hResume : handler ≠ .resume := by
    rintro rfl
    cases hHandler
  exact {
    resumes := by
      show (log'.posted ++ [handler]).count .resume = if log'.writer.resumes then 1 else 0
      rw [List.count_append, List.count_singleton, if_neg (by simpa using hResume), hPosted, hWriter]
      exact h.resumes
    isOpen := by
      show Open log'.channel ↔ log'.writer ≠ .stopped
      rw [hChannel, hWriter]
      exact h.isOpen
    waiting := by
      show log'.writer ≠ .stopped → (Waiting log'.channel ↔ log'.writer = .awaiting)
      rw [hChannel, hWriter]
      exact h.waiting
    account := fun hStopped hFine => by
      have hAccount := h.account (hWriter ▸ hStopped) (hFailed.symm.trans hFine)
      show log'.file.map some ++ log'.writer.inHand ++
        (queue log'.channel ++ [] ++ (log'.posted ++ [handler]).flatMap Handler.payloads).map
          Payload.item = log'.items
      rw [hFile, hWriter, hChannel, hPending, ← List.append_assoc, List.map_append,
        ← List.append_assoc, hAccount, hAnnounced.items]
      rfl
    written := by
      show log'.file <+: log'.lines
      exact hFile ▸ h.written.trans hAnnounced.lines
    whole := fun hStopped hFine => by
      cases hAnnounced.alive.symm.trans
        (h.whole (hWriter.symm.trans hStopped) (hFailed.symm.trans hFine)).1
    failed := by
      show log'.failed = true → log'.writer = .wrote true ∨ log'.writer = .stopped
      rw [hFailed, hWriter]
      exact h.failed
    wrote := by
      show log'.writer = .wrote true → log'.failed = true
      rw [hFailed, hWriter]
      exact h.wrote
    direct := nofun }

/-- The next handler of the executor sends. -/
theorem Ordered.unpost {rest : List Handler} (h : Ordered queue Waiting Open onExecutor [] log)
    (hPosted : log.posted = handler :: rest) (hHandler : handler.payloads = [payload]) :
    Ordered queue Waiting Open onExecutor [payload] { log with posted := rest } := by
  have hPending : log.pending = payload :: rest.flatMap Handler.payloads := by
    rw [pending, hPosted, List.flatMap_cons, hHandler]
    rfl
  have hResume : handler ≠ .resume := by
    rintro rfl
    cases hHandler
  have hCount := h.resumes
  rw [hPosted, List.count_cons_of_ne hResume] at hCount
  exact {
    resumes := hCount
    isOpen := h.isOpen
    waiting := h.waiting
    account := fun hStopped hFine => by
      have hAccount := h.account hStopped hFine
      rw [List.append_nil, hPending] at hAccount
      show log.file.map some ++ log.writer.inHand ++
        (queue log.channel ++ [payload] ++ rest.flatMap Handler.payloads).map Payload.item = log.items
      rw [List.append_assoc (queue _)]
      exact hAccount
    written := h.written
    whole := h.whole
    failed := h.failed
    wrote := h.wrote
    direct := fun hOn => by
      cases hPending.symm.trans (h.direct hOn) }

/-- A write completes. -/
theorem Ordered.writeDone (h : Ordered queue Waiting Open onExecutor [] log) {currentLine : String}
    (hWriter : log.writer = .writing currentLine) (ec : Bool) :
    Ordered queue Waiting Open onExecutor []
      { log with
        writer := .wrote ec
        posted := log.posted ++ [.resume]
        file := if ec then log.file else log.file ++ [currentLine]
        failed := log.failed || ec } := by
  have hStopped : log.writer ≠ .stopped := by rw [hWriter]; nofun
  have hFailed : log.failed = false := by
    by_contra hFailed
    rcases h.failed (by simpa using hFailed) with hEq | hEq <;> cases hWriter.symm.trans hEq
  have hCount := h.resumes
  have hAccount := h.account hStopped hFailed
  rw [hWriter] at hCount hAccount
  have hPending : (log.posted ++ [Handler.resume]).flatMap Handler.payloads = log.pending := by
    rw [List.flatMap_append, pending]
    exact List.append_nil _
  have hFile : (log.file ++ [currentLine]).map some = log.file.map some ++ [some currentLine] := by
    rw [List.map_append]
    rfl
  exact {
    resumes := by
      show (log.posted ++ [Handler.resume]).count .resume = 1
      rw [List.count_append, hCount]
      rfl
    isOpen := iff_of_true (h.isOpen.mpr hStopped) nofun
    waiting := fun _ =>
      iff_of_false (fun hWaiting => by cases hWriter.symm.trans ((h.waiting hStopped).mp hWaiting)) nofun
    account := fun _ hFine => by
      obtain rfl : ec = false := by
        rw [hFailed] at hFine
        exact hFine
      show (log.file ++ [currentLine]).map some ++ [] ++
        (queue log.channel ++ [] ++ (log.posted ++ [Handler.resume]).flatMap Handler.payloads).map
          Payload.item = log.items
      rw [hPending, hFile, List.append_nil]
      exact hAccount
    written := by
      cases ec with
      | true => exact h.written
      | false =>
        show log.file ++ [currentLine] <+: log.lines
        have hItems : (log.file ++ [currentLine]).map some ++
            (queue log.channel ++ [] ++ log.pending).map Payload.item = log.items := by
          rw [hFile]
          exact hAccount
        exact prefix_of_items hItems
    whole := nofun
    failed := fun hTrue => by
      obtain rfl : ec = true := by
        rw [hFailed] at hTrue
        exact hTrue
      exact .inl rfl
    wrote := fun hEc => by
      obtain rfl := Writer.wrote.inj hEc
      exact Bool.or_true _
    direct := fun hOn => hPending.trans (h.direct hOn) }

/-! ### Runs -/

theorem Ordered.dispatch (hChannel : ch.IsFifo capacity queue Waiting Open)
    (h : Ordered queue Waiting Open onExecutor [] log) {added : DataLog σ}
    (hAnnounced : Announced payload log added) (hHandler : handler.payloads = [payload])
    (hRun : added.handle ch handler = some (added.doSend ch payload))
    (hStep : added.dispatch ch onExecutor handler = some log') :
    Ordered queue Waiting Open onExecutor [] log' := by
  unfold DataLog.dispatch at hStep
  split at hStep
  · rename_i hOn
    obtain rfl := Option.some.inj (hRun.symm.trans hStep)
    exact (h.announce hAnnounced hOn).doSend hChannel
  · rename_i hOff
    obtain rfl : onExecutor = false := by simpa using hOff
    obtain rfl := Option.some.inj hStep
    exact h.post hAnnounced hHandler

theorem Ordered.handle {rest : List Handler} (hChannel : ch.IsFifo capacity queue Waiting Open)
    (h : Ordered queue Waiting Open onExecutor [] log) (hPosted : log.posted = handler :: rest)
    (hStep : DataLog.handle ch { log with posted := rest } handler = some log') :
    Ordered queue Waiting Open onExecutor [] log' := by
  cases handler with
  | doSend payload =>
    obtain rfl := Option.some.inj hStep
    exact (h.unpost hPosted rfl).doSend hChannel
  | stop =>
    obtain rfl := Option.some.inj hStep
    exact (h.unpost hPosted rfl).doSend hChannel
  | resume => exact h.resume hChannel hPosted hStep

/-- The step lemma. -/
theorem Ordered.step (hChannel : ch.IsFifo capacity queue Waiting Open)
    (h : Ordered queue Waiting Open onExecutor [] log)
    (hStep : log.step ch onExecutor op = some log') :
    Ordered queue Waiting Open onExecutor [] log' := by
  cases op with
  | send s =>
    simp only [DataLog.step] at hStep
    split at hStep
    · cases hStep
    · rename_i hAlive
      exact h.dispatch hChannel (announced_send (by simpa using hAlive) s) rfl rfl hStep
  | destroy =>
    simp only [DataLog.step] at hStep
    split at hStep
    · cases hStep
    · rename_i hAlive
      exact h.dispatch hChannel (announced_destroy (by simpa using hAlive)) rfl rfl hStep
  | runHandler =>
    simp only [DataLog.step] at hStep
    split at hStep
    · cases hStep
    · rename_i hPosted
      exact h.handle hChannel hPosted hStep
  | writeDone ec =>
    simp only [DataLog.step] at hStep
    split at hStep
    · rename_i hWriter
      obtain rfl := Option.some.inj hStep
      exact h.writeDone hWriter ec
    · cases hStep

/-! Only a write that completes changes the file. -/

@[simp] theorem file_deliver (log : DataLog σ) (received : Option Payload) :
    (log.deliver received).file = log.file := by
  cases received <;> rfl

@[simp] theorem file_doSend (log : DataLog σ) (payload : Payload) :
    (log.doSend ch payload).file = log.file := file_deliver ..

@[simp] theorem file_take (log : DataLog σ) (payload : Payload) :
    (log.take ch payload).file = log.file := by
  unfold DataLog.take
  split <;> rfl

@[simp] theorem file_receive (log : DataLog σ) : (log.receive ch).file = log.file := by
  unfold DataLog.receive
  split
  · exact file_take ..
  · exact file_deliver ..

theorem file_handle (hStep : log.handle ch handler = some log') : log'.file = log.file := by
  cases handler with
  | doSend payload =>
    obtain rfl := Option.some.inj hStep
    exact file_doSend ..
  | stop =>
    obtain rfl := Option.some.inj hStep
    exact file_doSend ..
  | resume =>
    simp only [DataLog.handle, DataLog.resume] at hStep
    split at hStep
    · obtain rfl := Option.some.inj hStep
      exact file_receive ..
    · obtain rfl := Option.some.inj hStep
      exact file_take ..
    · obtain rfl := Option.some.inj hStep
      split
      · rfl
      · exact file_receive ..
    · cases hStep

theorem file_dispatch (hStep : log.dispatch ch onExecutor handler = some log') :
    log'.file = log.file := by
  unfold DataLog.dispatch at hStep
  split at hStep
  · exact file_handle hStep
  · obtain rfl := Option.some.inj hStep
    rfl

theorem file_step (hStopped : log.writer = .stopped)
    (hStep : log.step ch onExecutor op = some log') : log'.file = log.file := by
  cases op with
  | send s =>
    simp only [DataLog.step] at hStep
    split at hStep
    · cases hStep
    · have hFile := file_dispatch hStep
      exact hFile
  | destroy =>
    simp only [DataLog.step] at hStep
    split at hStep
    · cases hStep
    · have hFile := file_dispatch hStep
      exact hFile
  | runHandler =>
    simp only [DataLog.step] at hStep
    split at hStep
    · cases hStep
    · have hFile := file_handle hStep
      exact hFile
  | writeDone ec =>
    simp only [DataLog.step, hStopped] at hStep
    cases hStep

/-! Only `send` adds to the lines that were sent. -/

@[simp] theorem sent_deliver (log : DataLog σ) (received : Option Payload) :
    (log.deliver received).sent = log.sent := by
  cases received <;> rfl

@[simp] theorem sent_doSend (log : DataLog σ) (payload : Payload) :
    (log.doSend ch payload).sent = log.sent := sent_deliver ..

@[simp] theorem sent_take (log : DataLog σ) (payload : Payload) :
    (log.take ch payload).sent = log.sent := by
  unfold DataLog.take
  split <;> rfl

@[simp] theorem sent_receive (log : DataLog σ) : (log.receive ch).sent = log.sent := by
  unfold DataLog.receive
  split
  · exact sent_take ..
  · exact sent_deliver ..

theorem sent_handle (hStep : log.handle ch handler = some log') :
    log'.sent = log.sent := by
  cases handler with
  | doSend payload =>
    obtain rfl := Option.some.inj hStep
    exact sent_doSend ..
  | stop =>
    obtain rfl := Option.some.inj hStep
    exact sent_doSend ..
  | resume =>
    simp only [DataLog.handle, DataLog.resume] at hStep
    split at hStep
    · obtain rfl := Option.some.inj hStep
      exact sent_receive ..
    · obtain rfl := Option.some.inj hStep
      exact sent_take ..
    · obtain rfl := Option.some.inj hStep
      split
      · rfl
      · exact sent_receive ..
    · cases hStep

theorem sent_dispatch (hStep : log.dispatch ch onExecutor handler = some log') :
    log'.sent = log.sent := by
  unfold DataLog.dispatch at hStep
  split at hStep
  · exact sent_handle hStep
  · obtain rfl := Option.some.inj hStep
    rfl

theorem sent_step (hStep : log.step ch onExecutor op = some log') :
    log'.sent = log.sent ++ op.texts := by
  cases op with
  | send s =>
    simp only [DataLog.step] at hStep
    split at hStep
    · cases hStep
    · exact sent_dispatch hStep
  | destroy =>
    simp only [DataLog.step] at hStep
    split at hStep
    · cases hStep
    · exact (sent_dispatch hStep).trans (List.append_nil _).symm
  | runHandler =>
    simp only [DataLog.step] at hStep
    split at hStep
    · cases hStep
    · exact (sent_handle hStep).trans (List.append_nil _).symm
  | writeDone ec =>
    simp only [DataLog.step] at hStep
    split at hStep
    · obtain rfl := Option.some.inj hStep
      exact (List.append_nil _).symm
    · cases hStep

/-- With nothing left to do, the writer has received the end. -/
theorem Ordered.stops (hChannel : ch.IsFifo capacity queue Waiting Open)
    (h : Ordered queue Waiting Open onExecutor [] log) (hDestroyed : log.destroyed = true)
    (hPosted : log.posted = []) (hWriting : ∀ line, log.writer ≠ .writing line) :
    log.writer = .stopped := by
  by_contra hStopped
  have hCount := h.resumes
  rw [hPosted, List.count_nil] at hCount
  have hAwaiting : log.writer = .awaiting := by
    cases hWriter : log.writer with
    | awaiting => rfl
    | writing line => exact absurd hWriter (hWriting line)
    | stopped => exact absurd hWriter hStopped
    | starting => simp [hWriter, Writer.resumes] at hCount
    | received payload => simp [hWriter, Writer.resumes] at hCount
    | wrote ec => simp [hWriter, Writer.resumes] at hCount
  have hFailed : log.failed = false := by
    by_contra hFailed
    rcases h.failed (by simpa using hFailed) with hEq | hEq <;> cases hAwaiting.symm.trans hEq
  have hAccount := h.account hStopped hFailed
  rw [hAwaiting, hChannel.queue_waiting _ ((h.waiting hStopped).mpr hAwaiting), pending, hPosted,
    items, if_pos hDestroyed] at hAccount
  have hEnd : (none : Option String) ∈ log.lines.map some ++ [none] := by simp
  rw [← hAccount] at hEnd
  simp [Writer.inHand] at hEnd

theorem Ordered.faithful (hChannel : ch.IsFifo capacity queue Waiting Open)
    (h : Ordered queue Waiting Open onExecutor [] log)
    (hStep : log.step ch onExecutor op = some log') :
    Faithful log log' ∧ Ordered queue Waiting Open onExecutor [] log' := by
  have h' := h.step hChannel hStep
  exact ⟨⟨h'.written, h'.whole, fun hStopped => file_step hStopped hStep, h'.stops hChannel⟩, h'⟩

theorem ordered_start {channel : σ} (hOpen : Open channel) (hWaiting : ¬Waiting channel)
    (hQueue : queue channel = []) :
    Ordered queue Waiting Open onExecutor [] { channel := channel } where
  resumes := rfl
  isOpen := iff_of_true hOpen nofun
  waiting _ := iff_of_false hWaiting nofun
  account _ _ := by
    show [] ++ [] ++ (queue channel ++ [] ++ []).map Payload.item = []
    rw [hQueue]
    rfl
  written := List.nil_prefix
  whole := nofun
  failed := nofun
  wrote := nofun
  direct _ := rfl

/-- Over a channel that is a first-in-first-out queue with room for 1024 values, the file has the
first lines sent after every step of every run, and all of them when the writer stops. -/
theorem file_faithful (ch : Channel σ Payload) (queue : σ → List Payload) (Waiting Open : σ → Prop)
    (hChannel : ch.IsFifo 1024 queue Waiting Open) (channel : σ) (hOpen : Open channel)
    (hWaiting : ¬Waiting channel) (hQueue : queue channel = []) (onExecutor : Bool)
    (ops : List LogOp) (log : DataLog σ)
    (hRun : run (step ch onExecutor) { channel := channel } ops = some log) :
    Safe (step ch onExecutor) (fun log _ log' => Faithful log log') { channel := channel } ops :=
  safe_of_run (I := Ordered queue Waiting Open onExecutor [])
    (fun _ _ _ h hStep => h.faithful hChannel hStep) (ordered_start hOpen hWaiting hQueue) hRun

/-- Two lines and the destruction, with the second line sent while the first is written. -/
def twoLines : List LogOp :=
  [.send "The", .runHandler, .runHandler, .runHandler, .send "cat", .destroy, .runHandler,
    .runHandler, .writeDone false, .runHandler, .writeDone false, .runHandler]

theorem twoLines_faithful :
    Safe (step (Fifo.channel 1024) false) (fun log _ log' => Faithful log log')
      { channel := Fifo.holding [] } twoLines := by
  obtain ⟨log, hRun⟩ := Option.isSome_iff_exists.mp
    (show (run (step (Fifo.channel 1024) false) { channel := Fifo.holding [] } twoLines).isSome = true
      by decide +kernel)
  exact file_faithful (Fifo.channel 1024) Fifo.queue Fifo.Waiting Fifo.Open
    (Fifo.channel_isFifo 1024) (.holding []) trivial id rfl false twoLines log hRun

end DataLog

end Arby.Logging
