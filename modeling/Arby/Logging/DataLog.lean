import Arby.Kit.Channel
import Arby.Kit.Run

/-! The data log: lines are sent through a channel to a coroutine that writes them to a file, one by
one. The destructor sends an end marker the same way. -/

namespace Arby.Logging

open Kit

variable {σ : Type*}

/-- What goes through the channel: `ec` says whether the error code is set. -/
structure Payload where
  ec : Bool
  s : String
deriving DecidableEq

/-- The end marker, with error code `eof`. -/
def Payload.eof : Payload := ⟨true, ""⟩

/-- A handler in the executor's queue. `resume` goes on with the coroutine `run`. -/
inductive Handler
  | doSend (payload : Payload)
  | stop
  | resume
deriving DecidableEq

/-- Where `run` is. When it has `received` a payload or has written (`wrote`), its resumption is in
the executor's queue. -/
inductive Writer
  | starting
  | awaiting
  | received (payload : Payload)
  | writing (currentLine : String)
  | wrote (ec : Bool)
  | stopped
deriving DecidableEq

/-- A data log with its channel and the queue of its executor. `file` are the lines whose write
completed, `sent` the arguments of `send`, and `failed` says that a write has failed. -/
structure DataLog (σ : Type*) where
  channel : σ
  posted : List Handler := [.resume]
  writer : Writer := .starting
  file : List String := []
  sent : List String := []
  destroyed : Bool := false
  failed : Bool := false

/-- `runHandler` runs the next handler of the executor, and `writeDone` completes a write. -/
inductive LogOp
  | send (s : String)
  | destroy
  | runHandler
  | writeDone (ec : Bool)
deriving DecidableEq

namespace DataLog

variable (ch : Channel σ Payload)

/-- A pending `async_receive` completes with a payload that was sent. -/
def deliver (log : DataLog σ) : Option Payload → DataLog σ
  | none => log
  | some payload => { log with writer := .received payload, posted := log.posted ++ [.resume] }

/-- `impl::do_send`. -/
def doSend (log : DataLog σ) (payload : Payload) : DataLog σ :=
  let (channel, received) := ch.send log.channel payload
  { log with channel := channel }.deliver received

/-- The end of `run`. -/
def leave (log : DataLog σ) : DataLog σ :=
  { log with channel := ch.close log.channel, writer := .stopped }

/-- `run` from the payload to the write. -/
def take (log : DataLog σ) (payload : Payload) : DataLog σ :=
  if payload.ec then log.leave ch else { log with writer := .writing (payload.s ++ "\n") }

/-- `run` from the top of its loop. -/
def receive (log : DataLog σ) : DataLog σ :=
  match ch.tryReceive log.channel with
  | some (channel, payload) => { log with channel := channel }.take ch payload
  | none =>
    let (channel, received) := ch.asyncReceive log.channel
    { log with channel := channel, writer := .awaiting }.deliver received

def resume (log : DataLog σ) : Option (DataLog σ) :=
  match log.writer with
  | .starting => some (log.receive ch)
  | .received payload => some (log.take ch payload)
  | .wrote ec => some (if ec then log.leave ch else log.receive ch)
  | _ => none

def handle (log : DataLog σ) : Handler → Option (DataLog σ)
  | .doSend payload => some (log.doSend ch payload)
  | .stop => some (log.doSend ch .eof)
  | .resume => log.resume ch

/-- `asio::dispatch` of a handler: it runs at once when the caller is on the executor. -/
def dispatch (onExecutor : Bool) (log : DataLog σ) (handler : Handler) : Option (DataLog σ) :=
  if onExecutor then log.handle ch handler
  else some { log with posted := log.posted ++ [handler] }

/-- A step, with the callers of `send` and of the destructor on the log's executor or not. -/
def step (onExecutor : Bool) (log : DataLog σ) : LogOp → Option (DataLog σ)
  | .send s =>
    if log.destroyed then none
    else { log with sent := log.sent ++ [s] }.dispatch ch onExecutor (.doSend ⟨false, s⟩)
  | .destroy =>
    if log.destroyed then none
    else { log with destroyed := true }.dispatch ch onExecutor .stop
  | .runHandler =>
    match log.posted with
    | [] => none
    | handler :: rest => { log with posted := rest }.handle ch handler
  | .writeDone ec =>
    match log.writer with
    | .writing currentLine =>
      some { log with
        writer := .wrote ec
        posted := log.posted ++ [.resume]
        file := if ec then log.file else log.file ++ [currentLine]
        failed := log.failed || ec }
    | _ => none

/-- The lines sent, as they are written. -/
def lines (log : DataLog σ) : List String := log.sent.map (· ++ "\n")

/-- The lines written are the first ones sent; the writer stops when all are written that were sent
before the destruction, unless a write fails, and writes nothing after that; and it does stop once
there is nothing left to do. -/
structure Faithful (log : DataLog σ) (log' : DataLog σ) : Prop where
  written : log'.file <+: log'.lines
  whole : log'.writer = .stopped → log'.failed = false →
    log'.destroyed = true ∧ log'.file = log'.lines
  after : log.writer = .stopped → log'.file = log.file
  stops : log'.destroyed = true → log'.posted = [] → (∀ line, log'.writer ≠ .writing line) →
    log'.writer = .stopped

end DataLog

end Arby.Logging
