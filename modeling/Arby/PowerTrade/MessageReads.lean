import Arby.Kit.Run
import Arby.PowerTrade.InboundMessage

/-! The messages that the connector reads one after another into the same object, and the watchers
that they are passed on to. -/

namespace Arby.PowerTrade

open Trading Kit

/-- The loop of a connection and the watchers. -/
structure MessageReads where
  /-- The message of `receive_loop`, `none` when no loop runs. -/
  message : Option InboundMessage := none
  /-- The types of the connected slots. -/
  watchers : List String := []
  /-- What the last step has passed on, once for each slot. -/
  delivered : List InboundMessage := []

inductive MessageOp
  /-- A connection is up, and `receive_loop` starts. -/
  | connect
  /-- `watch_messages(type, …)`. -/
  | watch (type : String)
  | unwatch (type : String)
  /-- One turn of the loop: it prepares the message at time `now`, the bytes come in, and it commits
  them at time `later`. -/
  | read (now : TimestampType) (chunks : List String) (later : TimestampType)
  /-- The read fails, and the loop ends. -/
  | readFailed

namespace MessageReads

variable (parse : String → Option Json)

/-- A turn of the loop up to `commit`, which tells whether the text was parsed. -/
def readInto (m : InboundMessage) (now : TimestampType) (chunks : List String)
    (later : TimestampType) : InboundMessage × Bool :=
  (chunks.foldl InboundMessage.receive (m.prepare now)).commit parse later

/-- The slots of the signal for the message's type get it. -/
def handleMessage (st : MessageReads) (m : InboundMessage) : List InboundMessage :=
  (st.watchers.filter (· = m.type)).map fun _ => m

/-- One operation. A text that is not parsed ends the loop. -/
def step (st : MessageReads) : MessageOp → MessageReads
  | .connect => { st with message := some {}, delivered := [] }
  | .watch type => { st with watchers := type :: st.watchers, delivered := [] }
  | .unwatch type => { st with watchers := st.watchers.erase type, delivered := [] }
  | .read now chunks later =>
    match st.message with
    | none => { st with delivered := [] }
    | some m =>
      let result := readInto parse m now chunks later
      if result.2 then
        { st with message := some result.1, delivered := st.handleMessage result.1 }
      else { st with message := none, delivered := [] }
  | .readFailed => { st with message := none, delivered := [] }

/-- The message has the first key of the JSON object `text` as its type, and refers to the object
under that key. -/
def Shows (text : String) (m : InboundMessage) : Prop :=
  ∃ key inner rest, parse text = some (.object ((key, .object inner) :: rest)) ∧
    m.type = key ∧ m.object = some inner

/-- Whatever is passed on shows the text that was just read. -/
def Delivers (_ : MessageReads) (op : MessageOp) (st : MessageReads) : Prop :=
  match op with
  | .read _ chunks _ => ∀ m ∈ st.delivered, Shows parse (String.join chunks) m
  | .connect | .watch _ | .unwatch _ | .readFailed => st.delivered = []

/-- The type that the message gets from a JSON value: the first key of a non-empty object, and
otherwise the empty one. -/
def typeOf : Json → String
  | .object ((key, _) :: _) => key
  | _ => ""

/-- A non-empty object with an object under its first key. -/
def wellShaped : Json → Bool
  | .object ((_, .object _) :: _) => true
  | _ => false

/-- The text is no JSON, or has an object under its first key, or nobody watches its type. -/
def Presentable (st : MessageReads) : MessageOp → Prop
  | .read _ chunks _ => ∀ v ∈ parse (String.join chunks), st.message.isSome →
      wellShaped v = true ∨ typeOf v ∉ st.watchers
  | .connect | .watch _ | .unwatch _ | .readFailed => True

instance (st : MessageReads) (op : MessageOp) : Decidable (st.Presentable parse op) :=
  match op with
  | .connect | .watch _ | .unwatch _ | .read .. | .readFailed => by
    dsimp only [Presentable]
    infer_instance

variable {parse} {st : MessageReads} {m : InboundMessage} {now later : TimestampType}
  {chunks : List String} {v : Json} {op : MessageOp}

/-- The object under the first key, when there is one. -/
def objectOf : Json → Option JsonObject
  | .object ((_, inner) :: _) => inner.ifObject
  | _ => none

theorem receive_chunks (chunks : List String) (m : InboundMessage) :
    chunks.foldl InboundMessage.receive m = { m with buffer := m.buffer ++ String.join chunks } := by
  induction chunks generalizing m with
  | nil => simp
  | cons chunk chunks ih =>
    rw [List.foldl_cons, ih, String.join_cons, ← String.append_assoc]
    rfl

/-- What was in the message before plays no part. -/
theorem readInto_eq (m : InboundMessage) (now later : TimestampType) (chunks : List String) :
    readInto parse m now chunks later = InboundMessage.commit parse
      { timestamp := now, buffer := String.join chunks } later := by
  rw [readInto, receive_chunks]
  simp [InboundMessage.prepare]

theorem view_readInto (m : InboundMessage) (now later : TimestampType) (chunks : List String) :
    (readInto parse m now chunks later).1.view = String.join chunks := by
  rw [readInto_eq]
  simp only [InboundMessage.commit, InboundMessage.view]
  split
  · rfl
  · split <;> rfl

theorem readInto_none (hParse : parse (String.join chunks) = none) :
    (readInto parse m now chunks later).2 = false := by
  rw [readInto_eq]
  simp [InboundMessage.commit, InboundMessage.view, hParse]

theorem readInto_some (hParse : parse (String.join chunks) = some v) :
    (readInto parse m now chunks later).2 = true ∧
      (readInto parse m now chunks later).1.type = typeOf v ∧
      (readInto parse m now chunks later).1.object = objectOf v := by
  rw [readInto_eq]
  simp only [InboundMessage.commit, InboundMessage.view, hParse]
  cases v with
  | null | bool | number | string | array => exact ⟨rfl, rfl, rfl⟩
  | object fields =>
    cases fields with
    | nil => exact ⟨rfl, rfl, rfl⟩
    | cons field rest => exact ⟨rfl, rfl, rfl⟩

/-- A message with the type and the object of a JSON value shows its text when that has an object
under its first key. -/
theorem shows_iff (hParse : parse (String.join chunks) = some v) (hType : m.type = typeOf v)
    (hObject : m.object = objectOf v) : Shows parse (String.join chunks) m ↔ wellShaped v = true := by
  constructor
  · rintro ⟨key, inner, rest, hText, -, -⟩
    obtain rfl := Option.some.inj (hParse.symm.trans hText)
    rfl
  · intro hShape
    match v, hShape with
    | .object ((key, .object inner) :: rest), _ =>
      exact ⟨key, inner, rest, hParse, hType, hObject⟩

theorem mem_handleMessage {m' : InboundMessage} :
    m' ∈ st.handleMessage m ↔ m' = m ∧ m.type ∈ st.watchers := by
  simp only [handleMessage, List.mem_map, List.mem_filter, decide_eq_true_eq]
  constructor
  · rintro ⟨w, ⟨hw, rfl⟩, rfl⟩
    exact ⟨rfl, hw⟩
  · rintro ⟨rfl, hw⟩
    exact ⟨_, ⟨hw, rfl⟩, rfl⟩

/-- The step lemma. -/
theorem delivers_iff (st : MessageReads) (op : MessageOp) :
    st.Presentable parse op ↔ Delivers parse st op (st.step parse op) := by
  cases op with
  | connect | watch | unwatch | readFailed => exact ⟨fun _ => rfl, fun _ => trivial⟩
  | read now chunks later =>
    simp only [Presentable, Delivers, step]
    cases hMessage : st.message with
    | none => simp
    | some m =>
      cases hParse : parse (String.join chunks) with
      | none => simp [readInto_none hParse]
      | some v =>
        obtain ⟨hParsed, hType, hObject⟩ :
            (readInto parse m now chunks later).2 = true ∧
              (readInto parse m now chunks later).1.type = typeOf v ∧
              (readInto parse m now chunks later).1.object = objectOf v := readInto_some hParse
        simp only [hParsed, if_true, mem_handleMessage, Option.mem_some, forall_eq',
          Option.isSome_some, forall_const]
        rw [← shows_iff hParse hType hObject, ← hType]
        constructor
        · rintro (hShows | hNobody) m' ⟨rfl, hWatched⟩
          · exact hShows
          · exact absurd hWatched hNobody
        · intro hAll
          by_cases hWatched : (readInto parse m now chunks later).1.type ∈ st.watchers
          · exact .inl (hAll _ ⟨rfl, hWatched⟩)
          · exact .inr hWatched

/-- In a run every message that reaches a watcher shows its text exactly when every text that is
parsed has an object under its first key or finds no watcher. -/
theorem reads_run_iff (parse : String → Option Json) (ops : List MessageOp) :
    Safe (always (step parse)) (Delivers parse) {} ops ↔
      Along (always (step parse)) (Presentable parse) {} ops := by
  refine safe_iff_of_run (I := fun _ => True) ?_ (fun _ _ _ _ _ _ => trivial) trivial
    (run_always _ _ _)
  intro st op st' _ hStep
  obtain rfl := Option.some.inj hStep
  exact delivers_iff st op

/-- A parser that knows one text: a number where the order should be. -/
def sampleParse (s : String) : Option Json :=
  if s = "\x7b\"order_added\": 5\x7d" then some (.object [("order_added", .number 5)]) else none

/-- The watcher of `order_added` gets the message with a null object. -/
theorem nullObject_not_delivers : ¬ Safe (always (step sampleParse)) (Delivers sampleParse) {}
    [.connect, .watch "order_added", .read 1 ["\x7b\"order_added\"", ": 5\x7d"] 2] := by
  rintro ⟨st₁, h₁, -, st₂, h₂, -, st₃, h₃, hDelivers, -⟩
  obtain rfl := Option.some.inj h₁
  obtain rfl := Option.some.inj h₂
  obtain rfl := Option.some.inj h₃
  exact absurd ((delivers_iff _ _).mpr hDelivers) (by decide +kernel)

end MessageReads

end Arby.PowerTrade
