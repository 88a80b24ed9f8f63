import Arby.PowerTrade.TickDecoding
import Mathlib.Data.List.TakeWhile

/-! What a payload says, field by field, and what the decoding makes of it: the readings of the
decoding, in their order, tell its outcome. -/

namespace Arby.PowerTrade

open Trading Kit

section Decode

variable (number : String → Option ℚ) (fromString : String → Option SideType)

/-! ### What the payload says -/

/-- The text of a number has no NUL. -/
def numberText (v : Json) : Option String := do
  let s ← v.ifString
  if plain s then return s else none

def priceOf (v : Json) : Option PriceType := numberText v >>= number

def sideOf (v : Json) : Option SideType := v.ifString >>= fromString

/-- A timestamp is a number of `long`, and nothing else comes after it. -/
def timestampOf (v : Json) : Option TimestampType := do
  let s ← numberText v
  let t := LongText.scan s
  if t.whole && t.fits then return t.value else none

def snapshotAddOf (side : SideType) (e : Json) : Option Add := do
  let oe ← e.ifObject
  let orderId ← oe.ifContains "orderid" >>= Json.ifString
  let price ← oe.ifContains "price" >>= priceOf number
  let qty ← oe.ifContains "quantity" >>= priceOf number
  let timestamp ← oe.ifContains "utc_timestamp" >>= timestampOf
  return { orderId, price, qty, timestamp, side }

def snapshotOf (p : JsonObject) : Option Snapshot := do
  let buy ← p.ifContains "buy" >>= Json.ifArray
  let bids ← buy.mapM (snapshotAddOf number .buy)
  let sell ← p.ifContains "sell" >>= Json.ifArray
  let offers ← sell.mapM (snapshotAddOf number .sell)
  return .ofSides bids offers

/-- The record whose every field is the value of the field of the payload, `none` when one of them
has none. -/
def recordOf (code : TickCode) (p : JsonObject) : Option TickRecord :=
  match code with
  | .add => do
    let orderId ← p.ifContains "order_id" >>= Json.ifString
    let price ← p.ifContains "price" >>= priceOf number
    let qty ← p.ifContains "quantity" >>= priceOf number
    let timestamp ← p.ifContains "utc_timestamp" >>= timestampOf
    let side ← p.ifContains "side" >>= sideOf fromString
    return .add { orderId, price, qty, timestamp, side }
  | .remove => do
    let orderId ← p.ifContains "order_id" >>= Json.ifString
    let timestamp ← p.ifContains "utc_timestamp" >>= timestampOf
    let side ← p.ifContains "side" >>= sideOf fromString
    return .remove { orderId, timestamp, side }
  | .execute => do
    let orderId ← p.ifContains "order_id" >>= Json.ifString
    let price ← p.ifContains "price" >>= priceOf number
    let qty ← p.ifContains "quantity" >>= priceOf number
    let timestamp ← p.ifContains "utc_timestamp" >>= timestampOf
    let side ← p.ifContains "side" >>= sideOf fromString
    return .execute { orderId, price, qty, timestamp, side }
  | .snapshot => do
    let s ← snapshotOf number p
    return .snapshot s

/-! ### The readings -/

/-- The reading of a text, which any other value refuses. -/
def textReading (f : String → Reading) (v : Json) : Reading := v.ifString.elim .refused f

/-- A number that is refused throws, and one that is not may be cut short by a NUL. -/
def numberReading : Json → Reading :=
  textReading fun s =>
    if (number (cStr s)).isNone then .refused
    else if plain s then .good
    else .replaced

/-- A timestamp is never refused. -/
def timestampReading : Json → Reading :=
  textReading fun s =>
    if (LongText.scan (cStr s)).fits then
      if plain s && (LongText.scan s).whole then .good else .replaced
    else .undefined

/-- An unknown side dereferences an empty optional. -/
def sideReading : Json → Reading :=
  textReading fun s => if (fromString s).isSome then .good else .undefined

def fieldReading (p : JsonObject) (key : String) (f : Json → Reading) : Reading :=
  (p.ifContains key).elim .refused f

def snapshotAddReadings (e : Json) : List Reading :=
  match e.ifObject with
  | none => [.refused]
  | some oe =>
    [fieldReading oe "orderid" (textReading fun _ => .good),
      fieldReading oe "price" (numberReading number),
      fieldReading oe "quantity" (numberReading number),
      fieldReading oe "utc_timestamp" timestampReading]

def arrayReadings (p : JsonObject) (key : String) : List Reading :=
  match p.ifContains key >>= Json.ifArray with
  | none => [.refused]
  | some es => es.flatMap (snapshotAddReadings number)

/-- The readings of the decoding of `p`, in their order. -/
def readings (code : TickCode) (p : JsonObject) : List Reading :=
  match code with
  | .add | .execute =>
    [fieldReading p "order_id" (textReading fun _ => .good),
      fieldReading p "price" (numberReading number),
      fieldReading p "quantity" (numberReading number),
      fieldReading p "utc_timestamp" timestampReading,
      fieldReading p "side" (sideReading fromString)]
  | .remove =>
    [fieldReading p "order_id" (textReading fun _ => .good),
      fieldReading p "utc_timestamp" timestampReading,
      fieldReading p "side" (sideReading fromString)]
  | .snapshot => arrayReadings number p "buy" ++ arrayReadings number p "sell"

end Decode

/-! ### The readings tell the outcome -/

section Tracks

variable {number : String → Option ℚ} {fromString : String → Option SideType} {α : Type}

theorem cStr_of_plain {s : String} (h : plain s = true) : cStr s = s := by
  have hAll : s.toList.takeWhile (· ≠ Char.ofNat 0) = s.toList := by
    rw [List.takeWhile_eq_self_iff]
    exact List.all_eq_true.mp h
  rw [cStr, hAll, String.ofList_toList]

/-- A decoder of texts. -/
theorem tracks_text {f : String → Outcome α} {g : String → Option α} {r : String → Reading}
    (h : ∀ s, Tracks (f s) (g s) [r s]) (v : Json) :
    Tracks (v.asString >>= f) (v.ifString >>= g) [textReading r v] := by
  unfold Json.asString textReading
  cases v.ifString with
  | none => exact ⟨rfl, rfl⟩
  | some s => exact h s

theorem tracks_string (v : Json) :
    Tracks v.asString v.ifString [textReading (fun _ => .good) v] := by
  unfold Json.asString textReading
  cases v.ifString with
  | none => exact ⟨rfl, rfl⟩
  | some s => exact ⟨s, rfl, rfl⟩

theorem tracks_price (v : Json) : Tracks (toPrice number v) (priceOf number v)
    [numberReading number v] := by
  have hOf : priceOf number v =
      v.ifString >>= fun s => (if plain s then some s else none) >>= number := by
    unfold priceOf numberText
    cases v.ifString <;> rfl
  rw [hOf]
  refine tracks_text (fun s => ?_) v
  cases hNumber : number (cStr s) with
  | none =>
    refine ⟨rfl, ?_⟩
    cases hPlain : plain s with
    | false => rfl
    | true => simpa [cStr_of_plain hPlain] using hNumber
  | some x =>
    cases hPlain : plain s with
    | false => exact ⟨⟨x, rfl⟩, rfl⟩
    | true => exact ⟨x, rfl, by simpa [cStr_of_plain hPlain] using hNumber⟩

theorem tracks_side (v : Json) : Tracks (toSide fromString v) (sideOf fromString v)
    [sideReading fromString v] := by
  refine tracks_text (fun s => ?_) v
  cases fromString s with
  | none => exact ⟨rfl, rfl⟩
  | some d => exact ⟨d, rfl, rfl⟩

theorem tracks_timestamp (v : Json) : Tracks (toTimestamp v) (timestampOf v)
    [timestampReading v] := by
  have hOf : timestampOf v = v.ifString >>= fun s =>
      if plain s && (LongText.scan s).whole && (LongText.scan s).fits then
        some (LongText.scan s).value
      else none := by
    unfold timestampOf numberText
    cases v.ifString with
    | none => rfl
    | some s => cases hPlain : plain s <;> simp [hPlain]
  rw [hOf]
  refine tracks_text (fun s => ?_) v
  cases hFits : (LongText.scan (cStr s)).fits with
  | false =>
    refine ⟨by simp [atol, hFits], ?_⟩
    cases hPlain : plain s with
    | false => rfl
    | true =>
      rw [cStr_of_plain hPlain] at hFits
      simp [hFits]
  | true =>
    have hReturns : atol (cStr s) = .ok (LongText.scan (cStr s)).value := by simp [atol, hFits]
    simp only [if_true]
    cases hWhole : plain s && (LongText.scan s).whole with
    | false => exact ⟨⟨_, hReturns⟩, rfl⟩
    | true =>
      rw [cStr_of_plain (Bool.and_eq_true_iff.mp hWhole).1] at hReturns hFits ⊢
      exact ⟨_, hReturns, by simp [hFits]⟩

theorem tracks_field {dec : Json → Outcome α} {strict : Json → Option α} {r : Json → Reading}
    (h : ∀ v, Tracks (dec v) (strict v) [r v]) (p : JsonObject) (key : String) :
    Tracks (p.fieldAt key >>= dec) (p.ifContains key >>= strict) [fieldReading p key r] := by
  unfold JsonObject.fieldAt fieldReading
  cases p.ifContains key with
  | none => exact ⟨rfl, rfl⟩
  | some v => exact h v

theorem tracks_snapshotAdd (side : SideType) (e : Json) :
    Tracks (snapshotAdd number side e) (snapshotAddOf number side e)
      (snapshotAddReadings number e) := by
  unfold snapshotAdd snapshotAddOf snapshotAddReadings Json.asObject
  cases e.ifObject with
  | none => exact ⟨rfl, rfl⟩
  | some oe =>
    exact (tracks_field tracks_string oe "orderid").bind fun _ =>
      (tracks_field tracks_price oe "price").bind fun _ =>
        (tracks_field tracks_price oe "quantity").bind fun _ =>
          (tracks_field tracks_timestamp oe "utc_timestamp").bind fun _ => .pure _

theorem tracks_array (side : SideType) (p : JsonObject) (key : String) :
    Tracks ((p.fieldAt key >>= Json.asArray) >>= List.mapM (snapshotAdd number side))
      ((p.ifContains key >>= Json.ifArray) >>= List.mapM (snapshotAddOf number side))
      (arrayReadings number p key) := by
  have hField : p.fieldAt key >>= Json.asArray =
      (p.ifContains key >>= Json.ifArray).elim .throws .ok := by
    unfold JsonObject.fieldAt Json.asArray
    cases p.ifContains key <;> rfl
  rw [hField]
  unfold arrayReadings
  cases p.ifContains key >>= Json.ifArray with
  | none => exact ⟨rfl, rfl⟩
  | some es => exact Tracks.mapM (tracks_snapshotAdd side) es

theorem tracks_record (code : TickCode) (p : JsonObject) :
    Tracks (construct2 number fromString code p) (recordOf number fromString code p)
      (readings number fromString code p) := by
  cases code with
  | add | execute =>
    exact (tracks_field tracks_string p "order_id").bind fun _ =>
      (tracks_field tracks_price p "price").bind fun _ =>
        (tracks_field tracks_price p "quantity").bind fun _ =>
          (tracks_field tracks_timestamp p "utc_timestamp").bind fun _ =>
            (tracks_field tracks_side p "side").bind fun _ => .pure _
  | remove =>
    exact (tracks_field tracks_string p "order_id").bind fun _ =>
      (tracks_field tracks_timestamp p "utc_timestamp").bind fun _ =>
        (tracks_field tracks_side p "side").bind fun _ => .pure _
  | snapshot =>
    have hCode : construct2 number fromString .snapshot p =
        ((p.fieldAt "buy" >>= Json.asArray) >>= List.mapM (snapshotAdd number .buy)) >>= fun bids =>
          ((p.fieldAt "sell" >>= Json.asArray) >>= List.mapM (snapshotAdd number .sell)) >>=
            fun offers => .ok (.snapshot (.ofSides bids offers)) := by
      simp only [construct2, makeSnapshot, bind_assoc, pure_bind]
      rfl
    have hSays : recordOf number fromString .snapshot p =
        ((p.ifContains "buy" >>= Json.ifArray) >>= List.mapM (snapshotAddOf number .buy)) >>=
          fun bids =>
            ((p.ifContains "sell" >>= Json.ifArray) >>= List.mapM (snapshotAddOf number .sell)) >>=
              fun offers => some (.snapshot (.ofSides bids offers)) := by
      simp only [recordOf, snapshotOf, bind_assoc, pure_bind]
      rfl
    rw [hCode, hSays]
    refine (tracks_array .buy p "buy").bind fun bids => ?_
    have hArray : Tracks ((p.fieldAt "sell" >>= Json.asArray) >>= List.mapM (snapshotAdd number .sell))
        ((p.ifContains "sell" >>= Json.ifArray) >>= List.mapM (snapshotAddOf number .sell))
        (arrayReadings number p "sell") := tracks_array .sell p "sell"
    have hSell := hArray.bind fun offers => .pure (TickRecord.snapshot (.ofSides bids offers))
    rwa [List.append_nil] at hSell

end Tracks

/-- The decoding throws, and then leaves the listener as it is, or it gives the record that the
payload says. -/
def Decodes (number : String → Option ℚ) (fromString : String → Option SideType) (code : TickCode)
    (p : JsonObject) : Prop :=
  (construct2 number fromString code p = .throws ∧
    ∀ (l : OrderbookListenerImpl) (now : TimestampType),
      l.handleTick number fromString code p now = .ok l) ∨
  ∃ tick, construct2 number fromString code p = .ok tick ∧
    recordOf number fromString code p = some tick

/-- For every payload the decoding is right exactly when it reads every field for what it is, or
throws before it looks at a side that is unknown or at a timestamp beyond `long`. -/
theorem decodes_iff (number : String → Option ℚ) (fromString : String → Option SideType)
    (code : TickCode) (p : JsonObject) : Decodes number fromString code p ↔
      (∀ r ∈ readings number fromString code p, r = .good) ∨
      ∃ pre post, readings number fromString code p = pre ++ .refused :: post ∧
        Reading.undefined ∉ pre := by
  rw [← (tracks_record code p).sound_iff]
  refine or_congr ⟨fun h => h.1, fun h => ⟨h, fun l now => ?_⟩⟩ Iff.rfl
  simp only [OrderbookListenerImpl.handleTick, h]

/-- The texts of the samples: one number, and the names of the sides. -/
def sampleNumber (s : String) : Option ℚ := if s = "39628" then some 39628 else none

def sampleSide (s : String) : Option SideType :=
  if s = "buy" then some .buy else if s = "sell" then some .sell else none

def orderAdded (timestamp side : String) : JsonObject :=
  [("order_id", .string "1"), ("price", .string "39628"), ("quantity", .string "39628"),
    ("utc_timestamp", .string timestamp), ("side", .string side)]

/-- An order without a known side is undefined behaviour, and one without a timestamp is read as one
of 1970. -/
theorem unknownSide_not_decodes :
    ¬ Decodes sampleNumber sampleSide .add (orderAdded "1" "up") ∧
    ¬ Decodes sampleNumber sampleSide .add (orderAdded "soon" "buy") := by
  have hUndefined : construct2 sampleNumber sampleSide .add (orderAdded "1" "up") = .undefined := by
    decide +kernel
  have hEpoch : construct2 sampleNumber sampleSide .add (orderAdded "soon" "buy") =
      .ok (.add ⟨"1", 39628, 39628, 0, .buy⟩) := by
    decide +kernel
  have hNone : (recordOf sampleNumber sampleSide .add (orderAdded "soon" "buy")).isNone = true := by
    decide +kernel
  constructor
  · rintro (⟨hThrows, -⟩ | ⟨tick, hOk, -⟩)
    · cases hUndefined.symm.trans hThrows
    · cases hUndefined.symm.trans hOk
  · rintro (⟨hThrows, -⟩ | ⟨tick, -, hSays⟩)
    · cases hEpoch.symm.trans hThrows
    · rw [hSays] at hNone
      cases hNone

end Arby.PowerTrade
