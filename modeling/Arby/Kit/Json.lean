import Arby.Kit.Outcome
import Mathlib.Data.List.Basic

/-! JSON values, with the access to them that asks and the access that throws. -/

namespace Kit

/-- A JSON value. The kinds of numbers are not told apart. -/
inductive Json
  | null
  | bool (b : Bool)
  | number (x : Rat)
  | string (s : String)
  | array (elements : List Json)
  | object (fields : List (String × Json))

abbrev JsonObject := List (String × Json)

namespace Json

def ifString : Json → Option String
  | string s => some s
  | _ => none

def ifObject : Json → Option JsonObject
  | object fields => some fields
  | _ => none

def ifArray : Json → Option (List Json)
  | array elements => some elements
  | _ => none

def asString (v : Json) : Outcome String := v.ifString.elim .throws .ok

def asObject (v : Json) : Outcome JsonObject := v.ifObject.elim .throws .ok

def asArray (v : Json) : Outcome (List Json) := v.ifArray.elim .throws .ok

end Json

/-- The field `key`, `none` when the object has none. -/
def JsonObject.ifContains (o : JsonObject) (key : String) : Option Json := o.lookup key

/-- `at`, which throws when the object has no field `key`. -/
def JsonObject.fieldAt (o : JsonObject) (key : String) : Outcome Json :=
  (o.ifContains key).elim .throws .ok

end Kit
