import Waveform.Binary64.Decimal

/-!
# JSON Values

The tree of a JSON text. A number keeps the way in which it was written: a whole number
without fraction and exponent is an integer, and every other number is a real. The
members of an object are listed in the order in which their keys first occur, and every
key occurs once.
-/

namespace Waveform

/-- A JSON value. -/
inductive Json where
  | null
  | bool (value : Bool)
  /-- A number written without a fraction and without an exponent. -/
  | int (value : Int)
  /-- Any other number, as a `Binary64`. -/
  | real (value : Binary64)
  | str (value : String)
  | arr (elements : List Json)
  | obj (members : List (String × Json))
  deriving Inhabited

namespace Json

/-- Gives a key its value. A key that is there already keeps its place and loses its old
value. -/
def setMember (key : String) (value : Json) : List (String × Json) → List (String × Json)
  | [] => [(key, value)]
  | (k, v) :: members =>
    if k = key then (key, value) :: members else (k, v) :: setMember key value members

/-- The value of a key of an object, and `none` for every other value. -/
def member? (key : String) : Json → Option Json
  | obj members => members.lookup key
  | _ => none

/-- The values of several keys, in their order, if the object has all of them; `member?` is the
case of one. -/
def membersOf? (members : List (String × Json)) : List String → Option (List Json)
  | [] => some []
  | key :: keys =>
    match members.lookup key, membersOf? members keys with
    | some value, some values => some (value :: values)
    | _, _ => none

/-- The fields of a record: the values of its keys if it is written as an object, where
other keys are ignored, or the elements of an array of exactly as many. -/
def fields? (keys : List String) : Json → Option (List Json)
  | obj members => membersOf? members keys
  | arr elements => if elements.length = keys.length then some elements else none
  | _ => none

/-- The name of a case without data: the name itself, or an object that maps the name to
`Json.null`. -/
def caseName? : Json → Option String
  | str name => some name
  | obj [(name, null)] => some name
  | _ => none

end Json

end Waveform
