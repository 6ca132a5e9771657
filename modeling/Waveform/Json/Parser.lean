import Waveform.Json.Token

/-!
# Reading JSON

The tokens of a text are put together by a machine with a stack. The stack holds the
containers that are still open, from the innermost out, each with what it has so far, and
`Expects` says what may come next. Every token is looked at once, so that the machine
needs no bound on the depth of the text.

A key that occurs again within an object replaces its earlier value.
-/

namespace Waveform.Json

/-- A container that is still open. -/
inductive Container where
  /-- An array, with its elements so far, the last one first. -/
  | array (elements : List Json)
  /-- An object, with its members so far and the key whose value comes next. -/
  | object (members : List (String × Json)) (key : String)

/-- What may come next in a text whose `Container`s are open. -/
inductive Expects where
  /-- A value. -/
  | value
  /-- The first element of an array, or its end. -/
  | firstElement
  /-- A key. -/
  | key (members : List (String × Json))
  /-- The first key of an object, or its end. -/
  | firstKey
  /-- The colon after a key. -/
  | colon (members : List (String × Json)) (key : String)
  /-- A comma, or the end of the innermost container. -/
  | separator
  /-- Nothing, since the value is complete. -/
  | nothing (result : Json)

/-- The open `Container`s, the innermost first, and what may come next. -/
structure Progress where
  stack : List Container := []
  expects : Expects := .value

namespace Progress

/-- Puts a complete value where it belongs: into the innermost `Container`, if there is one. -/
def complete (stack : List Container) (value : Json) : Progress :=
  match stack with
  | [] => { expects := .nothing value }
  | .array elements :: stack =>
    { stack := .array (value :: elements) :: stack, expects := .separator }
  | .object members key :: stack =>
    { stack := .object (setMember key value members) key :: stack, expects := .separator }

/-- Takes a `Token` where a value may begin. -/
def begin? (stack : List Container) : Token → Option Progress
  | .value value => some (complete stack value)
  | .openArray => some { stack := .array [] :: stack, expects := .firstElement }
  | .openObject => some { stack := stack, expects := .firstKey }
  | _ => none

/-- Takes the **next token**, if it is one that `Expects` allows. -/
def step? (p : Progress) (token : Token) : Option Progress :=
  match p.expects, token, p.stack with
  | .value, token, stack => begin? stack token
  | .firstElement, .closeArray, .array [] :: stack => some (complete stack (.arr []))
  | .firstElement, token, stack => begin? stack token
  | .firstKey, .closeObject, stack => some (complete stack (.obj []))
  | .firstKey, .value (.str key), stack => some { stack := stack, expects := .colon [] key }
  | .key members, .value (.str key), stack =>
    some { stack := stack, expects := .colon members key }
  | .colon members key, .colon, stack => some { stack := .object members key :: stack }
  | .separator, .comma, .array elements :: stack => some { stack := .array elements :: stack }
  | .separator, .closeArray, .array elements :: stack =>
    some (complete stack (.arr elements.reverse))
  | .separator, .comma, .object members _ :: stack =>
    some { stack := stack, expects := .key members }
  | .separator, .closeObject, .object members _ :: stack => some (complete stack (.obj members))
  | _, _, _ => none

/-- The value that has been read, if `Expects.nothing` is left. -/
def result? (p : Progress) : Option Json :=
  match p.expects with
  | .nothing result => some result
  | _ => none

end Progress

/-- The value that a list of tokens denotes: `step?` for each of them, then `result?`. -/
def ofTokens? (tokens : List Token) : Option Json :=
  (tokens.foldlM Progress.step? {}).bind Progress.result?

/-- Reads a **JSON text**: `Token.scan?`, then `ofTokens?`. -/
def parse? (text : String) : Option Json := (Token.scan? text).bind ofTokens?

end Waveform.Json
