import Waveform.Interchange.Records

/-!
# Histories and Signals in JSON

A history is written as the list of its changes. Reading one goes through
`History.ofList`, so that no text can give a history whose times decrease: a list of
well-formed changes that is out of order is refused, with the reason that recording it
would have given.

There are two ways to fail, then. A text is **malformed** if it does not have the form of
what is read, and a malformed change makes the whole list malformed. It is out of order
if it has that form, up to the order of its changes.
-/

namespace Waveform

/-- Why a history cannot be read. -/
inductive ReadError where
  /-- The value does not have the form of what is read. -/
  | malformed
  /-- The changes are well formed, and `History.ofList` does not accept them. -/
  | outOfOrder (why : OutOfOrder)
  deriving DecidableEq

namespace ReadError

/-- A missing result is due to a `malformed` value. -/
def ofOption {α : Type} : Option α → Except ReadError α
  | some a => .ok a
  | none => .error .malformed

end ReadError

namespace History

/-- A history is written as its `toList`. -/
def toJson (h : History) : Json := .arr (h.toList.map Change.toJson)

/-- Reads a list of changes, which must be in order as for `History.ofList`. -/
def ofJson : Json → Except ReadError History
  | .arr js =>
    match Json.elements? Change.ofJson? js with
    | none => .error .malformed
    | some changes =>
      match ofList changes with
      | .error why => .error (.outOfOrder why)
      | .ok h => .ok h
  | _ => .error .malformed

end History

namespace Signal

/-- A signal is written as a record. -/
def toJson (s : Signal) : Json :=
  .obj [("name", .str s.name), ("msi", .int s.msi.toInt), ("lsi", .int s.lsi.toInt),
    ("history", s.history.toJson)]

/-- Reads the name and the range of a signal. -/
def header? (name msi lsi : Json) : Option (String × Int32 × Int32) :=
  match name.string?, msi.int32?, lsi.int32? with
  | some name, some msi, some lsi => some (name, msi, lsi)
  | _, _, _ => none

/-- Reads a signal that is written as an object. The history is read before the other
fields, so that its error is the one that is reported. -/
def ofMembers (members : List (String × Json)) : Except ReadError Signal :=
  match members.lookup "history" with
  | none => .error .malformed
  | some j =>
    match History.ofJson j with
    | .error e => .error e
    | .ok history =>
      match Json.membersOf? members ["name", "msi", "lsi"] with
      | some [name, msi, lsi] =>
        ReadError.ofOption ((header? name msi lsi).map fun (name, msi, lsi) =>
          ⟨name, msi, lsi, history⟩)
      | _ => .error .malformed

/-- Reads a signal that is written as an array, from the front: the `header?`, then the history.
Elements that are left over are noticed last. -/
def ofElements : List Json → Except ReadError Signal
  | name :: msi :: lsi :: j :: rest =>
    match header? name msi lsi with
    | none => .error .malformed
    | some (name, msi, lsi) =>
      match History.ofJson j with
      | .error e => .error e
      | .ok history => if rest.isEmpty then .ok ⟨name, msi, lsi, history⟩ else .error .malformed
  | _ => .error .malformed

/-- Reads a signal, by `ofMembers` or `ofElements`. -/
def ofJson : Json → Except ReadError Signal
  | .obj members => ofMembers members
  | .arr elements => ofElements elements
  | _ => .error .malformed

end Signal

end Waveform
