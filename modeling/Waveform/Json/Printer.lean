import Waveform.Json

/-!
# Writing JSON

A value is written on one line without blanks. Within strings, quotes, backslashes and
control characters are escaped. A real always has a fraction, so that it is read back as
a real, and what is no finite number is written as null.
-/

namespace Waveform.Json

/-- The four hexadecimal digits of a control character. -/
def controlDigits (c : Char) : String :=
  let digits := Nat.toDigits 16 c.toNat
  String.ofList (List.replicate (4 - digits.length) '0' ++ digits)

/-- Writes one character of a string. -/
def printChar (out : String) (c : Char) : String :=
  if c = '"' then out ++ "\\\""
  else if c = '\\' then out ++ "\\\\"
  else if c < ' ' then out ++ "\\u" ++ controlDigits c
  else out.push c

/-- Writes a string in quotes, with `printChar` for each of its characters. -/
def printString (out : String) (s : String) : String :=
  (s.toList.foldl printChar (out.push '"')).push '"'

/-- Writes a real by `Binary64.text`, always with a fraction. One that is not finite is written
as null. -/
def realText (x : Binary64) : String :=
  if x.isNaN || x.isInfinite then "null"
  else
    let text := x.text
    if text.toList.contains '.' then text else text ++ ".0"

mutual

/-- Writes a value behind what has been written before. -/
def print (out : String) : Json → String
  | .null => out ++ "null"
  | .bool true => out ++ "true"
  | .bool false => out ++ "false"
  | .int n => out ++ toString n
  | .real x => out ++ realText x
  | .str s => printString out s
  | .arr elements => (printElements (out.push '[') true elements).push ']'
  | .obj members => (printMembers (out.push '\x7b') true members).push '\x7d'

/-- Writes the elements of an array, with a comma before all but the first. -/
def printElements (out : String) (first : Bool) : List Json → String
  | [] => out
  | value :: rest => printElements (print (if first then out else out.push ',') value) false rest

/-- Writes the members of an object, with a comma before all but the first. -/
def printMembers (out : String) (first : Bool) : List (String × Json) → String
  | [] => out
  | (key, value) :: rest =>
    let keyed := (printString (if first then out else out.push ',') key).push ':'
    printMembers (print keyed value) false rest

end

/-- The **text of a value**: what `print` writes behind nothing. -/
def text (j : Json) : String := print "" j

end Waveform.Json
