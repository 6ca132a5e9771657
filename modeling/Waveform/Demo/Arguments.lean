import Waveform.Change
import Waveform.Text.Pieces

/-!
# Arguments of the Demonstration

The demonstration takes three options with values and three flags:

* `--end TIME`, the last time of the testbench;
* `--step N`, the distance between two rows of the table;
* `--at TIME,TIME,…`, the times of single readings, which may be given several times;
* `--changes`, to have a row for every change;
* `--propagate-unknown`, to read vectors with non-binary bits as texts;
* `--single-thread`, to answer queries one after the other.

A value follows its option as the next argument or after an equals sign. In the first
form it must not begin with a minus sign. There are two more options, which only ask for a
text: `--help` and `--version`, or `-h` and `-V` for short. A lone `--` ends the options, and
nothing may follow it.

`Arguments.front` says what one argument is, and `Arguments.parse` reads all of them from the
left. The first argument that is wrong, or that asks for a text, ends the reading.
-/

namespace Waveform.Demo

/-- What the demonstration is asked to do. -/
structure Arguments where
  /-- The last time of the testbench. -/
  last : Time := 30
  /-- The distance between two rows of the table. -/
  step : Nat := 5
  /-- The times of single readings. -/
  readings : List Time := [7, 20]
  /-- There is a row for every change instead. -/
  changes : Bool := false
  /-- Vectors with non-binary bits are read as texts. -/
  propagateUnknown : Bool := false
  /-- Queries are answered one after the other. -/
  singleThread : Bool := false
  deriving DecidableEq

/-- How the reading of arguments ends in `parse`. -/
inductive Request where
  /-- The arguments are in order. -/
  | report (arguments : Arguments)
  /-- The help is asked for. -/
  | help
  /-- The version is asked for. -/
  | version
  /-- Some argument is wrong. -/
  | invalid
  deriving DecidableEq

/-- The options with values, of which `Arguments` has one field each. -/
inductive ValueOption where
  | last
  | step
  | readings
  deriving DecidableEq

/-- The options without values. -/
inductive Flag where
  | changes
  | propagateUnknown
  | singleThread
  deriving DecidableEq

/-- The value of a `ValueOption`. -/
inductive Setting where
  | last (time : Time)
  | step (count : Nat)
  | readings (times : List Time)

/-- The options that have been read so far. -/
structure Given where
  last? : Option Time := none
  step? : Option Nat := none
  readings? : Option (List Time) := none
  flags : List Flag := []

namespace Given

/-- The `Arguments`, with their usual values for options that were not given. -/
def arguments (g : Given) : Arguments :=
  { last := g.last?.getD 30
    step := g.step?.getD 5
    readings := g.readings?.getD [7, 20]
    changes := g.flags.contains .changes
    propagateUnknown := g.flags.contains .propagateUnknown
    singleThread := g.flags.contains .singleThread }

/-- Sets a `Flag` that has not been set before. -/
def setFlag? (g : Given) (flag : Flag) : Option Given :=
  if g.flags.contains flag then none else some { g with flags := flag :: g.flags }

/-- Sets an option. `readings` add up, and any other option can be set only once. -/
def set? (g : Given) : Setting → Option Given
  | .last time => if g.last?.isSome then none else some { g with last? := some time }
  | .step count => if g.step?.isSome then none else some { g with step? := some count }
  | .readings times => some { g with readings? := some (g.readings?.getD [] ++ times) }

end Given

namespace Arguments

/-- Reads a list of times with commas between them, each by `Text.int64?`. -/
def times? : List (List Char) → Option (List Time)
  | [] => some []
  | piece :: pieces =>
    match Text.int64? piece, times? pieces with
    | some time, some times => some (time :: times)
    | _, _ => none

/-- Reads the value of an option: `times?` for the readings, a single number for the others. -/
def setting? (value : List Char) : ValueOption → Option Setting
  | .last => (Text.int64? value).map .last
  | .step => (Text.uint64? value).map .step
  | .readings => (times? (Text.splitOn ',' value)).map .readings

/-- The option with a value that has this name. -/
def valueOption? : String → Option ValueOption
  | "--end" => some .last
  | "--step" => some .step
  | "--at" => some .readings
  | _ => none

/-- The flag that has this name. -/
def flag? : String → Option Flag
  | "--changes" => some .changes
  | "--propagate-unknown" => some .propagateUnknown
  | "--single-thread" => some .singleThread
  | _ => none

/-- Cuts an argument at its first equals sign. -/
def cut (argument : List Char) : String × Option (List Char) :=
  let name := argument.takeWhile (· ≠ '=')
  match argument.drop name.length with
  | [] => (String.ofList name, none)
  | _ :: value => (String.ofList name, some value)

/-- What an argument is when it is its turn. -/
inductive Front where
  /-- The end of all options. -/
  | finish
  /-- The help is asked for. -/
  | help
  /-- The version is asked for. -/
  | version
  /-- The argument is wrong. -/
  | invalid
  /-- An option with a value, which may be attached to it. -/
  | value (option : ValueOption) (attached? : Option (List Char))
  /-- An option without a value. -/
  | flag (flag : Flag)

/-- What an argument is that begins with an option in its short form. The letters behind it are
not looked at. -/
def Front.ofShort? : List Char → Option Front
  | '-' :: 'h' :: _ => some .help
  | '-' :: 'V' :: _ => some .version
  | _ => none

/-- What an argument is by its name and the value that is attached to the name. Only a
`ValueOption` may have one attached. -/
def Front.ofLong (name : String) (attached? : Option (List Char)) : Front :=
  match valueOption? name, flag? name, attached? with
  | some option, _, _ => .value option attached?
  | none, _, some _ => .invalid
  | none, some found, none => .flag found
  | none, none, none =>
    if name = "--" then .finish
    else if name = "--help" then .help
    else if name = "--version" then .version
    else .invalid

/-- The **front** of the arguments: what the first of them is, by `Front.ofShort?` or else by
`Front.ofLong`. -/
def front (argument : String) : Front :=
  match Front.ofShort? argument.toList with
  | some short => short
  | none =>
    let (name, attached?) := cut argument.toList
    Front.ofLong name attached?

/-- The argument cannot be the value of the option in front of it. -/
def isOption (argument : String) : Bool := ['-'].isPrefixOf argument.toList

/-- Sets an option by `set?` to the value that was found for it. -/
def assign? (g : Given) (option : ValueOption) (value : List Char) : Option Given :=
  (setting? value option).bind g.set?

/-- Reads the remaining arguments from the left, each by its `front`. -/
def parseFrom (g : Given) : List String → Request
  | [] => .report g.arguments
  | argument :: rest =>
    match front argument with
    | .finish => if rest.isEmpty then .report g.arguments else .invalid
    | .help => .help
    | .version => .version
    | .invalid => .invalid
    | .flag flag =>
      match g.setFlag? flag with
      | some g' => parseFrom g' rest
      | none => .invalid
    | .value option (some value) =>
      match assign? g option value with
      | some g' => parseFrom g' rest
      | none => .invalid
    | .value option none =>
      match rest with
      | [] => .invalid
      | value :: rest' =>
        if isOption value then .invalid
        else
          match assign? g option value.toList with
          | some g' => parseFrom g' rest'
          | none => .invalid

/-- Reads the **arguments** of the demonstration: `parseFrom` with no options read so far. -/
def parse (arguments : List String) : Request := parseFrom {} arguments

end Arguments

end Waveform.Demo
