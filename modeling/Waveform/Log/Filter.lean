import Waveform.Log.Severity
import Waveform.Text.Pieces

/-!
# Log Filters

A filter says how detailed the log is, target by target. It is written as a list of
directives with commas between them:

* `level` sets the level of all targets that no other directive is about;
* `target=level` sets the level of all targets whose names begin with `target`;
* `target` alone, with or without an equals sign, lets through everything of them.

The directive with the longest matching target decides. A later directive replaces an
earlier one for the same target, and one that cannot be read is left out. What follows a
slash filters the text of lines, which has no part in the level, and with more than one
slash nothing is read at all. Without any directive, only errors are let through.
-/

namespace Waveform.Log

/-- One directive of a filter. -/
structure Directive where
  /-- The beginning of the targets' names, or `none` for all targets. -/
  target? : Option (List Char)
  threshold : Threshold
  deriving DecidableEq

namespace Directive

/-- Reads the level of a directive by `Threshold.ofName?`. -/
def threshold? (text : List Char) : Option Threshold := Threshold.ofName? (String.ofList text)

/-- Reads one directive. -/
def parse? (text : List Char) : Option Directive :=
  match Text.splitOn '=' text with
  | [piece] =>
    match threshold? piece with
    | some threshold => some ⟨none, threshold⟩
    | none => some ⟨some piece, .everything⟩
  | [target, piece] =>
    let level := Text.trim piece
    if level.isEmpty then some ⟨some target, .everything⟩
    else (threshold? level).map fun threshold => ⟨some target, threshold⟩
  | _ => none

/-- The directive is about the target: its `target?` is a beginning of it. -/
def covers (d : Directive) (target : List Char) : Bool :=
  match d.target? with
  | none => true
  | some start => start.isPrefixOf target

/-- How specific a directive is, in bytes of its target. -/
def weight (d : Directive) : Nat :=
  match d.target? with
  | none => 0
  | some start => (String.ofList start).utf8ByteSize

end Directive

/-- A list of directives, with at most one for every target. -/
structure Filter where
  directives : List Directive

namespace Filter

/-- Adds a directive, in the place of an earlier one with the same `target?`. -/
def insert (d : Directive) : List Directive → List Directive
  | [] => [d]
  | e :: es => if e.target? = d.target? then d :: es else e :: insert d es

/-- What a filter lets through if it has no directives: errors, as `Threshold.upTo` puts it. -/
def fallback : Directive := ⟨none, .upTo .error⟩

/-- Reads the directives of a filter. Those that `Directive.parse?` refuses are passed over. -/
def directivesOf (text : List Char) : List Directive :=
  match Text.splitOn '/' text with
  | directives :: rest =>
    if 1 < rest.length then []
    else
      ((Text.splitOn ',' directives).map Text.trim).foldl (fun ds piece =>
        if piece.isEmpty then ds
        else
          match Directive.parse? piece with
          | some d => insert d ds
          | none => ds) []
  | [] => []

/-- Reads a **filter**: its `directivesOf`, or the `fallback` if there are none. -/
def parse (text : String) : Filter :=
  match directivesOf text.toList with
  | [] => ⟨[fallback]⟩
  | directives => ⟨directives⟩

/-- The filter where none is given. -/
def default : Filter := parse ""

/-- The directive of greater `weight`, and the second of two that are alike. -/
def moreSpecific (a b : Directive) : Directive := if b.weight < a.weight then a else b

/-- The directive that decides about a target: the `moreSpecific` of those that are about it. -/
def deciding? (f : Filter) (target : List Char) : Option Directive :=
  match f.directives.filter fun d => d.covers target with
  | [] => none
  | d :: ds => some (ds.foldl moreSpecific d)

/-- Lines of the severity are let through for the target by its `deciding?` directive. -/
def enabled (f : Filter) (target : String) (severity : Severity) : Bool :=
  match f.deciding? target.toList with
  | none => false
  | some d => d.threshold.admits severity

end Filter

end Waveform.Log
