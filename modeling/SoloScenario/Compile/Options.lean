import SoloScenario.Json.Reader

/-!
# Options of a run

What a run is asked to do: which files to split, where to write, which
scenarios to keep, the dialect of the files, and whether outlines are
split by row.

`Options.read?` reads them from JSON: an object whose members may be in
any order, or an array of the values in the order of the fields.  What is
missing takes its default.  A member with another key is ignored, one
that is there twice is not accepted, nor is a value of the wrong type.
-/

namespace SoloScenario.Compile

/-- The options of a run. -/
structure Options where
  patterns : List String := []
  outputDirectory : String := ""
  tagExpression : String := ""
  language : String := "en"
  expandOutlines : Bool := true
deriving DecidableEq, Repr

namespace Options

open Json (Value CodePoints)

/-- The value at a place of an array, or the default behind its end. -/
def item? (decode : Value → Option α) (default : α) (items : List Value)
    (place : Nat) : Option α :=
  match items[place]? with
  | none => some default
  | some v => decode v

/-- The value of the member with a key, or the default if there is none;
two members with the key are not accepted. -/
def member? (decode : Value → Option α) (default : α)
    (members : List (String × Value)) (key : String) : Option α :=
  match members.filter (·.1 == key) with
  | [] => some default
  | [(_, v)] => decode v
  | _ => none

/-- Options listed in the order of the fields. -/
def ofItems? (items : List Value) : Option Options :=
  let blank : Options := {}
  if 5 < items.length then none
  else do
    return {
      patterns := ← item? Value.texts? blank.patterns items 0
      outputDirectory := ← item? Value.text? blank.outputDirectory items 1
      tagExpression := ← item? Value.text? blank.tagExpression items 2
      language := ← item? Value.text? blank.language items 3
      expandOutlines := ← item? Value.bool? blank.expandOutlines items 4 }

/-- Options under their keys. -/
def ofMembers? (members : List (String × Value)) : Option Options :=
  let blank : Options := {}
  do
    return {
      patterns :=
        ← member? Value.texts? blank.patterns members "source_patterns"
      outputDirectory :=
        ← member? Value.text? blank.outputDirectory members
            "output_directory"
      tagExpression :=
        ← member? Value.text? blank.tagExpression members "tag_expression"
      language := ← member? Value.text? blank.language members "language"
      expandOutlines :=
        ← member? Value.bool? blank.expandOutlines members
            "expand_scenario_outlines" }

/-- Members with their keys as texts, if all of them are. -/
def textKeys? (members : List (CodePoints × Value)) :
    Option (List (String × Value)) :=
  members.mapM fun (codes, v) => codes.toText?.map fun key => (key, v)

/-- The options that a value describes. -/
def ofValue? : Value → Option Options
  | .array items => ofItems? items
  | .object members => (textKeys? members).bind ofMembers?
  | _ => none

/-- The options that a text describes. -/
def read? (text : String) : Option Options :=
  (Json.read? text).bind ofValue?

end Options

end SoloScenario.Compile
