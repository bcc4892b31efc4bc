import SoloScenario.Command.LogLevel
import SoloScenario.Compile.Options

/-!
# Command line arguments

The arguments are read from left to right, and the first problem ends the
reading:

* `--name value` and `--name=value`; for options with a letter also
  `-x value`, `-xvalue` and `-x=value`;
* a value in an argument of its own cannot start with a dash, unless it
  is a lone dash;
* everything else that does not start with a dash, and everything behind
  `--`, is a pattern;
* an option or a flag may be given once.

Help and version end the reading too, so they count as problems here.

A value in an argument of its own is checked when the next known option,
flag or pattern is reached, or the end.  An unknown option right behind
it is therefore reported in its place.
-/

namespace SoloScenario.Command

/-- The options that take a value. -/
inductive ValueOption where
  | outDir
  | tags
  | lang
  | logLevel
deriving DecidableEq, Repr

/-- The options that take none. -/
inductive Flag where
  | noExpandOutlines
  | json
  | help
  | version
deriving DecidableEq, Repr

/-- An option of either kind. -/
inductive AnyOption where
  | valued (o : ValueOption)
  | flag (f : Flag)
deriving DecidableEq, Repr

/-- The option with this name behind two dashes. -/
def longOption? : String → Option AnyOption
  | "out-dir" => some (.valued .outDir)
  | "tags" => some (.valued .tags)
  | "lang" => some (.valued .lang)
  | "log-level" => some (.valued .logLevel)
  | "no-expand-outlines" => some (.flag .noExpandOutlines)
  | "json" => some (.flag .json)
  | "help" => some (.flag .help)
  | "version" => some (.flag .version)
  | _ => none

/-- The option with this letter behind one dash. -/
def shortOption? : Char → Option AnyOption
  | 'o' => some (.valued .outDir)
  | 't' => some (.valued .tags)
  | 'l' => some (.valued .lang)
  | 'h' => some (.flag .help)
  | 'V' => some (.flag .version)
  | _ => none

/-- Why the arguments are not followed. -/
inductive Problem where
  | displayHelp
  | displayVersion
  | unknownArgument
  | tooManyValues
  | invalidValue
  | valueValidation
  | argumentConflict
  | missingRequiredArgument
deriving DecidableEq, Repr

/-- Help and version are what was asked for; all else is a wrong use. -/
def Problem.exitCode : Problem → Nat
  | .displayHelp | .displayVersion => 0
  | _ => 2

/-- Arguments that can be followed. -/
structure Arguments where
  patterns : List String
  outDir : String
  tags : String
  lang : String
  expandOutlines : Bool
  json : Bool
  logLevel : Option LogLevel
deriving DecidableEq, Repr

/-- The options of the run that the arguments ask for. -/
def Arguments.options (a : Arguments) : Compile.Options where
  patterns := a.patterns
  outputDirectory := a.outDir
  tagExpression := a.tags
  language := a.lang
  expandOutlines := a.expandOutlines

/-- What has been read of the arguments.  `pending` is an option whose
value is still to come or still to be checked, and `onlyPatterns` holds
behind `--`. -/
structure Draft where
  patterns : List String
  outDir : Option String
  tags : Option String
  lang : Option String
  logLevel : Option LogLevel
  noExpandOutlines : Bool
  json : Bool
  pending : Option (ValueOption × Option String)
  onlyPatterns : Bool
deriving DecidableEq, Repr

namespace Draft

/-- Nothing has been read. -/
def empty : Draft :=
  ⟨[], none, none, none, none, false, false, none, false⟩

/-- Whether an option has got its value. -/
def has (d : Draft) : ValueOption → Bool
  | .outDir => d.outDir.isSome
  | .tags => d.tags.isSome
  | .lang => d.lang.isSome
  | .logLevel => d.logLevel.isSome

/-- Gives an option its value, which has to be the first. -/
def setValue (d : Draft) (o : ValueOption) (value : String) :
    Except Problem Draft :=
  if d.has o then .error .argumentConflict
  else
    match o with
    | .outDir =>
      if value = "" then .error .invalidValue
      else .ok { d with outDir := some value }
    | .tags => .ok { d with tags := some value }
    | .lang => .ok { d with lang := some value }
    | .logLevel =>
      match LogLevel.ofText value with
      | .ok level => .ok { d with logLevel := some level }
      | .error _ => .error .valueValidation

/-- Deals with the pending option. -/
def settle (d : Draft) : Except Problem Draft :=
  match d.pending with
  | none => .ok d
  | some (_, none) => .error .invalidValue
  | some (o, some value) => { d with pending := none }.setValue o value

/-- Sets a flag, which has to be for the first time. -/
def setFlag (d : Draft) : Flag → Except Problem Draft
  | .noExpandOutlines =>
    if d.noExpandOutlines then .error .argumentConflict
    else .ok { d with noExpandOutlines := true }
  | .json =>
    if d.json then .error .argumentConflict else .ok { d with json := true }
  | .help => .error .displayHelp
  | .version => .error .displayVersion

/-- Takes an option that was found, with the value attached to it if
there is one. -/
def takeOption (d : Draft) (found : Option AnyOption)
    (attached : Option String) : Except Problem Draft :=
  match found, attached with
  | none, _ => .error .unknownArgument
  | some (.flag _), some _ => .error .tooManyValues
  | some (.flag f), none => do (← d.settle).setFlag f
  | some (.valued o), some value => do (← d.settle).setValue o value
  | some (.valued o), none => do
    return { ← d.settle with pending := some (o, none) }

/-- Takes an argument that starts with two dashes, which are left out. -/
def takeLong (d : Draft) (s : List Char) : Except Problem Draft :=
  let name := longOption? (String.ofList (s.takeWhile (· ≠ '=')))
  match s.dropWhile (· ≠ '=') with
  | [] => d.takeOption name none
  | _ :: value => d.takeOption name (some (String.ofList value))

/-- Takes an argument that starts with one dash, which is left out.  A
letter that takes a value takes the whole rest as its value; any other
letter ends the reading, so no rest is ever left. -/
def takeShort (d : Draft) (letter : Char) (rest : List Char) :
    Except Problem Draft :=
  match shortOption? letter, rest with
  | some (.valued o), '=' :: value =>
    d.takeOption (some (.valued o)) (some (String.ofList value))
  | some (.valued o), c :: value =>
    d.takeOption (some (.valued o)) (some (String.ofList (c :: value)))
  | found, _ => d.takeOption found none

/-- Takes a pattern. -/
def takePattern (d : Draft) (p : String) : Except Problem Draft := do
  let d ← d.settle
  return { d with patterns := d.patterns ++ [p] }

/-- Takes an argument that does not look like an option: the value that
is waited for, or a pattern. -/
def takePlain (d : Draft) (a : String) : Except Problem Draft :=
  match d.pending with
  | some (o, none) => .ok { d with pending := some (o, some a) }
  | _ => d.takePattern a

/-- Takes one argument. -/
def take (d : Draft) (a : String) : Except Problem Draft :=
  if d.onlyPatterns then d.takePattern a
  else
    match a.toList with
    | ['-', '-'] => .ok { d with onlyPatterns := true }
    | '-' :: '-' :: s => d.takeLong s
    | '-' :: letter :: rest => d.takeShort letter rest
    | _ => d.takePlain a

/-- The end of the arguments. -/
def finish (d : Draft) : Except Problem Arguments := do
  let d ← d.settle
  match d.outDir, d.patterns with
  | some outDir, p :: ps =>
    return {
      patterns := p :: ps
      outDir := outDir
      tags := d.tags.getD ""
      lang := d.lang.getD "en"
      expandOutlines := !d.noExpandOutlines
      json := d.json
      logLevel := d.logLevel }
  | _, _ => throw .missingRequiredArgument

end Draft

/-- Reads the arguments. -/
def Arguments.read (args : List String) : Except Problem Arguments := do
  let draft ← args.foldlM Draft.take Draft.empty
  draft.finish

end SoloScenario.Command
