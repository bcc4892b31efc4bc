/-!
# Log levels

How much a run tells about itself, from `trace` down to `error`.  A level
is named in any mix of cases.

Only ASCII letters are brought to lower case.  That is enough: the one
character outside ASCII that has an ASCII letter as its lower case is the
Kelvin sign, and no name has a `k`.
-/

namespace SoloScenario.Command

/-- A log level. -/
inductive LogLevel where
  | trace
  | debug
  | info
  | warn
  | error
deriving DecidableEq, Repr

/-- A variable of the environment, as the system has it. -/
inductive Variable where
  | unset
  /-- It holds bytes that are not Unicode text. -/
  | notUnicode
  | text (value : String)
deriving DecidableEq, Repr

namespace Variable

/-- A variable that is unset or holds a text. -/
def ofText? : Option String → Variable
  | none => unset
  | some value => text value

/-- The text that is read from a variable.  Bytes that are not Unicode text
are read as if it were unset. -/
def text? : Variable → Option String
  | unset => none
  | notUnicode => none
  | text value => some value

end Variable

/-- A text that names no level. -/
structure UnknownLevel where
  text : String
deriving DecidableEq, Repr

/-- The message for the user. -/
def UnknownLevel.message (u : UnknownLevel) : String :=
  "invalid configuration: unknown log level '" ++ u.text
    ++ "', expected one of: trace, debug, info, warn, error"

namespace LogLevel

/-- The name of a level. -/
def name : LogLevel → String
  | trace => "trace"
  | debug => "debug"
  | info => "info"
  | warn => "warn"
  | error => "error"

/-- The level that a text names. -/
def ofText (text : String) : Except UnknownLevel LogLevel :=
  match String.ofList (text.toList.map Char.toLower) with
  | "trace" => .ok trace
  | "debug" => .ok debug
  | "info" => .ok info
  | "warn" => .ok warn
  | "warning" => .ok warn
  | "error" => .ok error
  | _ => .error ⟨text⟩

/-- The level that the environment asks for, `info` if it says nothing. -/
def ofEnvironment : Option String → Except UnknownLevel LogLevel
  | none => .ok info
  | some text => ofText text

/-- A level is named by its name. -/
theorem ofText_name (level : LogLevel) : ofText level.name = .ok level := by
  cases level <;> rfl

end LogLevel

end SoloScenario.Command
