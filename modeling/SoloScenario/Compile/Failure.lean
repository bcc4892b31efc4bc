import SoloScenario.Dialect.Table
import SoloScenario.Files.Discovery
import SoloScenario.TagExpr.Token
import SoloScenario.Text.Position

/-!
# How a run can fail

One constructor for each cause, with what a message about it needs.  The
causes fall into six kinds (`Failure.kind`); faults of the options
themselves are of the kind `configuration`.
-/

namespace SoloScenario.Compile

/-- Why a run fails. -/
inductive Failure where
  | noPatterns
  | noOutputDirectory
  | notADirectory (path : String)
  | language (cause : Dialect.Unsupported)
  | expression (cause : TagExpr.SyntaxError)
  | discovery (cause : Files.DiscoveryError)
  | unreadable (path : String) (cause : Files.ReadError)
  | malformed (path : String) (position : Text.Position)
  | unwritable (path : String) (cause : Files.WriteError)
deriving DecidableEq, Repr

/-- The kinds of failure. -/
inductive FailureKind where
  | configuration
  | discovery
  | read
  | parse
  | tagExpression
  | write
deriving DecidableEq, Repr

namespace Failure

/-- The kind of a failure. -/
def kind : Failure → FailureKind
  | noPatterns => .configuration
  | noOutputDirectory => .configuration
  | notADirectory _ => .configuration
  | language _ => .configuration
  | expression _ => .tagExpression
  | discovery _ => .discovery
  | unreadable _ _ => .read
  | malformed _ _ => .parse
  | unwritable _ _ => .write

/-- Why a text is not read as a feature. -/
def stuckAt (position : Text.Position) : String :=
  "stuck at line " ++ toString position.line ++ ", column "
    ++ toString position.column

/-- The error underneath, which the message ends in. -/
def cause? : Failure → Option String
  | discovery cause => some cause.reason
  | unreadable _ cause => some cause.reason
  | malformed _ position => some (stuckAt position)
  | unwritable _ cause => some cause.reason
  | _ => none

/-- The message for the user. -/
def message : Failure → String
  | noPatterns => "invalid configuration: no source patterns given"
  | noOutputDirectory => "invalid configuration: no output directory given"
  | notADirectory path =>
    "invalid configuration: output directory " ++ path
      ++ " does not exist or is not a directory"
  | language cause => cause.message
  | expression cause => cause.message
  | discovery cause => cause.message
  | unreadable path cause =>
    "failed to read feature file " ++ path ++ ": " ++ cause.reason
  | malformed path position =>
    "failed to parse feature file " ++ path ++ ": " ++ stuckAt position
  | unwritable path cause =>
    "failed to write feature file " ++ path ++ ": " ++ cause.reason

end Failure

end SoloScenario.Compile
