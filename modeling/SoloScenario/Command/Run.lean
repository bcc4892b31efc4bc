import SoloScenario.Command.Arguments
import SoloScenario.Command.Outlet
import SoloScenario.Compile.Run

/-!
# The command

The arguments, the log level in the environment and the options of the
run are checked in this order, then the run starts, and at last its report
is written.  The exit code says how it ended:

* 0 — the run succeeded, or help or the version was asked for;
* 1 — the run failed, or its report could not be written;
* 2 — the arguments, the environment or the options are at fault.

Only a success prints anything: the paths written, one behind the other
with a line feed behind each, or the whole report as JSON.
-/

namespace SoloScenario.Command

/-- The name of the environment variable with the log level. -/
def levelVariable : String :=
  "GHERKIN_SPLIT_LOG_LEVEL"

/-- What the command says of its version. -/
def versionText : String :=
  "gherkin-split 0.1.0\n"

/-- What the command finds around it. -/
structure Setting where
  /-- The variable with the log level. -/
  level : Variable
  /-- Where its output goes. -/
  outlet : Outlet := .sound
  /-- The page about its use, which is laid out for the terminal. -/
  helpPage : String := ""

/-- A setting in which nothing is special but the log level. -/
instance : Coe (Option String) Setting where
  coe value := { level := .ofText? value }

/-- How the command ended: its exit code, what it printed, what it has to
say about a failure, and the disk it leaves. -/
structure Ending where
  exitCode : Nat
  output : String
  complaint : Option String
  disk : Files.Disk

/-- What is printed about a run that succeeded. -/
def reportText (json : Bool) (r : Compile.Report) : String :=
  if json then r.toValue.pretty 0 ++ "\n"
  else String.join (r.writtenPaths.map (· ++ "\n"))

/-- A report in the chunks in which it is written.  The last one has no
text: it brings out what is held back. -/
def reportChunks (json : Bool) (r : Compile.Report) : List Chunk :=
  (if json then
    [⟨r.toValue.pretty 0, "failed to serialise report"⟩,
      ⟨"\n", "failed to terminate JSON report"⟩]
  else
    r.writtenPaths.map fun path =>
      ⟨path ++ "\n", "failed to write path " ++ path⟩)
    ++ [⟨"", "failed to flush report to stdout"⟩]

/-- The exit code for a run that failed. -/
def failureCode (f : Compile.Failure) : Nat :=
  if f.kind = .configuration then 2 else 1

/-- What is said of a run that failed: what was tried, the failure, and
once more the error underneath. -/
def failureComplaint (f : Compile.Failure) : String :=
  String.intercalate ": "
    ("failed to split feature files" :: f.message :: f.cause?.toList)

/-- What is printed where the arguments do not ask for a run. -/
def Problem.output (helpPage : String) : Problem → String
  | .displayHelp => helpPage
  | .displayVersion => versionText
  | _ => ""

/-- The level to log at: the one in the arguments, or else the one in the
environment, which has to be valid in either case. -/
def effectiveLevel (environment : Option String) (argument : Option LogLevel) :
    Except UnknownLevel LogLevel :=
  (LogLevel.ofEnvironment environment).map fun level => argument.getD level

/-- How the command ends behind its run: with what is said of a failure, or
with the report of a success, if that can be written. -/
def conclude (outlet : Outlet) (json : Bool) :
    Except Compile.Failure Compile.Report × Files.Disk → Ending
  | (.error failure, disk) =>
    ⟨failureCode failure, "", some (failureComplaint failure), disk⟩
  | (.ok report, disk) =>
    match outlet.print (reportChunks json report) with
    | (output, none) => ⟨0, output, none, disk⟩
    | (output, some complaint) => ⟨1, output, some complaint, disk⟩

/-- The command with these arguments in a setting, on a disk.  Whether help
or the version could be printed makes no difference to its exit code. -/
def run (readings : Nat → Int64) (args : List String) (setting : Setting)
    (disk : Files.Disk) : Ending :=
  match Arguments.read args with
  | .error problem =>
    let page := problem.output setting.helpPage
    ⟨problem.exitCode, (setting.outlet.print [⟨page, ""⟩]).1, none, disk⟩
  | .ok a =>
    match effectiveLevel setting.level.text? a.logLevel with
    | .error unknown => ⟨2, "", some unknown.message, disk⟩
    | .ok _ =>
      conclude setting.outlet a.json (Compile.run readings a.options disk)

end SoloScenario.Command
