import SoloScenario.Compile.Failure
import SoloScenario.Compile.Options
import SoloScenario.Compile.Report
import SoloScenario.Document.Read
import SoloScenario.Feature.Filter
import SoloScenario.Feature.Render
import SoloScenario.Feature.Split
import SoloScenario.Output.FileName
import SoloScenario.Output.StampClock

/-!
# A run

A run checks its options, finds the sources, and takes them one at a
time: read, split, filter, and write what is kept.  The first failure
ends it, and what was written before stays.

A run changes a `Workspace`: the disk, the stamp clock, how often the time
was read, and the totals of what has been done.  The readings of the time
are a parameter, the `n`-th one for the `n`-th file, so a run is a function
of what it is given.

* `prepare` — everything that is settled before a source is read;
* `compileSource` — one source;
* `compile` — the whole run.
-/

namespace SoloScenario.Compile

/-- What a run changes. -/
structure Workspace where
  disk : Files.Disk
  clock : Output.StampClock
  ticks : Nat
  totals : Totals

/-- An action that changes the workspace and may fail.  What it changed
before it failed stays changed. -/
abbrev Action (α : Type) : Type :=
  ExceptT Failure (StateM Workspace) α

/-- What is settled before the first source is read. -/
structure Plan where
  dialect : Dialect
  filter : TagFilter
  sources : List Files.Path

/-- The checks of the options and the search for the sources.  Nothing is
read or written here. -/
def prepare (disk : Files.Disk) (o : Options) : Except Failure Plan := do
  if o.patterns.isEmpty then throw .noPatterns
  if o.outputDirectory = "" then throw .noOutputDirectory
  if !disk.isDirectory o.outputDirectory then
    throw (.notADirectory o.outputDirectory)
  let dialect ← (Dialect.ofCode o.language).mapError .language
  let filter ← (TagFilter.ofText o.tagExpression).mapError .expression
  let sources ← (Files.discover disk o.patterns).mapError .discovery
  return ⟨dialect, filter, sources⟩

/-- The feature that a source's text is read as. -/
def parse (dialect : Dialect) (path : Files.Path) (text : String) :
    Except Failure Feature :=
  (Feature.read dialect text).mapError (.malformed path)

/-- Brings the totals up to date. -/
def count (change : Totals → Totals) : Action Unit :=
  modify fun w => { w with totals := change w.totals }

/-- Stamps the next file of a feature with this name and puts its text
there; the answer is the file's path. -/
def writeFeature (readings : Nat → Int64) (directory : Files.Path)
    (f : Feature) : Action Files.Path := do
  let w ← get
  let now := readings w.ticks
  let path := Files.Path.join directory
    (Output.fileName f.name (w.clock.stamp now))
  let w := { w with clock := w.clock.advance now, ticks := w.ticks + 1 }
  match w.disk.write path f.render with
  | .ok disk =>
    set { w with disk := disk }
    return path
  | .error cause =>
    set w
    throw (.unwritable path cause)

/-- Writes a feature that the filter has kept, and counts its file. -/
def writeKept (readings : Nat → Int64) (directory : Files.Path)
    (f : Feature) : Action Files.Path := do
  let path ← writeFeature readings directory f
  count Totals.addWritten
  return path

/-- Reads one source, splits it, and writes what the filter keeps. -/
def compileSource (readings : Nat → Int64) (o : Options) (plan : Plan)
    (path : Files.Path) : Action SourceReport := do
  let w ← get
  match w.disk.read path with
  | .error cause => throw (.unreadable path cause)
  | .ok text =>
    let f ← (parse plan.dialect path text : Except _ _)
    count Totals.addParsed
    let all := f.split o.expandOutlines
    count (·.addGenerated all.length)
    let written ←
      (plan.filter.select all).mapM (writeKept readings o.outputDirectory)
    return ⟨path, written⟩

/-- The run with these options. -/
def compile (readings : Nat → Int64) (o : Options) : Action Report := do
  let w ← get
  let plan ← prepare w.disk o
  let sources ← plan.sources.mapM (compileSource readings o plan)
  return { toTotals := (← get).totals, sources }

/-- The run on a disk, with a new clock: how it ends, and the disk it
leaves. -/
def run (readings : Nat → Int64) (o : Options) (disk : Files.Disk) :
    Except Failure Report × Files.Disk :=
  let ended := (compile readings o).run ⟨disk, .new, 0, {}⟩
  (ended.1, ended.2.disk)

end SoloScenario.Compile
