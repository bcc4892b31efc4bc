import SoloScenario.Json.Printer

/-!
# What a run did

A report lists the sources in the order they were found, and for each
source the files written for it, in the order they were written.  The
totals are no sums over this list: they are counted up while the run goes
on, each at the place where something is done.
-/

namespace SoloScenario.Compile

/-- What was made of one source. -/
structure SourceReport where
  source : String
  /-- The paths of the files written for it. -/
  written : List String
deriving DecidableEq, Repr

/-- How much has been done so far. -/
structure Totals where
  /-- How many sources have been read as features. -/
  featuresParsed : Nat := 0
  /-- How many features they were split into, kept or not. -/
  scenariosGenerated : Nat := 0
  /-- How many files have been written. -/
  scenariosWritten : Nat := 0
deriving DecidableEq, Repr

namespace Totals

/-- One source more has been read. -/
def addParsed (t : Totals) : Totals :=
  { t with featuresParsed := t.featuresParsed + 1 }

/-- A source has been split into `n` features. -/
def addGenerated (t : Totals) (n : Nat) : Totals :=
  { t with scenariosGenerated := t.scenariosGenerated + n }

/-- One file more has been written. -/
def addWritten (t : Totals) : Totals :=
  { t with scenariosWritten := t.scenariosWritten + 1 }

end Totals

/-- What was made of all sources. -/
structure Report extends Totals where
  sources : List SourceReport
deriving DecidableEq, Repr

namespace Report

/-- The paths of all files written, in order. -/
def writtenPaths (r : Report) : List String :=
  r.sources.flatMap SourceReport.written

/-- The report of one source as JSON. -/
def sourceValue (s : SourceReport) : Json.Value :=
  .ofMembers
    [("source", .ofText s.source), ("written", .array (s.written.map .ofText))]

/-- The report as JSON. -/
def toValue (r : Report) : Json.Value :=
  .ofMembers
    [("sources", .array (r.sources.map sourceValue)),
      ("features_parsed", .ofNat r.featuresParsed),
      ("scenarios_generated", .ofNat r.scenariosGenerated),
      ("scenarios_written", .ofNat r.scenariosWritten)]

end Report

end SoloScenario.Compile
