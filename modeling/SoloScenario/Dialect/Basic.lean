/-!
# Dialects

A **dialect** is one set of keywords for feature files.  Each kind of
section and of step has a list of words, and their order matters: where
several words fit, the first one counts.  Words for steps include the
blank behind them where the language needs one.
-/

namespace SoloScenario

/-- The keywords of one language. -/
structure Dialect where
  code : String
  feature : List String
  background : List String
  rule : List String
  scenario : List String
  outline : List String
  examples : List String
  givenWords : List String
  whenWords : List String
  thenWords : List String
  andWords : List String
  butWords : List String
deriving DecidableEq, Repr

namespace Dialect

/-- The words that start a step. -/
def stepWords (d : Dialect) : List String :=
  d.givenWords ++ d.whenWords ++ d.thenWords ++ d.andWords ++ d.butWords

/-- The words that start a scenario. -/
def scenarioWords (d : Dialect) : List String :=
  d.scenario ++ d.outline

/-- What ends the description of a feature. -/
def featureStops (d : Dialect) : List String :=
  d.background ++ d.rule ++ d.scenarioWords

/-- What ends the description of a rule. -/
def ruleStops (d : Dialect) : List String :=
  d.background ++ d.scenarioWords

/-- What ends the description of a scenario or of a background. -/
def scenarioStops (d : Dialect) : List String :=
  d.scenarioWords ++ d.stepWords

/-- What ends the description of an example section. -/
def examplesStops (d : Dialect) : List String :=
  d.scenarioStops ++ ["|"]

end Dialect

end SoloScenario
