import SoloScenario.Feature.Basic
import SoloScenario.TagExpr.Parser
import SoloScenario.TagExpr.Printer
import SoloScenario.Text.Blank

/-!
# Selecting features by tags

A `TagFilter` keeps everything, or what a tag expression holds of.  The
expression looks at the tags of the scenarios, not at those of the
feature: an assembled feature has handed its tags on to its scenario.
-/

namespace SoloScenario

/-- Which features to keep. -/
inductive TagFilter where
  | all
  | satisfying (e : TagExpr)
deriving DecidableEq, Repr

namespace TagFilter

/-- The filter that a text stands for.  A blank text keeps everything and
is never read as an expression. -/
def ofText (text : String) : Except TagExpr.SyntaxError TagFilter :=
  if Text.isAllBlank text.toList then .ok .all
  else (TagExpr.parse text).map .satisfying

/-- Whether a feature is kept: the expression has to hold of the tags of
one of its scenarios. -/
def keeps (filter : TagFilter) (f : Feature) : Bool :=
  match filter with
  | .all => true
  | .satisfying e =>
    f.scenarios.any fun s => e.holds (s.tags.map Tag.name)

/-- The features that are kept, in order. -/
def select (filter : TagFilter) (features : List Feature) : List Feature :=
  features.filter filter.keeps

/-- The written form of a filter. -/
def render : TagFilter → String
  | .all => "<all>"
  | .satisfying e => e.render

end TagFilter

end SoloScenario
