import SoloScenario.Grammar.Section
import SoloScenario.Text.Position

/-!
# Reading a feature file

* `Document.read` — the document that a text holds, or where the reading
  got stuck;
* `Feature.read` — the same as a feature.

A text is read as if it ended in a line feed, and a document has to reach
to its end.
-/

namespace SoloScenario

namespace Document

/-- A text with a line feed at its end, added if it has none. -/
def withFinalBreak (s : List Char) : List Char :=
  if Text.endsInBreak s then s else s ++ ['\n']

/-- The document that a text holds, or the furthest place that any
attempt to read it reached. -/
def read (d : Dialect) (text : String) : Except Text.Position Document :=
  let source := withFinalBreak text.toList
  let reading := Grammar.document d source
  let stuck (trace : Grammar.Trace) :=
    .error (Text.Position.before source (trace.furthest.getD source.length))
  match reading.outcome with
  | none => stuck reading.trace
  | some (doc, rest) =>
    if rest.isEmpty && !reading.trace.doomed then .ok doc
    else stuck (reading.trace.join (.failedAt rest.length))

end Document

/-- The feature that a text holds. -/
def Feature.read (d : Dialect) (text : String) :
    Except Text.Position Feature :=
  (Document.read d text).map Document.toFeature

end SoloScenario
