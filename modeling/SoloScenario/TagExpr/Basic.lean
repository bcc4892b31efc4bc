/-!
# Tag expressions

A **tag expression** selects scenarios by their tags: tags joined by
`not`, `and` and `or`.  This file holds the tree and its meaning,
`TagExpr.holds`, on a list of tag names; order and repetition in the list
do not matter (`holds_congr`).
-/

namespace SoloScenario

/-- A condition on the tags of a scenario.  A tag's name carries its
leading `@`. -/
inductive TagExpr where
  | tag (name : String)
  | not (operand : TagExpr)
  | and (left right : TagExpr)
  | or (left right : TagExpr)
deriving DecidableEq, Repr

namespace TagExpr

/-- Whether the expression holds of a scenario with these tags. -/
def holds (names : List String) : TagExpr → Bool
  | tag name => names.contains name
  | not e => !e.holds names
  | and l r => l.holds names && r.holds names
  | or l r => l.holds names || r.holds names

/-- Only which names occur matters, not their order or number. -/
theorem holds_congr {xs ys : List String}
    (h : ∀ name, name ∈ xs ↔ name ∈ ys) (e : TagExpr) :
    e.holds xs = e.holds ys := by
  induction e with
  | tag name => simp [holds, h name]
  | not e ih => simp [holds, ih]
  | and l r ihl ihr => simp [holds, ihl, ihr]
  | or l r ihl ihr => simp [holds, ihl, ihr]

end TagExpr

end SoloScenario
