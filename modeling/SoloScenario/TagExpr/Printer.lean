import SoloScenario.TagExpr.Basic
import SoloScenario.TagExpr.Escape

/-!
# The written form of a tag expression

Every operator is written with its own parentheses, set off by spaces, so
the form does not lean on precedence, and the space behind a tag ends it.

The form is written in front of a text that follows it (`charsBefore`),
which takes time in proportion to its length however deep the expression
is nested; `charsBefore_eq` sets the two apart again.
-/

namespace SoloScenario.TagExpr

/-- The characters of the written form, in front of `rest`. -/
def charsBefore (rest : List Char) : TagExpr → List Char
  | tag name => escape name.toList ++ rest
  | not e => "not ( ".toList ++ e.charsBefore (" )".toList ++ rest)
  | and l r =>
    "( ".toList
      ++ l.charsBefore (" and ".toList ++ r.charsBefore (" )".toList ++ rest))
  | or l r =>
    "( ".toList
      ++ l.charsBefore (" or ".toList ++ r.charsBefore (" )".toList ++ rest))

/-- The characters of the written form. -/
def chars (e : TagExpr) : List Char :=
  e.charsBefore []

/-- The written form. -/
def render (e : TagExpr) : String :=
  String.ofList e.chars

/-- What follows the written form has no part in it. -/
theorem charsBefore_eq (e : TagExpr) (rest : List Char) :
    e.charsBefore rest = e.chars ++ rest := by
  unfold chars
  induction e generalizing rest with
  | tag name => simp [charsBefore]
  | not e ih =>
      rw [charsBefore, charsBefore, ih, ih (_ ++ [])]
      simp only [List.append_assoc, List.nil_append]
  | and l r ihl ihr =>
      rw [charsBefore, charsBefore, ihl, ihr, ihl (_ ++ _), ihr (_ ++ [])]
      simp only [List.append_assoc, List.nil_append]
  | or l r ihl ihr =>
      rw [charsBefore, charsBefore, ihl, ihr, ihl (_ ++ _), ihr (_ ++ [])]
      simp only [List.append_assoc, List.nil_append]

end SoloScenario.TagExpr
