import SoloScenario.Text.Blank
import SoloScenario.Text.Lines

/-!
# The margin of an indented text

The **margin** of a text is the indentation its lines share.  It starts
as the leading blanks of the first line that is not all blank, and every
later line that departs from it cuts it down to the part before the
departure.  A later line that merely ends inside the margin, or reaches
beyond it, leaves it alone.

* `fork?` — the part that two texts share before they first differ;
* `margin` — the margin of a list of lines;
* `dedent` — a text without its margin; a blank line becomes empty.
-/

namespace SoloScenario.Text

/-- What two texts share before the first place where they differ, or
`none` when one of them is the beginning of the other. -/
def fork? : List Char → List Char → Option (List Char)
  | c :: s, d :: t => if c = d then (fork? s t).map (c :: ·) else some []
  | _, _ => none

/-- The margin that is left of `shared` after one more line. -/
def narrow (shared line : List Char) : List Char :=
  (fork? line shared).getD shared

/-- The margin of the lines of a text. -/
def margin : List (List Char) → List Char
  | [] => []
  | line :: rest =>
    if isAllBlank line then margin rest
    else rest.foldl narrow (line.takeWhile isBlank)

/-- One line without the margin: a blank line, and a line outside the
margin, becomes empty. -/
def outdent (shared line : List Char) : List Char :=
  if isAllBlank line then []
  else if shared.isPrefixOf line then line.drop shared.length
  else []

/-- A text without its margin, every line ended by a line feed, the last
one only where the text ends in a line feed. -/
def dedent (s : List Char) : List Char :=
  let all := lines s
  let body := ['\n'].intercalate (all.map (outdent (margin all)))
  if endsInBreak s then body ++ ['\n'] else body

end SoloScenario.Text
