import SoloScenario.Grammar.Keyword
import SoloScenario.Text.Margin

/-!
# Doc strings

A doc string stands between two fences of three quotes, or of three
backticks.  Everything between them is its body, the rest of the opening
fence's line included; only behind a `#` is a closing fence not seen
before the next line.  The content is the body without its margin and
without the one line break next to each fence.
-/

namespace SoloScenario.Grammar

open Reader

/-- The body in front of the next fence of three `quote`s, and the rest
from that fence on.  Where `inComment` holds, no fence is looked for
before the next line feed. -/
def spanBody (quote : Char) : Bool → List Char → List Char × List Char
  | _, [] => ([], [])
  | inComment, c :: s =>
    if !inComment && [quote, quote, quote].isPrefixOf (c :: s) then
      ([], c :: s)
    else
      let rest := spanBody quote ((inComment || c == '#') && c != '\n') s
      (c :: rest.1, rest.2)

/-- A text without the line break it starts with. -/
def dropFirstBreak (s : List Char) : List Char :=
  (Text.atBreak? s).getD s

/-- A text without the line break it ends with. -/
def dropLastBreak : List Char → List Char
  | [] => []
  | ['\n'] => []
  | ['\r', '\n'] => []
  | c :: s => c :: dropLastBreak s

/-- A body without its margin, and without the line break next to each
fence. -/
def docStringContent (body : List Char) : List Char :=
  dropLastBreak (dropFirstBreak (Text.dedent body))

/-- The body of a doc string. -/
def docStringBody (quote : Char) : Reader (List Char) := fun s =>
  let body := spanBody quote false s
  ⟨some body, if body.2.isEmpty then .failedAt 0 else .none⟩

/-- A doc string between fences of three `quote`s. -/
def fenced (quote : Char) : Reader String := do
  let fence := String.ofList [quote, quote, quote]
  literal fence
  let body ← docStringBody quote
  literal fence
  pass atLineEnd?
  give (String.ofList (docStringContent body))

/-- A doc string with either kind of fence. -/
def docString : Reader String :=
  fenced '"' <|> fenced '\x60'

end SoloScenario.Grammar
