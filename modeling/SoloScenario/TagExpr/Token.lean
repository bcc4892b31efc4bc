/-!
# Tokens of a tag expression, and what can be wrong with one

The three operators, the two parentheses and the tags are the tokens.  An
expression is refused with a `SyntaxError`: the byte where the fault is
shown, and the `Fault` itself.  `SyntaxError.message` holds the wording.
-/

namespace SoloScenario.TagExpr

/-- The words that join tags. -/
inductive Operator where
  | and
  | or
  | not
deriving DecidableEq, Repr

/-- The word itself. -/
def Operator.word : Operator → String
  | .and => "and"
  | .or => "or"
  | .not => "not"

/-- A token; a tag's name carries its leading `@` and no escapes. -/
inductive Token where
  | tag (name : String)
  | operator (op : Operator)
  | openParen
  | closeParen
deriving DecidableEq, Repr

/-- How a message names a token: a tag as it is, all else in quotes. -/
def Token.describe : Token → String
  | .tag name => name
  | .operator op => "'" ++ op.word ++ "'"
  | .openParen => "'('"
  | .closeParen => "')'"

/-- Why an expression is refused.  The first four are faults of a single
token, the others of a token in its place. -/
inductive Fault where
  /-- No token starts with this character. -/
  | unexpectedCharacter (c : Char)
  /-- A word that is no operator. -/
  | unexpectedWord (word : String)
  /-- A lone `@`. -/
  | missingTagName
  /-- A backslash at the end of the text. -/
  | danglingEscape
  /-- The text ends where an operand should start. -/
  | operandExpected
  /-- Another token stands where an operand should start. -/
  | operandExpectedBut (found : Token)
  /-- Behind an operator there is no operand. -/
  | operandExpectedAfter (op : Operator)
  /-- An opening parenthesis with the closing one right behind it. -/
  | emptyParentheses
  /-- An opening parenthesis that is never closed. -/
  | missingParenthesis
  /-- A token behind a complete expression. -/
  | unexpectedToken (found : Token)
deriving DecidableEq, Repr

/-- The wording of a fault. -/
def Fault.reason : Fault → String
  | .unexpectedCharacter c =>
    "unexpected character '" ++ c.toString ++ "'"
  | .unexpectedWord word =>
    "unexpected identifier '" ++ word ++ "'; tags must start with '@'"
  | .missingTagName => "expected tag name after '@'"
  | .danglingEscape => "expected character after '\\'"
  | .operandExpected => "expected tag or '('"
  | .operandExpectedBut found =>
    "expected tag or '(' but found " ++ found.describe
  | .operandExpectedAfter op =>
    "expected tag or '(' after '" ++ op.word ++ "'"
  | .emptyParentheses => "empty parentheses"
  | .missingParenthesis => "missing ')'"
  | .unexpectedToken found => "unexpected token " ++ found.describe

/-- A fault and the byte, counted from zero, where it is shown. -/
structure SyntaxError where
  offset : Nat
  fault : Fault
deriving DecidableEq, Repr

/-- The message for the user. -/
def SyntaxError.message (e : SyntaxError) : String :=
  "invalid tag expression at byte " ++ toString e.offset ++ ": "
    ++ e.fault.reason

end SoloScenario.TagExpr
