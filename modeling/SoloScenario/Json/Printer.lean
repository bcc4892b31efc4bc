import SoloScenario.Json.Value

/-!
# Writing JSON

A value is written over several lines, two spaces deeper for each level;
an empty array or object stays on its line.  In strings the quote, the
backslash and the control characters are escaped and nothing else, so a
text is written as it is.
-/

namespace SoloScenario.Json

/-- A hexadecimal digit in lower case. -/
def hexDigit (n : Nat) : Char :=
  if n < 10 then Char.ofNat ('0'.toNat + n)
  else Char.ofNat ('a'.toNat + n - 10)

/-- The escape of a code point by its number. -/
def numericEscape (code : Nat) : List Char :=
  ['\\', 'u', hexDigit (code / 4096 % 16), hexDigit (code / 256 % 16),
    hexDigit (code / 16 % 16), hexDigit (code % 16)]

/-- A code point as it stands in a written string. -/
def writtenCode (code : Nat) : List Char :=
  if code = 0x22 then ['\\', '"']
  else if code = 0x5C then ['\\', '\\']
  else if code = 0x08 then ['\\', 'b']
  else if code = 0x09 then ['\\', 't']
  else if code = 0x0A then ['\\', 'n']
  else if code = 0x0C then ['\\', 'f']
  else if code = 0x0D then ['\\', 'r']
  else if code < 0x20 then numericEscape code
  else if h : code.isValidChar then [Char.ofNatAux code h]
  else numericEscape code

/-- A string between quotes. -/
def writtenString (codes : CodePoints) : String :=
  String.ofList ('"' :: codes.flatMap writtenCode ++ ['"'])

/-- The line feed and the spaces before a part at a depth. -/
def indentation (depth : Nat) : String :=
  "\n" ++ String.ofList (List.replicate (2 * depth) ' ')

namespace Value

mutual
/-- A value, at a depth. -/
def pretty (depth : Nat) : Value → String
  | null => "null"
  | bool true => "true"
  | bool false => "false"
  | number spelling => spelling
  | string codes => writtenString codes
  | array [] => "[]"
  | array (v :: vs) =>
    "[" ++ indentation (depth + 1) ++ pretty (depth + 1) v
      ++ prettyItems (depth + 1) vs ++ indentation depth ++ "]"
  | object [] => "\x7b\x7d"
  | object (m :: ms) =>
    "\x7b" ++ indentation (depth + 1) ++ prettyMember (depth + 1) m
      ++ prettyMembers (depth + 1) ms ++ indentation depth ++ "\x7d"

/-- The items behind the first one. -/
def prettyItems (depth : Nat) : List Value → String
  | [] => ""
  | v :: vs =>
    "," ++ indentation depth ++ pretty depth v ++ prettyItems depth vs

/-- A member. -/
def prettyMember (depth : Nat) : CodePoints × Value → String
  | (key, v) => writtenString key ++ ": " ++ pretty depth v

/-- The members behind the first one. -/
def prettyMembers (depth : Nat) : List (CodePoints × Value) → String
  | [] => ""
  | m :: ms =>
    "," ++ indentation depth ++ prettyMember depth m ++ prettyMembers depth ms
end

end Value

end SoloScenario.Json
