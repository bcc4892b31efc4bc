/-!
# JSON values

A value as it is written: numbers keep their spelling, and members keep
their order and may repeat a key.

A string is a list of code points in which a surrogate may stand alone,
because the escapes of a written string can spell one.  Such a string is
no text; `Value.text?` is the way from a value to a text.
-/

namespace SoloScenario.Json

/-- The code points of a string; surrogates may stand alone. -/
abbrev CodePoints := List Nat

/-- The code points of a text. -/
def CodePoints.ofText (s : String) : CodePoints :=
  s.toList.map Char.toNat

/-- The text with these code points, if there is one. -/
def CodePoints.toText? (codes : CodePoints) : Option String :=
  (codes.mapM fun code : Nat =>
    if h : code.isValidChar then some (Char.ofNatAux code h) else none).map
      String.ofList

/-- A JSON value. -/
inductive Value where
  | null
  | bool (b : Bool)
  | number (spelling : String)
  | string (codes : CodePoints)
  | array (items : List Value)
  | object (members : List (CodePoints × Value))

namespace Value

/-- A text as a value. -/
def ofText (s : String) : Value :=
  string (CodePoints.ofText s)

/-- A count as a value. -/
def ofNat (n : Nat) : Value :=
  number n.repr

/-- An object with texts as keys. -/
def ofMembers (members : List (String × Value)) : Value :=
  object (members.map fun (key, v) => (CodePoints.ofText key, v))

/-- The text that a value is, if it is one. -/
def text? : Value → Option String
  | string codes => codes.toText?
  | _ => none

/-- The truth value that a value is, if it is one. -/
def bool? : Value → Option Bool
  | bool b => some b
  | _ => none

/-- The texts that a value lists, if it is an array of texts. -/
def texts? : Value → Option (List String)
  | array items => items.mapM text?
  | _ => none

end Value

end SoloScenario.Json
