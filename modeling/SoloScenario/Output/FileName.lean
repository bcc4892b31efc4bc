import SoloScenario.Text.Blank

/-!
# Names of generated files

A generated file is named for its feature and for the moment it was
stamped: `<stem>.<stamp>.feature`.  The stem is the feature's name with
every slash, backslash and blank turned into an underscore, so the name
is a single component of a path.
-/

namespace SoloScenario.Output

/-- Whether a character of a feature's name may not stand in a stem. -/
def isUnsafe (c : Char) : Bool :=
  c == '/' || c == '\\' || Text.isBlank c

/-- A character as it stands in a stem. -/
def safeChar (c : Char) : Char :=
  if isUnsafe c then '_' else c

/-- The stem for a feature's name. -/
def fileStem (name : String) : String :=
  String.ofList (name.toList.map safeChar)

/-- The stamp in decimal digits, with a sign if it is negative. -/
def stampText (stamp : Int64) : String :=
  match stamp.toInt with
  | .ofNat n => n.repr
  | .negSucc n => "-" ++ (n + 1).repr

/-- The name of the file for a feature stamped at `stamp`. -/
def fileName (name : String) (stamp : Int64) : String :=
  fileStem name ++ "." ++ stampText stamp ++ ".feature"

/-- The stem has as many characters as the name. -/
theorem length_fileStem (name : String) :
    (fileStem name).length = name.length := by
  simp [fileStem, String.length_toList]

end SoloScenario.Output
