import SoloScenario.Text.Pieces

/-!
# Paths as text

A path is a text whose parts are set apart by slashes.  Two texts mean
the same path when they differ only in doubled slashes, in a slash at the
end, or in parts that are a single dot and not the first part
(`Path.parts`); a `..` is a part like any other.

A path may have at most `pathLimit` bytes, counted as it is written.
-/

namespace SoloScenario.Files

/-- A path as it is written. -/
abbrev Path := String

namespace Path

/-- The texts between the slashes. -/
def pieces (p : Path) : List String :=
  (Text.pieces '/' p.toList).map String.ofList

/-- The parts that tell paths apart.  The first piece is empty for a path
from the root. -/
def parts (p : Path) : List String :=
  match pieces p with
  | [] => []
  | first :: later => first :: later.filter fun q => q != "" && q != "."

/-- The number of bytes that a path may have. -/
def pathLimit : Nat :=
  4095

/-- Whether a path has more bytes than it may have. -/
def isTooLong (p : Path) : Bool :=
  pathLimit < p.utf8ByteSize

/-- Whether a path may lead anywhere: it is neither empty nor too long. -/
def isUsable (p : Path) : Bool :=
  p != "" && !p.isTooLong

/-- Whether a text adds no part to the path it is put behind. -/
def addsNothing : List Char → Bool
  | [] => true
  | '/' :: '.' :: s => addsNothing s
  | '/' :: s => addsNothing s
  | _ => false

/-- Whether a path means the directory it is read in: its only part is a
dot. -/
def isHere (p : Path) : Bool :=
  match p.toList with
  | '.' :: s => addsNothing s
  | _ => false

/-- A name inside a directory. -/
def join (dir : Path) (name : String) : Path :=
  if dir.toList.getLast? = some '/' || dir == "" then dir ++ name
  else dir ++ "/" ++ name

/-- A name inside a directory, where the directory one stands in is not
mentioned. -/
def child (dir : Path) (name : String) : Path :=
  if isHere dir then name else join dir name

/-- The path that names lead to from a directory, one inside the other. -/
def under (dir : Path) (names : List String) : Path :=
  if names.isEmpty then dir else child dir (String.intercalate "/" names)

end Path

end SoloScenario.Files
