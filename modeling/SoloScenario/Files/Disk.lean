import SoloScenario.Files.Path

/-!
# Files and directories

A `Disk` holds directories and files by their `Location`, which is the
list of names from the root down, and the location that relative paths
start from.  There are no links, and every node can be read.

A path is followed name by name (`Disk.locate?`): every name but the last
has to be a directory, `..` goes up, a dot stays.  A path that is too long
as it is written leads nowhere, however short the way is.

* `Disk.isDirectory`, `Disk.exists?`, `Disk.read` — questions about a
  path;
* `Disk.write` — a file put at a path; nodes keep the order in which they
  came, and a new one is the last;
* `Disk.names`, `Disk.below` — what a directory holds, in order.
-/

namespace SoloScenario.Files

/-- The names from the root down. -/
abbrev Location := List String

/-- What may be at a location. -/
inductive Node where
  | directory
  | file (content : ByteArray)

/-- Whether a node is a directory. -/
def Node.isDirectory : Node → Bool
  | .directory => true
  | .file _ => false

/-- Files and directories, and the directory that relative paths start
from. -/
structure Disk where
  nodes : List (Location × Node)
  workingDirectory : Location

/-- Why a file or a directory cannot be read. -/
inductive ReadError where
  /-- The path is too long. -/
  | pathTooLong
  /-- There is no such thing. -/
  | missing
  /-- The content is not UTF-8. -/
  | notText
deriving DecidableEq, Repr

/-- The wording of a read error. -/
def ReadError.reason : ReadError → String
  | .pathTooLong => "File name too long (os error 36)"
  | .missing => "No such file or directory (os error 2)"
  | .notText => "stream did not contain valid UTF-8"

/-- Why a file cannot be written. -/
inductive WriteError where
  /-- The path holds the null character. -/
  | nullInName
  /-- The path or the name at its end is too long. -/
  | tooLong
  /-- There is no directory to write into. -/
  | noDirectory
  /-- The path is that of a directory. -/
  | isDirectory
deriving DecidableEq, Repr

/-- The wording of a write error. -/
def WriteError.reason : WriteError → String
  | .nullInName => "file name contained an unexpected NUL byte"
  | .tooLong => "File name too long (os error 36)"
  | .noDirectory => "No such file or directory (os error 2)"
  | .isDirectory => "Is a directory (os error 21)"

/-- The number of bytes that a name may have. -/
def nameLimit : Nat :=
  255

/-- A list of nodes with one of them set: in its place if the location is
taken, behind all others if not. -/
def setNode (l : Location) (n : Node) :
    List (Location × Node) → List (Location × Node)
  | [] => [(l, n)]
  | (l', n') :: rest =>
    if l' = l then (l, n) :: rest else (l', n') :: setNode l n rest

namespace Disk

/-- The node at a location; the root is always a directory. -/
def node? (disk : Disk) (l : Location) : Option Node :=
  if l.isEmpty then some .directory
  else (disk.nodes.find? fun entry => entry.1 == l).map Prod.snd

/-- Whether there is a directory at a location. -/
def hasDirectory (disk : Disk) (l : Location) : Bool :=
  (disk.node? l).any Node.isDirectory

/-- Follows names from a location.  The last one need not exist. -/
def follow? (disk : Disk) : Location → List String → Option Location
  | l, [] => some l
  | l, name :: rest =>
    if disk.hasDirectory l then
      if name = "" ∨ name = "." then disk.follow? l rest
      else if name = ".." then disk.follow? l.dropLast rest
      else disk.follow? (l ++ [name]) rest
    else none

/-- The location that a path leads to.  A path that is not usable leads
nowhere. -/
def locate? (disk : Disk) (path : Path) : Option Location :=
  if !path.isUsable then none
  else if path.toList.head? = some '/' then disk.follow? [] path.pieces
  else disk.follow? disk.workingDirectory path.pieces

/-- What a path leads to. -/
def find? (disk : Disk) (path : Path) : Option Node :=
  (disk.locate? path).bind disk.node?

/-- Whether a path leads to a directory. -/
def isDirectory (disk : Disk) (path : Path) : Bool :=
  (disk.find? path).any Node.isDirectory

/-- Whether a path leads to anything. -/
def exists? (disk : Disk) (path : Path) : Bool :=
  (disk.find? path).isSome

/-- The text of the file that a path leads to. -/
def read (disk : Disk) (path : Path) : Except ReadError String :=
  if path.isTooLong then .error .pathTooLong
  else
    match disk.find? path with
    | some (.file content) =>
      match String.fromUTF8? content with
      | some text => .ok text
      | none => .error .notText
    | _ => .error .missing

/-- The disk with a file at a path. -/
def write (disk : Disk) (path : Path) (text : String) :
    Except WriteError Disk :=
  if '\x00' ∈ path.toList then .error .nullInName
  else if path.isTooLong then .error .tooLong
  else
    match disk.locate? path with
    | none => .error .noDirectory
    | some l =>
      if nameLimit < (l.getLast?.getD "").utf8ByteSize then
        .error .tooLong
      else if disk.hasDirectory l then .error .isDirectory
      else .ok { disk with nodes := setNode l (.file text.toUTF8) disk.nodes }

/-- The names in a directory, in order. -/
def names (disk : Disk) (l : Location) : List String :=
  (disk.nodes.filterMap fun (l', _) =>
      if l' ≠ [] ∧ l'.dropLast = l then l'.getLast? else none).mergeSort
    fun a b => decide (a ≤ b)

/-- The ways down from a directory to everything in it.  They come in the
order of their names, each directory before what it holds. -/
def below (disk : Disk) (l : Location) : List (List String) :=
  (disk.nodes.filterMap fun (l', _) =>
      if l.isPrefixOf l' ∧ l.length < l'.length then some (l'.drop l.length)
      else none).mergeSort
    -- The order by names is spelled out, as lists may have several.
    fun a b => decide (@LE.le _ List.instLE a b)

/-- The disk with a directory at a location, and those around it. -/
def makeDirectory (disk : Disk) (l : Location) : Disk :=
  { disk with
    nodes := ((List.range l.length).map fun depth => l.take (depth + 1)).foldl
      (fun nodes l =>
        if (disk.node? l).isSome then nodes else setNode l .directory nodes)
      disk.nodes }

/-- The disk with a file at a location, and the directories around it. -/
def putFile (disk : Disk) (l : Location) (content : ByteArray) : Disk :=
  let disk := disk.makeDirectory l.dropLast
  { disk with nodes := setNode l (.file content) disk.nodes }

end Disk

end SoloScenario.Files
