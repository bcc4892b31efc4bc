import SoloScenario.Files.Disk
import SoloScenario.Files.Pattern

/-!
# Finding the files that patterns name

`expand` finds what a pattern matches, in stages (`Stage`):

* a component without wildcards is looked up as it is;
* any other is compared with the names in the directory, in their order;
  one that starts with a dot is compared with `..` and `.` too;
* `**` goes through everything below the directory, each directory before
  what it holds, and the component behind it is compared with the names
  there.

Each stage starts from what the stages before it have come to, in their
order.  That is either a place or a directory that cannot be read
(`Finding`).  A place has a path and a location (`Place`).  The location
of a path that is looked up is where the path leads.  That of a path made
from a listing is where the listing has it, even if the path is too long
to lead there: the names inside cannot be read then.

`discover` puts the files of several patterns together, in the order of
the patterns.  A file that an earlier pattern has found is not listed
again, and a path that leads to a directory is never listed.  A pattern
that cannot be read, or one whose search meets a directory that cannot be
read, fails the whole.
-/

namespace SoloScenario.Files

/-- A path that a search comes to, and where it is taken to lead. -/
structure Place where
  path : Path
  location : Option Location
deriving DecidableEq, Repr

/-- What a search comes to. -/
inductive Finding where
  | place (p : Place)
  /-- A directory whose names cannot be read. -/
  | unreadable (directory : Path) (cause : ReadError)
deriving DecidableEq, Repr

namespace Place

/-- The place of a path. -/
def ofPath (disk : Disk) (path : Path) : Place :=
  ⟨path, disk.locate? path⟩

/-- Whether a place is a directory. -/
def isDirectory (disk : Disk) (p : Place) : Bool :=
  p.location.any disk.hasDirectory

/-- Whether there is anything at a place. -/
def exists? (disk : Disk) (p : Place) : Bool :=
  p.location.any fun l => (disk.node? l).isSome

/-- The place that a name leads to from another, under the path that it is
given. -/
def lookUp (disk : Disk) (p : Place) (name : String) (path : Path) : Place :=
  ⟨path, if path.isUsable then p.location.bind (disk.follow? · [name])
    else none⟩

/-- The findings that come of reading the names in a place, which are none
if it is no directory. -/
def enter (disk : Disk) (p : Place) (inside : Location → List Finding) :
    List Finding :=
  match p.location.filter disk.hasDirectory with
  | none => []
  | some l =>
    if p.path.isTooLong then [.unreadable p.path .pathTooLong] else inside l

/-- The places in a directory whose names fit, `..` and `.` first if the
component asks for a leading dot. -/
def fittingChildren (disk : Disk) (p : Place)
    (component : List Pattern.Token) : List Finding :=
  p.enter disk fun l =>
    let fitting :=
      List.filter fun name : String => Pattern.fits component name.toList
    let dots :=
      if component.head? = some (.literal '.') then fitting ["..", "."]
      else []
    (dots.map fun name =>
        .place (p.lookUp disk name (p.path.join name))) ++
      (fitting (disk.names l)).map fun name =>
        .place ⟨p.path.child name, some (l ++ [name])⟩

/-- The places that one component leads to from another. -/
def reach (disk : Disk) (p : Place) (component : List Pattern.Token) :
    List Finding :=
  match Pattern.literalText? component with
  | none => p.fittingChildren disk component
  | some name =>
    let next := p.lookUp disk name (p.path.child name)
    let isThere :=
      if name = "." ∨ name = ".." then p.isDirectory disk
      else next.exists? disk
    if isThere then [.place next] else []

/-- What there is below a directory, as far as `wanted` asks for it by its
name and place.  A directory whose path is too long ends the way down. -/
def descend (disk : Disk) (p : Place) (wanted : String → Place → Bool) :
    List Finding :=
  p.enter disk fun l =>
    (disk.below l).flatMap fun names =>
      if (p.path.under names.dropLast).isTooLong then []
      else
        let q : Place := ⟨p.path.under names, some (l ++ names)⟩
        let found :=
          if wanted (names.getLast?.getD "") q then [.place q] else []
        found ++ q.enter disk fun _ => []

end Place

/-- One stage of a search: a component for the names in a directory, a
component for all names below it, or all directories below it. -/
inductive Stage where
  | inside (component : List Pattern.Token)
  | below (component : List Pattern.Token)
  | directories

/-- The stages that components stand for.  A `**` and the component behind
it are one stage. -/
def stages : List (List Pattern.Token) → List Stage
  | [] => []
  | [c] => if Pattern.isAnyDepth c then [.directories] else [.inside c]
  | c :: next :: rest =>
    if Pattern.isAnyDepth c then .below next :: stages rest
    else .inside c :: stages (next :: rest)

/-- What a stage leads to from a finding.  What cannot be read stays in
its place. -/
def Stage.follow (disk : Disk) (stage : Stage) : Finding → List Finding
  | .unreadable dir cause => [.unreadable dir cause]
  | .place p =>
    match stage with
    | .inside component => p.reach disk component
    | .below component =>
      p.descend disk fun name _ => Pattern.fits component name.toList
    | .directories => p.descend disk fun _ q => q.isDirectory disk

/-- What stages lead to from other findings.  What a stage has come to in
two ways is followed once. -/
def expandFrom (disk : Disk) (start : List Finding) (ss : List Stage) :
    List Finding :=
  ss.foldl
    (fun found stage => (found.flatMap (stage.follow disk)).eraseDups) start

/-- Whether a finding may be asked for as a directory. -/
def Finding.mayBeDirectory (disk : Disk) : Finding → Bool
  | .place p => p.isDirectory disk
  | .unreadable _ _ => true

/-- What a pattern matches. -/
def expand (disk : Disk) (p : Pattern) : List Finding :=
  let start := Place.ofPath disk (if p.fromRoot then "/" else ".")
  let found := expandFrom disk [.place start] (stages p.components)
  if p.wantsDirectory then found.filter (·.mayBeDirectory disk) else found

/-- Why a pattern has no list of files. -/
inductive DiscoveryError where
  /-- The pattern cannot be read. -/
  | invalid (pattern : String) (error : Pattern.SyntaxError)
  /-- A directory that its search meets cannot be read. -/
  | unreadable (pattern : String) (directory : Path) (cause : ReadError)
deriving DecidableEq, Repr

namespace DiscoveryError

/-- What is wrong with the pattern or its search. -/
def reason : DiscoveryError → String
  | invalid _ error => error.reason
  | unreadable _ directory cause =>
    "attempting to read `" ++ directory ++ "` resulted in an error: "
      ++ cause.reason

/-- The message for the user. -/
def message (e : DiscoveryError) : String :=
  match e with
  | invalid pattern _ =>
    "invalid source pattern '" ++ pattern ++ "': " ++ e.reason
  | unreadable pattern _ _ =>
    "failed to expand source pattern '" ++ pattern ++ "': " ++ e.reason

end DiscoveryError

/-- The path that a finding gives to the list of a pattern. -/
def Finding.pathFor (pattern : String) :
    Finding → Except DiscoveryError Path
  | .place p => .ok p.path
  | .unreadable dir cause => .error (.unreadable pattern dir cause)

/-- The files that a pattern matches. -/
def filesOf (disk : Disk) (pattern : String) :
    Except DiscoveryError (List Path) := do
  let p ← (Pattern.ofText pattern).mapError (.invalid pattern)
  let paths ← (expand disk p).mapM (Finding.pathFor pattern)
  return paths.filter (!disk.isDirectory ·)

/-- The first of each group of paths with the same parts, apart from
those seen before. -/
def firstSeen (seen : List (List String)) : List Path → List Path
  | [] => []
  | p :: ps =>
    if p.parts ∈ seen then firstSeen seen ps
    else p :: firstSeen (p.parts :: seen) ps

/-- The files that patterns match, or why the first pattern that fails
has none. -/
def discover (disk : Disk) (patterns : List String) :
    Except DiscoveryError (List Path) := do
  let found ← patterns.mapM (filesOf disk)
  return firstSeen [] found.flatten

end SoloScenario.Files
