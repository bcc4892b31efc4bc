import SoloScenario.Command.Run
import Std.Time.DateTime.Timestamp

/-!
# The program

What the command does is a function of the arguments, the environment, a
disk and the readings of a clock (`Command.run`).  This file supplies
them: it looks at the part of the file system that the patterns and the
output directory lead to, runs the command on that, and then writes the
files in which the disk has changed.

The time is read once.  All files of a run are stamped from that reading
on, which the stamp clock keeps apart.
-/

namespace SoloScenario.Main

open Files (Disk Location)

/-- The text of an absolute path. -/
def pathText (l : Location) : String :=
  "/" ++ String.intercalate "/" l

/-- The disk with what there is at a location.  A file is put there
without its content. -/
def look (disk : Disk) (l : Location) : IO Disk := do
  let path := (← IO.currentDir) / pathText l
  if ← path.isDir then
    return disk.makeDirectory l
  else if ← path.pathExists then
    return disk.putFile l .empty
  else
    return disk

/-- The names in the directory at a location, if it is one. -/
def listNames (l : Location) : IO (List String) := do
  let path := (← IO.currentDir) / pathText l
  if ← path.isDir then
    return ((← path.readDir).map fun entry => entry.fileName).toList
  else
    return []

/-- The disk with everything below a location. -/
partial def lookBelow (disk : Disk) (l : Location) : IO Disk := do
  let mut disk := disk
  for name in ← listNames l do
    disk ← look disk (l ++ [name])
    disk ← lookBelow disk (l ++ [name])
  return disk

/-- The disk with everything that the components of a pattern can lead to
from a location. -/
def lookAlong (disk : Disk) (l : Location) :
    List (List Files.Pattern.Token) → IO Disk
  | [] => return disk
  | component :: rest =>
    if Files.Pattern.isAnyDepth component then
      lookBelow disk l
    else
      match Files.Pattern.literalText? component with
      | some "" => lookAlong disk l rest
      | some "." => lookAlong disk l rest
      | some ".." => lookAlong disk l.dropLast rest
      | some name => do
        lookAlong (← look disk (l ++ [name])) (l ++ [name]) rest
      | none => do
        let mut disk := disk
        for name in ← listNames l do
          disk ← look disk (l ++ [name])
          disk ← lookAlong disk (l ++ [name]) rest
        return disk

/-- The disk with all that a path written as text leads through. -/
def lookAt (disk : Disk) (start : Location) (path : String) : IO Disk :=
  lookAlong disk (if path.startsWith "/" then [] else start)
    ((Files.Path.pieces path).map fun name =>
      name.toList.map Files.Pattern.Token.literal)

/-- The part of the file system that a run with these options needs. -/
def survey (o : Compile.Options) : IO Disk := do
  let here := ((← IO.currentDir).toString.splitOn "/").filter (· ≠ "")
  let blank : Disk := ⟨[], here⟩
  let mut disk := blank.makeDirectory here
  disk ← lookAt disk here o.outputDirectory
  for text in o.patterns do
    match Files.Pattern.ofText text with
    | .error _ => pure ()
    | .ok p =>
      disk ← lookAlong disk (if p.fromRoot then [] else here) p.components
  match Files.discover disk o.patterns with
  | .error _ => pure ()
  | .ok sources =>
    for source in sources do
      if let some l := disk.locate? source then
        disk := disk.putFile l (← IO.FS.readBinFile (pathText l))
  return disk

/-- Writes the files in which a disk differs from what it was. -/
def commit (before after : Disk) : IO Unit := do
  for (l, node) in after.nodes do
    match node, before.node? l with
    | .file content, some (.file old) =>
      if old.data != content.data then
        IO.FS.writeBinFile (pathText l) content
    | .file content, _ => IO.FS.writeBinFile (pathText l) content
    | .directory, _ => pure ()

/-- The time in milliseconds. -/
def now : IO Int64 := do
  let time ← Std.Time.Timestamp.now
  return Int64.ofInt time.toMillisecondsSinceUnixEpoch.val

/-- How the command is used. -/
def helpPage : String :=
  "Usage: gherkin-split [OPTIONS] --out-dir <DIR> <PATTERN>...\n"

end SoloScenario.Main

open SoloScenario in
/-- The program: see `Command.run`.  Whether the output breaks is only found
when it is written, behind everything else. -/
def main (args : List String) : IO UInt32 := do
  let before ← match Command.Arguments.read args with
    | .ok a => Main.survey a.options
    | .error _ => pure ⟨[], []⟩
  let time ← Main.now
  let level := Command.Variable.ofText? (← IO.getEnv Command.levelVariable)
  let ending := Command.run (fun _ => time) args
    { level, helpPage := Main.helpPage } before
  Main.commit before ending.disk
  if let some complaint := ending.complaint then
    IO.eprintln complaint
  try
    IO.print ending.output
    (← IO.getStdout).flush
    return ending.exitCode.toUInt32
  catch broken =>
    let reports := (Command.Arguments.read args).isOk
    if reports then
      IO.eprintln broken
    return if reports && ending.exitCode = 0 then 1
      else ending.exitCode.toUInt32
