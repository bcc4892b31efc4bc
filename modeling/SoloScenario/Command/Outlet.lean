/-!
# Standard output

Output is written chunk by chunk, and any of them may be refused: the disk
that the output goes to is full, the reader is gone, or a path in a JSON
report is no Unicode text.  Nothing is written behind a chunk that is
refused.  How much of the chunks in front
has come out by then is up to the system, which may hold back what has been
written.

* `Outlet.print` — what comes out of chunks, and what is said if one of
  them cannot be written.
-/

namespace SoloScenario.Command

/-- A piece of the output, and what is said if it cannot be written. -/
structure Chunk where
  text : String
  complaint : String

/-- The text of chunks in a row. -/
def Chunk.join (chunks : List Chunk) : String :=
  String.join (chunks.map Chunk.text)

/-- How an output breaks: the number of the chunk that is refused, how many
characters have come out by then, and the reason that the system gives. -/
structure Breakage where
  chunk : Nat
  shown : Nat
  cause : String

/-- Where the output goes.  It may break. -/
structure Outlet where
  breakage? : Option Breakage

namespace Outlet

/-- An output that takes everything. -/
def sound : Outlet :=
  ⟨none⟩

/-- Writes chunks: what comes out, and what is said if one is refused. -/
def print (outlet : Outlet) (chunks : List Chunk) :
    String × Option String :=
  match outlet.breakage? with
  | none => (Chunk.join chunks, none)
  | some b =>
    match chunks[b.chunk]? with
    | none => (Chunk.join chunks, none)
    | some refused =>
      let written := Chunk.join (chunks.take (b.chunk + 1))
      (String.ofList (written.toList.take b.shown),
        some (refused.complaint ++ ": " ++ b.cause))

end Outlet

end SoloScenario.Command
