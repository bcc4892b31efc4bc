import SoloScenario.Command.Run
import SoloScenario.Proofs.Compile.Accounts
import SoloScenario.Proofs.Json.RoundTrip

/-!
# What the command prints

A report that is printed can be read back to the paths of the run, in both
of its formats (`Prints`); as text, its lines are the paths unless the
output directory has a line feed in its own path.  Where the output breaks,
a beginning of the report at most has come out.

* `Outlet.print_of_breaks` — what comes out of an output that breaks;
* `prints_reportText` — what is printed of a report is read back to its
  paths.
-/

namespace SoloScenario.Command

open Compile (Report SourceReport)
open Files (Path)

/-! ## Outputs that break -/

namespace Chunk

/-- The text of chunks behind others. -/
theorem join_append (chunks more : List Chunk) :
    join (chunks ++ more) = join chunks ++ join more := by
  rw [join, List.map_append, String.join_append]
  rfl

/-- The text of the first chunks is where the text of all begins. -/
theorem join_take (n : Nat) (chunks : List Chunk) :
    (join (chunks.take n)).toList <+: (join chunks).toList := by
  have hall := join_append (chunks.take n) (chunks.drop n)
  rw [List.take_append_drop] at hall
  rw [hall, String.toList_append]
  exact List.prefix_append _ _

end Chunk

/-- The output breaks at one of the chunks. -/
def Outlet.Breaks (outlet : Outlet) (chunks : List Chunk) : Prop :=
  ∃ b ∈ outlet.breakage?, b.chunk < chunks.length

namespace Outlet

variable {outlet : Outlet} {chunks : List Chunk}

/-- An output that takes everything breaks nowhere. -/
theorem not_breaks_sound (chunks : List Chunk) : ¬ sound.Breaks chunks := by
  simp [Breaks, sound]

/-- An output that does not break takes all chunks. -/
theorem print_of_not_breaks (h : ¬ outlet.Breaks chunks) :
    outlet.print chunks = (Chunk.join chunks, none) := by
  rw [print]
  cases hb : outlet.breakage? with
  | none => rfl
  | some b =>
      have hlate : chunks.length ≤ b.chunk :=
        Nat.le_of_not_lt fun hlt => h ⟨b, hb, hlt⟩
      dsimp only
      rw [List.getElem?_eq_none hlate]

/-- **Of chunks at which the output breaks a beginning comes out,** and
something is said of it. -/
theorem print_of_breaks (h : outlet.Breaks chunks) :
    ∃ output complaint, outlet.print chunks = (output, some complaint)
      ∧ output.toList <+: (Chunk.join chunks).toList := by
  obtain ⟨b, hb, hlt⟩ := h
  rw [print, hb]
  dsimp only
  rw [List.getElem?_eq_getElem hlt]
  refine ⟨_, _, rfl, ?_⟩
  rw [String.toList_ofList]
  exact (List.take_prefix _ _).trans (Chunk.join_take _ _)

/-- Nothing comes out of no text. -/
theorem print_empty (outlet : Outlet) (complaint : String) :
    (outlet.print [⟨"", complaint⟩]).1 = "" := by
  have hnone : Chunk.join [⟨"", complaint⟩] = "" := by
    simp [Chunk.join]
  by_cases h : outlet.Breaks [⟨"", complaint⟩]
  · obtain ⟨output, said, hprint, hbegun⟩ := print_of_breaks h
    rw [hnone] at hbegun
    rw [hprint]
    simpa using hbegun
  · rw [print_of_not_breaks h, hnone]

end Outlet

/-- The chunks of a report make up its text. -/
theorem join_reportChunks (json : Bool) (r : Report) :
    Chunk.join (reportChunks json r) = reportText json r := by
  rw [reportChunks, Chunk.join_append]
  cases json with
  | false => simp [Chunk.join, reportText, Function.comp_def]
  | true => simp [Chunk.join, reportText]

/-! ## Reports in JSON -/

/-- The value of the member with a key. -/
def member? (v : Json.Value) (key : String) : Option Json.Value :=
  match v with
  | .object members =>
    (members.find? fun m => m.1 == Json.CodePoints.ofText key).map Prod.snd
  | _ => none

/-- The paths that a report in JSON lists, source by source. -/
def listedPaths? (v : Json.Value) : Option (List Path) :=
  match member? v "sources" with
  | some (.array sources) =>
    (sources.mapM fun s => (member? s "written").bind Json.Value.texts?).map
      List.flatten
  | _ => none

/-- What is said of one source can be read back. -/
theorem plain_sourceValue (s : SourceReport) :
    (Report.sourceValue s).Plain := by
  refine .object fun m hm => ?_
  simp only [List.mem_cons, List.not_mem_nil, or_false] at hm
  rcases hm with rfl | rfl
  · exact .text _
  · refine .array fun v hv => ?_
    obtain ⟨path, -, rfl⟩ := List.mem_map.mp hv
    exact .text path

/-- The report can be read back. -/
theorem plain_toValue (r : Report) : r.toValue.Plain := by
  refine .object fun m hm => ?_
  simp only [List.mem_cons, List.not_mem_nil, or_false] at hm
  rcases hm with rfl | rfl | rfl | rfl
  · refine .array fun v hv => ?_
    obtain ⟨s, -, rfl⟩ := List.mem_map.mp hv
    exact plain_sourceValue s
  · exact .count _
  · exact .count _
  · exact .count _

/-- What can be had from every item can be had from the list. -/
theorem mapM_some {α β : Type} {f : α → Option β} {g : α → β} {xs : List α}
    (h : ∀ x ∈ xs, f x = some (g x)) : xs.mapM f = some (xs.map g) := by
  induction xs with
  | nil => rfl
  | cons x xs ih =>
      obtain ⟨hx, hxs⟩ := List.forall_mem_cons.mp h
      rw [List.mapM_cons, hx, ih hxs]
      rfl

/-- A report in JSON lists the paths of the report. -/
theorem listedPaths?_toValue (r : Report) :
    listedPaths? r.toValue = some r.writtenPaths := by
  have hsources : member? r.toValue "sources"
      = some (.array (r.sources.map Report.sourceValue)) := by
    simp [member?, Report.toValue, Json.Value.ofMembers]
  have hwritten : ∀ s : SourceReport,
      (member? (Report.sourceValue s) "written").bind Json.Value.texts?
        = some s.written := by
    intro s
    have hlist : member? (Report.sourceValue s) "written"
        = some (.array (s.written.map .ofText)) := by
      simp [member?, Report.sourceValue, Json.Value.ofMembers,
        Json.ofText_inj]
    rw [hlist, Option.bind_some, Json.Value.texts?, List.mapM_map]
    exact (mapM_some fun path _ => Json.toText?_ofText path).trans
      (congrArg some (List.map_id _))
  have hlists : (r.sources.map Report.sourceValue).mapM
      (fun s => (member? s "written").bind Json.Value.texts?)
        = some (r.sources.map SourceReport.written) := by
    rw [List.mapM_map]
    exact mapM_some fun s _ => hwritten s
  rw [listedPaths?, hsources]
  dsimp only
  rw [hlists, Option.map_some, Report.writtenPaths, List.flatMap_def]

/-! ## Reports as text -/

/-- Lines with their line feeds, cut at the line feeds, are the lines. -/
theorem pieces_of_lines {ls : List String} (h : ∀ l ∈ ls, '\n' ∉ l.toList) :
    Text.pieces '\n' (String.join (ls.map (· ++ "\n"))).toList
      = ls.map String.toList ++ [[]] := by
  induction ls with
  | nil => rfl
  | cons l ls ih =>
      obtain ⟨hl, hls⟩ := List.forall_mem_cons.mp h
      have hrest := Text.pieces_separator '\n'
        (String.join (ls.map (· ++ "\n"))).toList
      rw [ih hls] at hrest
      have hfirst := Text.pieces_append_of_not_mem hl hrest
      rw [List.append_nil] at hfirst
      simpa [String.toList_append] using hfirst

/-- A file is no more than one line if its directory is none. -/
theorem newline_notMem_path {directory : Path}
    (h : '\n' ∉ directory.toList) (e : Compile.Entry) :
    '\n' ∉ (e.path directory).toList := by
  have hname : '\n' ∉ (Output.fileName e.feature.name e.stamp).toList :=
    fun hmem => absurd (Output.isUnsafe_of_mem_fileName hmem) (by decide)
  rw [Compile.Entry.path, Path.join]
  split <;> simp [String.toList_append, h, hname]

/-- The output lists the paths of files in a directory: as a report in JSON,
or as text with a line feed behind each.  Cut at its line feeds the text is
the list, unless there is one in the directory's own path. -/
def Prints (json : Bool) (directory : Path) (output : String)
    (paths : List Path) : Prop :=
  if json then (Json.read? output).bind listedPaths? = some paths
  else output = String.join (paths.map (· ++ "\n"))
    ∧ ('\n' ∉ directory.toList → Text.pieces '\n' output.toList
      = paths.map String.toList ++ [[]])

/-- **What is printed of a report can be read back to its paths.** -/
theorem prints_reportText (json : Bool) {directory : Path} {r : Report}
    {es : List Compile.Entry}
    (hpaths : r.writtenPaths = es.map (Compile.Entry.path directory)) :
    Prints json directory (reportText json r) r.writtenPaths := by
  cases json with
  | false =>
      refine ⟨rfl, fun hdir => pieces_of_lines fun p hp => ?_⟩
      rw [hpaths] at hp
      obtain ⟨e, -, rfl⟩ := List.mem_map.mp hp
      exact newline_notMem_path hdir e
  | true =>
      have hread : Json.read? (reportText true r) = some r.toValue :=
        Json.read?_pretty (plain_toValue r) 0
      rw [Prints, if_pos rfl, hread]
      exact listedPaths?_toValue r

end SoloScenario.Command
