import SoloScenario.Proofs.Compile.Accounts

/-!
# Files stay in the output directory

The name of a feature is any text, and may look like a path.  In the name
of its file nothing is left that a path is made of (`IsComponent`), so a
file is written into the directory that it is meant for or not at all
(`writeFeature_confined`), and a run changes nothing outside of its output
directory (`run_confined`).

* `names_confined` — all of this, and what the stem of a name keeps.
-/

namespace SoloScenario.Compile

open Files (Disk Location Path IsName)

/-- A name that is one ordinary component of a path, by itself and behind
any directory. -/
structure IsComponent (file : String) : Prop extends IsName file where
  plain : ∀ c ∈ file.toList, c ≠ '/' ∧ c ≠ '\\' ∧ Text.isBlank c = false
  parts : Path.parts file = [file]
  parts_join : ∀ directory : Path, (Path.join directory file).parts
    = if directory = "" then [file] else directory.parts ++ [file]

/-- **The name of a file is one ordinary component of a path,** whatever
the name of the feature. -/
theorem isComponent_fileName (name : String) (stamp : Int64) :
    IsComponent (Output.fileName name stamp) := by
  have hname := isName_fileName name stamp
  refine ⟨hname, fun c hc => ?_, Path.parts_of_no_slash hname.no_slash,
    fun directory => ?_⟩
  · have hsafe := Output.isUnsafe_of_mem_fileName hc
    simp only [Output.isUnsafe, Bool.or_eq_false_iff,
      beq_eq_false_iff_ne] at hsafe
    exact ⟨hsafe.1.1, hsafe.1.2, hsafe.2⟩
  · split
    · next hdir =>
        have hjoin : Path.join directory (Output.fileName name stamp)
            = Output.fileName name stamp := by
          simp [Path.join, hdir]
        rw [hjoin, Path.parts_of_no_slash hname.no_slash]
    · next hdir => exact Path.parts_join hdir hname

/-- How a write of a text to a file in a directory ends: either the file is
there, under its name, and nothing else has changed, or nothing has. -/
inductive Confined (directory : Path) (file text : String) (before : Disk) :
    Except Failure Path × Workspace → Prop
  | written {base : Location} {after : Workspace}
      (hbase : before.base? directory = some base)
      (hdir : before.hasDirectory base = true)
      (hhome : after.disk.workingDirectory = before.workingDirectory)
      (hnodes : ∀ l, after.disk.node? l
        = if base ++ [file] = l then some (.file text.toUTF8)
          else before.node? l) :
      Confined directory file text before
        (.ok (Path.join directory file), after)
  | refused {cause : Files.WriteError} {after : Workspace}
      (hsame : after.disk = before) :
      Confined directory file text before
        (.error (.unwritable (Path.join directory file) cause), after)

/-- **A feature is written into the directory or not at all.** -/
theorem writeFeature_confined (readings : Nat → Int64) (directory : Path)
    (f : Feature) (w : Workspace) :
    Confined directory
      (Output.fileName f.name (w.clock.stamp (readings w.ticks))) f.render
      w.disk ((writeFeature readings directory f).run w) := by
  rw [run_writeFeature]
  cases hwrite : w.disk.write ((nextEntry readings w f).path directory)
    (nextEntry readings w f).text with
  | error cause => exact .refused rfl
  | ok disk =>
      obtain ⟨-, l, hl, hfile, rfl⟩ := Disk.write_eq_ok hwrite
      obtain ⟨base, hbase, hdir, rfl⟩ :=
        Disk.locate?_inside (isName_fileName _ _) hl
      exact .written hbase hdir rfl
        (Disk.node?_set (Disk.ne_root_of_not_directory hfile) _)

/-- **A run changes files of its output directory only,** and only such
that are named for a feature. -/
theorem run_confined {readings : Nat → Int64} {o : Options} {disk : Disk}
    {l : Location}
    (h : (run readings o disk).2.node? l ≠ disk.node? l) :
    ∃ base name stamp, disk.base? o.outputDirectory = some base
      ∧ disk.hasDirectory base = true
      ∧ l = base ++ [Output.fileName name stamp] := by
  have hwrites := disk_run readings o disk
  obtain ⟨v, hv, hl⟩ : ∃ v ∈ writesOf o.outputDirectory
      (ledger readings o disk), disk.locate? v.1 = some l := by
    by_contra hnone
    exact h (Disk.node?_writeAll hwrites fun v hv hl => hnone ⟨v, hv, hl⟩)
  obtain ⟨e, -, rfl⟩ := List.mem_map.mp hv
  obtain ⟨base, hbase, hdir, rfl⟩ :=
    Disk.locate?_inside (isName_fileName e.feature.name e.stamp) hl
  exact ⟨base, e.feature.name, e.stamp, hbase, hdir, rfl⟩

/-- **No name of a feature leads out of the output directory.**  The name
of a file is one ordinary component; a feature is written under it into the
given directory or not at all; and all that a whole run changes is in its
output directory, under such names.  A stem is its own stem, has as many
characters as the name and no more bytes, and is shared by exactly those
names that differ in underscored characters only. -/
theorem names_confined :
    (∀ (name : String) (stamp : Int64),
      IsComponent (Output.fileName name stamp))
    ∧ (∀ (readings : Nat → Int64) (directory : Path) (f : Feature)
        (w : Workspace),
      Confined directory
        (Output.fileName f.name (w.clock.stamp (readings w.ticks))) f.render
        w.disk ((writeFeature readings directory f).run w))
    ∧ (∀ (readings : Nat → Int64) (o : Options) (disk : Disk)
        (l : Location), (run readings o disk).2.node? l ≠ disk.node? l →
      ∃ base name stamp, disk.base? o.outputDirectory = some base
        ∧ disk.hasDirectory base = true
        ∧ l = base ++ [Output.fileName name stamp])
    ∧ (∀ name : String,
      Output.fileStem (Output.fileStem name) = Output.fileStem name
      ∧ (Output.fileStem name).length = name.length
      ∧ (Output.fileStem name).utf8ByteSize ≤ name.utf8ByteSize)
    ∧ ∀ a b : String, Output.fileStem a = Output.fileStem b
      ↔ a.length = b.length ∧ ∀ (i : Nat) (c d : Char),
        a.toList[i]? = some c → b.toList[i]? = some d →
          c = d ∨ Output.isUnderscored c = true
            ∧ Output.isUnderscored d = true :=
  ⟨isComponent_fileName, writeFeature_confined, fun _ _ _ _ => run_confined,
    fun name => ⟨Output.fileStem_fileStem name,
      Output.length_fileStem name, Output.utf8ByteSize_fileStem_le name⟩,
    fun _ _ => Output.fileStem_eq_iff⟩

namespace Sample

/-- A feature whose name looks like a way up. -/
def climbing : Feature where
  name := "../../etc/x\\y"
  tags := []
  children := []

/-- The first file that is written to the sample. -/
theorem node?_run_files :
    (run (fun _ => 5) (options ["s.feature"]) files).2.node?
        ["out", "f.5.feature"]
      ≠ files.node? ["out", "f.5.feature"] := by
  have hwrites := disk_run (fun _ => 5) (options ["s.feature"]) files
  rw [run_files.2] at hwrites
  have hfile : (run (fun _ => 5) (options ["s.feature"]) files).2.isFile
      "out/f.5.feature" = true :=
    Disk.isFile_writeAll hwrites (.inl List.mem_cons_self)
  obtain ⟨l, content, hl, hnode⟩ := Disk.isFile_iff.mp hfile
  rw [(Disk.sameTree_writeAll hwrites).locate?] at hl
  have hplace : files.locate? "out/f.5.feature"
      = some ["out", "f.5.feature"] := by decide
  obtain rfl := Option.some.inj (hplace.symm.trans hl)
  rw [hnode]
  exact Option.some_ne_none _

end Sample

/-- A name that looks like a way up leads into the directory all the same,
and so does what a run writes. -/
theorem names_confined_climbing :
    Output.fileName Sample.climbing.name 5 = ".._.._etc_x_y.5.feature"
    ∧ IsComponent ".._.._etc_x_y.5.feature"
    ∧ ((writeFeature (fun _ => 5) "out" Sample.climbing).run
        (.init Sample.files)).1 = .ok "out/.._.._etc_x_y.5.feature"
    ∧ Confined "out" ".._.._etc_x_y.5.feature" Sample.climbing.render
        Sample.files ((writeFeature (fun _ => 5) "out" Sample.climbing).run
          (.init Sample.files))
    ∧ (run (fun _ => 5) (Sample.options ["s.feature"]) Sample.files).2.node?
        ["out", "f.5.feature"] ≠ Sample.files.node? ["out", "f.5.feature"]
    ∧ (∃ base name stamp, Sample.files.base? "out" = some base
      ∧ Sample.files.hasDirectory base = true
      ∧ ["out", "f.5.feature"] = base ++ [Output.fileName name stamp])
    ∧ Output.fileStem "a/b" = Output.fileStem "a\u3000b" := by
  have hname : Output.fileName Sample.climbing.name 5
      = ".._.._etc_x_y.5.feature" := by rfl
  obtain ⟨hcomponent, hwrite, hrun, -, hstem⟩ := names_confined
  refine ⟨hname, hname ▸ hcomponent Sample.climbing.name 5, by rfl,
    hname ▸ hwrite (fun _ => 5) "out" Sample.climbing (.init Sample.files),
    Sample.node?_run_files, hrun _ _ _ _ Sample.node?_run_files, ?_⟩
  refine (hstem "a/b" "a\u3000b").mpr ⟨by decide, fun i c d hc hd => ?_⟩
  -- Only the characters in the middle differ.
  rcases i with _ | _ | _ | i <;> simp at hc hd <;> subst hc hd
  · exact .inl rfl
  · exact .inr (by decide)
  · exact .inl rfl

end SoloScenario.Compile
