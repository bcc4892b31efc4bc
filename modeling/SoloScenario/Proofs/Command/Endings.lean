import SoloScenario.Proofs.Command.Printing
import SoloScenario.Proofs.Compile.Repetition

/-!
# How the command ends

The exit code, what is printed and what is on the disk tell the same
story (`run_agrees`):

* the exit code is that of the first thing that goes wrong: the arguments,
  the log level in the environment, the options, the run, and at last the
  output of its report (`EndsBy.codeTells`);
* with exit code 2 nothing has been written, since no source is taken up
  before all options are checked (`EndsBy.disk_of_two`);
* what is printed of a run that succeeds can be read back to the paths
  that it has written, in their order (`prints_of_success`).

The story has gaps.  A variable that holds no Unicode text counts as unset,
a report may be lost when the files are already there, a line feed in the
path of the output directory breaks its lines, and a clock that is at its
end gives two files one name (`report_misleads`).
-/

namespace SoloScenario.Command

open Compile (Failure FailureKind Report FitMemory)
open Files (Disk Path Location)
open Output (StampClock)

/-! ## Log levels -/

namespace LogLevel

/-- The names of the levels; one level has two. -/
def names : List String :=
  ["trace", "debug", "info", "warn", "warning", "error"]

/-- A text names a level, in any mix of cases. -/
def Names (text : String) : Prop :=
  ∃ name ∈ names, text.toList.map Char.toLower = name.toList

/-- A text is read as a level exactly if it names one. -/
theorem ofText_ok_iff (text : String) :
    (∃ level, ofText text = .ok level) ↔ Names text := by
  have hlist : ∀ name : String,
      text.toList.map Char.toLower = name.toList
        ↔ String.ofList (text.toList.map Char.toLower) = name := fun name => by
    rw [← String.toList_inj, String.toList_ofList]
  simp only [Names, hlist, ofText]
  split <;> simp_all [names]

end LogLevel

/-- The variable is set, but not to the name of a level. -/
def LevelUnknown (level : Variable) : Prop :=
  level ≠ .unset ∧ ∀ text, level = .text text → ¬ LogLevel.Names text

/-- What is no Unicode text names no level. -/
theorem levelUnknown_notUnicode : LevelUnknown .notUnicode :=
  ⟨by simp, by simp⟩

/-- A level that is known is asked for in a text, or in none. -/
theorem ne_notUnicode {level : Variable} (h : ¬ LevelUnknown level) :
    level ≠ .notUnicode := by
  rintro rfl
  exact h levelUnknown_notUnicode

/-- **A text that names no level is refused,** whatever the arguments say. -/
theorem levelUnknown_iff {level : Variable} (hunicode : level ≠ .notUnicode)
    (argument : Option LogLevel) : LevelUnknown level
      ↔ ∃ unknown, effectiveLevel level.text? argument = .error unknown := by
  cases level with
  | unset =>
      simp [LevelUnknown, Variable.text?, effectiveLevel,
        LogLevel.ofEnvironment, Except.map]
  | notUnicode => exact absurd rfl hunicode
  | text value =>
      have hnames : LevelUnknown (.text value) ↔ ¬ LogLevel.Names value := by
        simp [LevelUnknown]
      rw [hnames, ← LogLevel.ofText_ok_iff, Variable.text?, effectiveLevel,
        LogLevel.ofEnvironment]
      cases LogLevel.ofText value <;> simp [Except.map]

/-! ## Exit codes -/

variable (readings : Nat → Int64) (args : List String) (setting : Setting)
  (disk : Disk)

/-- Help or the version is asked for. -/
def AsksAbout : Prop :=
  Arguments.read args = .error .displayHelp
    ∨ Arguments.read args = .error .displayVersion

/-- The arguments are rejected. -/
def Rejected : Prop :=
  ∃ problem, Arguments.read args = .error problem
    ∧ problem ≠ .displayHelp ∧ problem ≠ .displayVersion

/-- The run that the arguments ask for fails in one of these kinds. -/
def FailsBy (kinds : FailureKind → Prop) : Prop :=
  ∃ a, Arguments.read args = .ok a
    ∧ ∃ failure, (Compile.run readings a.options disk).1 = .error failure
      ∧ kinds failure.kind

/-- The run that the arguments ask for succeeds. -/
def Succeeds : Prop :=
  ∃ a, Arguments.read args = .ok a
    ∧ ∃ report, (Compile.run readings a.options disk).1 = .ok report

/-- The run succeeds, and the output breaks at its report. -/
def LosesReport : Prop :=
  ∃ a, Arguments.read args = .ok a
    ∧ ∃ report, (Compile.run readings a.options disk).1 = .ok report
      ∧ setting.outlet.Breaks (reportChunks a.json report)

/-- The run succeeds, and the output takes its report. -/
def Reports : Prop :=
  ∃ a, Arguments.read args = .ok a
    ∧ ∃ report, (Compile.run readings a.options disk).1 = .ok report
      ∧ ¬ setting.outlet.Breaks (reportChunks a.json report)

variable {readings args setting disk}

/-- Rejected arguments end the command. -/
theorem run_of_problem {problem : Problem}
    (h : Arguments.read args = .error problem) :
    run readings args setting disk
      = ⟨problem.exitCode, (setting.outlet.print
        [⟨problem.output setting.helpPage, ""⟩]).1, none, disk⟩ := by
  rw [run, h]

/-- Arguments that are rejected end it with exit code 2, and nothing is
printed. -/
theorem run_of_rejected {problem : Problem}
    (hread : Arguments.read args = .error problem)
    (h : problem ≠ .displayHelp ∧ problem ≠ .displayVersion) :
    run readings args setting disk = ⟨2, "", none, disk⟩ := by
  have hsilent : problem.output setting.helpPage = "" := by
    cases problem <;> simp_all [Problem.output]
  have hcode : problem.exitCode = 2 := by
    cases problem <;> simp_all [Problem.exitCode]
  rw [run_of_problem hread, hsilent, Outlet.print_empty, hcode]

/-- So does an unknown level. -/
theorem run_of_levelUnknown (readings : Nat → Int64) (disk : Disk)
    {a : Arguments} (hread : Arguments.read args = .ok a)
    (hunicode : setting.level ≠ .notUnicode)
    (h : LevelUnknown setting.level) :
    ∃ complaint, run readings args setting disk
      = ⟨2, "", some complaint, disk⟩ := by
  obtain ⟨unknown, hlevel⟩ := (levelUnknown_iff hunicode a.logLevel).mp h
  simp only [run, hread, hlevel]
  exact ⟨_, rfl⟩

/-- If neither is wrong, the command ends as the run and the output of its
report do. -/
theorem run_of_level {a : Arguments} (hread : Arguments.read args = .ok a)
    (h : ¬ LevelUnknown setting.level) :
    run readings args setting disk = conclude setting.outlet a.json
      (Compile.run readings a.options disk) := by
  have hlevel :=
    mt (levelUnknown_iff (ne_notUnicode h) a.logLevel).mpr h
  cases heffective : effectiveLevel setting.level.text? a.logLevel with
  | error unknown => exact absurd ⟨unknown, heffective⟩ hlevel
  | ok level => simp only [run, hread, heffective]

/-- A variable that holds no Unicode text is read as if it were unset. -/
theorem run_notUnicode (readings : Nat → Int64) (args : List String)
    (setting : Setting) (disk : Disk) :
    run readings args { setting with level := .notUnicode } disk
      = run readings args { setting with level := .unset } disk := by
  rfl

/-- The ways in which the command can end. -/
inductive EndsBy (readings : Nat → Int64) (args : List String)
    (setting : Setting) (disk : Disk) : Ending → Prop
  | asked {problem : Problem} {output : String}
      (hread : Arguments.read args = .error problem)
      (h : problem = .displayHelp ∨ problem = .displayVersion) :
      EndsBy readings args setting disk ⟨0, output, none, disk⟩
  | rejected {problem : Problem}
      (hread : Arguments.read args = .error problem)
      (h : problem ≠ .displayHelp ∧ problem ≠ .displayVersion) :
      EndsBy readings args setting disk ⟨2, "", none, disk⟩
  | level {a : Arguments} {complaint : String}
      (hread : Arguments.read args = .ok a)
      (h : LevelUnknown setting.level) :
      EndsBy readings args setting disk ⟨2, "", some complaint, disk⟩
  | failed {a : Arguments} {failure : Failure} {complaint : String}
      (hread : Arguments.read args = .ok a)
      (h : ¬ LevelUnknown setting.level)
      (hrun : (Compile.run readings a.options disk).1 = .error failure) :
      EndsBy readings args setting disk ⟨failureCode failure, "",
        some complaint, (Compile.run readings a.options disk).2⟩
  | lost {a : Arguments} {report : Report} {output complaint : String}
      (hread : Arguments.read args = .ok a)
      (h : ¬ LevelUnknown setting.level)
      (hrun : (Compile.run readings a.options disk).1 = .ok report)
      (hbreaks : setting.outlet.Breaks (reportChunks a.json report))
      (hbegun : output.toList <+: (reportText a.json report).toList) :
      EndsBy readings args setting disk ⟨1, output, some complaint,
        (Compile.run readings a.options disk).2⟩
  | reported {a : Arguments} {report : Report}
      (hread : Arguments.read args = .ok a)
      (h : ¬ LevelUnknown setting.level)
      (hrun : (Compile.run readings a.options disk).1 = .ok report)
      (hwhole : ¬ setting.outlet.Breaks (reportChunks a.json report)) :
      EndsBy readings args setting disk ⟨0, reportText a.json report, none,
        (Compile.run readings a.options disk).2⟩

/-- If the run succeeds, the command ends as the output of its report
does. -/
theorem run_of_success (setting : Setting) {a : Arguments} {report : Report}
    (hread : Arguments.read args = .ok a)
    (h : ¬ LevelUnknown setting.level)
    (hrun : (Compile.run readings a.options disk).1 = .ok report) :
    run readings args setting disk = conclude setting.outlet a.json
      (.ok report, (Compile.run readings a.options disk).2) := by
  have hboth : Compile.run readings a.options disk
      = (.ok report, (Compile.run readings a.options disk).2) :=
    Prod.ext hrun rfl
  rw [run_of_level hread h, hboth]

/-- So it ends in one of two ways, as the output breaks or not. -/
theorem endsBy_of_success {a : Arguments} {report : Report}
    (hread : Arguments.read args = .ok a)
    (h : ¬ LevelUnknown setting.level)
    (hrun : (Compile.run readings a.options disk).1 = .ok report) :
    EndsBy readings args setting disk (run readings args setting disk) := by
  rw [run_of_success setting hread h hrun, conclude]
  by_cases hbreaks : setting.outlet.Breaks (reportChunks a.json report)
  · obtain ⟨output, complaint, hprint, hbegun⟩ :=
      Outlet.print_of_breaks hbreaks
    rw [join_reportChunks] at hbegun
    rw [hprint]
    exact .lost hread h hrun hbreaks hbegun
  · rw [Outlet.print_of_not_breaks hbreaks, join_reportChunks]
    exact .reported hread h hrun hbreaks

/-- **The command ends in one of six ways.** -/
theorem endsBy (readings : Nat → Int64) (args : List String) (disk : Disk)
    (hunicode : setting.level ≠ .notUnicode) :
    EndsBy readings args setting disk
      (run readings args setting disk) := by
  cases hread : Arguments.read args with
  | error problem =>
      by_cases h : problem = .displayHelp ∨ problem = .displayVersion
      · have hcode : problem.exitCode = 0 := by
          rcases h with rfl | rfl <;> rfl
        rw [run_of_problem hread, hcode]
        exact .asked hread h
      · have hother := not_or.mp h
        rw [run_of_rejected hread hother]
        exact .rejected hread hother
  | ok a =>
      by_cases h : LevelUnknown setting.level
      · obtain ⟨complaint, hends⟩ :=
          run_of_levelUnknown readings disk hread hunicode h
        exact hends ▸ .level hread h
      · cases hrun : (Compile.run readings a.options disk).1 with
        | error failure =>
            have hboth : Compile.run readings a.options disk
                = (.error failure, (Compile.run readings a.options disk).2) :=
              Prod.ext hrun rfl
            rw [run_of_level hread h, hboth]
            exact .failed hread h hrun
        | ok report => exact endsBy_of_success hread h hrun

/-- Arguments that can be followed are not rejected. -/
theorem not_rejected {a : Arguments} (hread : Arguments.read args = .ok a) :
    ¬ Rejected args := by
  rintro ⟨problem, h, -⟩
  exact absurd (hread.symm.trans h) (by simp)

/-- What is asked of the arguments is asked of those that are read. -/
theorem exists_read_iff {a : Arguments} {p : Arguments → Prop}
    (hread : Arguments.read args = .ok a) :
    (∃ a, Arguments.read args = .ok a ∧ p a) ↔ p a := by
  simp [hread]

/-- What an exit code tells, unless help or the version was asked for. -/
structure CodeTells (readings : Nat → Int64) (args : List String)
    (setting : Setting) (disk : Disk) (code : Nat) : Prop where
  two : code = 2 ↔ Rejected args ∨ LevelUnknown setting.level
    ∨ FailsBy readings args disk (· = .configuration)
  one : code = 1 ↔ ¬ Rejected args ∧ ¬ LevelUnknown setting.level
    ∧ (FailsBy readings args disk (· ≠ .configuration)
      ∨ LosesReport readings args setting disk)
  zero : code = 0 ↔ ¬ Rejected args ∧ ¬ LevelUnknown setting.level
    ∧ Reports readings args setting disk

namespace EndsBy

variable {ending : Ending}

/-- **The exit code is that of the first thing that goes wrong.** -/
theorem codeTells (h : EndsBy readings args setting disk ending)
    (hask : ¬ AsksAbout args) :
    CodeTells readings args setting disk ending.exitCode := by
  cases h with
  | asked hread h =>
      refine absurd ?_ hask
      rcases h with rfl | rfl
      · exact .inl hread
      · exact .inr hread
  | rejected hread h =>
      have hrejected : Rejected args := ⟨_, hread, h⟩
      constructor <;> simp [hrejected]
  | level hread h => constructor <;> simp [h]
  | @failed a failure _ hread h hrun =>
      by_cases hkind : failure.kind = .configuration <;>
        constructor <;>
          simp [FailsBy, LosesReport, Reports, exists_read_iff hread, hrun, h,
            not_rejected hread, failureCode, hkind]
  | lost hread h hrun hbreaks =>
      constructor <;>
        simp [FailsBy, LosesReport, Reports, exists_read_iff hread, hrun, h,
          not_rejected hread, hbreaks]
  | reported hread h hrun hwhole =>
      constructor <;>
        simp [FailsBy, LosesReport, Reports, exists_read_iff hread, hrun, h,
          not_rejected hread, hwhole]

/-- **With exit code 2 nothing is written.** -/
theorem disk_of_two (h : EndsBy readings args setting disk ending)
    (hcode : ending.exitCode = 2) : ending.disk = disk := by
  cases h with
  | asked | rejected | level => rfl
  | @failed a failure _ hread h hrun =>
      refine Compile.disk_of_configuration hrun ?_
      by_contra hkind
      simp [failureCode, hkind] at hcode
  | lost | reported => exact absurd hcode (by simp)

/-- **With an exit code other than 0 nothing is printed,** unless it is the
report that is lost. -/
theorem output_of_ne_zero (h : EndsBy readings args setting disk ending)
    (hcode : ending.exitCode ≠ 0) : ending.output = ""
      ∨ ending.exitCode = 1 ∧ LosesReport readings args setting disk := by
  cases h with
  | asked | reported => exact absurd rfl hcode
  | rejected | level | failed => exact .inl rfl
  | lost hread _ hrun hbreaks => exact .inr ⟨rfl, _, hread, _, hrun, hbreaks⟩

end EndsBy

/-- Asking about the command is no failure, and writes nothing. -/
theorem run_of_asksAbout (h : AsksAbout args) :
    (run readings args setting disk).exitCode = 0
      ∧ (run readings args setting disk).disk = disk := by
  rcases h with h | h <;> rw [run_of_problem h] <;> exact ⟨rfl, rfl⟩

/-! ## What is created -/

/-- The paths that a run writes to, in their order. -/
def pathsWritten (readings : Nat → Int64) (o : Compile.Options)
    (disk : Disk) : List Path :=
  (Compile.writesOf o.outputDirectory
    (Compile.ledger readings o disk)).map Prod.fst

/-- The files that a run creates: it writes to its paths, one after the
other. -/
structure FilesCreated (readings : Nat → Int64) (o : Compile.Options)
    (disk after : Disk) : Prop where
  /-- The run has written these files, in this order, and done nothing
  else. -/
  written : disk.writeAll (Compile.writesOf o.outputDirectory
      (Compile.ledger readings o disk)) = .ok after
  /-- There was no file at any of the paths, and now there is one. -/
  created : ∀ p ∈ pathsWritten readings o disk,
    disk.isFile p = false ∧ after.isFile p = true
  /-- Wherever something has changed there was nothing before, and one of
  the paths leads there. -/
  only : ∀ l, after.node? l ≠ disk.node? l →
    disk.node? l = none
      ∧ ∃ p ∈ pathsWritten readings o disk, disk.locate? p = some l
  /-- No two of the paths lead to the same file. -/
  once : ((pathsWritten readings o disk).map disk.locate?).Nodup

/-- The output lists the files that a run has created. -/
structure ListsCreated (readings : Nat → Int64) (a : Arguments)
    (disk : Disk) (ending : Ending) : Prop extends
    FilesCreated readings a.options disk ending.disk where
  printed : Prints a.json a.outDir ending.output
    (pathsWritten readings a.options disk)

/-- The files that a run has created are there, but the output is cut
short. -/
structure CutShort (readings : Nat → Int64) (a : Arguments) (disk : Disk)
    (ending : Ending) : Prop extends
    FilesCreated readings a.options disk ending.disk where
  begun : ∃ report, (Compile.run readings a.options disk).1 = .ok report
    ∧ ending.output.toList <+: (reportText a.json report).toList

/-- The paths that chapters report are those that the run writes to. -/
theorem pathsWritten_eq {o : Compile.Options}
    {chapters : List Compile.Chapter}
    (hlog : Compile.ledger readings o disk
      = chapters.map Compile.Chapter.item) :
    pathsWritten readings o disk
      = (Compile.Report.ofChapters o.outputDirectory chapters).writtenPaths
    := by
  rw [Compile.writtenPaths_chapters, pathsWritten, hlog,
    Compile.writesOf_chapters, List.map_map]
  rfl

/-- **A run that succeeds creates the files that it writes,** no two of them
at one place. -/
theorem filesCreated_of_success {o : Compile.Options} {report : Report}
    (hwell : disk.WellFormed) (hfresh : Compile.Fresh readings o disk)
    (hdated : StampClock.Dated readings)
    (hfit : FitMemory (pathsWritten readings o disk))
    (hrun : (Compile.run readings o disk).1 = .ok report) :
    FilesCreated readings o disk (Compile.run readings o disk).2 := by
  have hwrite := Compile.disk_run readings o disk
  have hnone : ∀ w ∈ Compile.writesOf o.outputDirectory
      (Compile.ledger readings o disk), disk.isFile w.1 = false := by
    intro w hw
    obtain ⟨e, he, rfl⟩ := List.mem_map.mp hw
    obtain ⟨item, hitem, he⟩ := List.mem_flatMap.mp he
    exact hfresh item hitem e he
  refine ⟨hwrite, ?_, ?_, ?_⟩
  · intro p hp
    obtain ⟨w, hw, rfl⟩ := List.mem_map.mp hp
    exact ⟨hnone w hw, Disk.isFile_writeAll hwrite (.inl hp)⟩
  · intro l hl
    obtain ⟨w, hw, hlocated⟩ : ∃ w ∈ Compile.writesOf o.outputDirectory
        (Compile.ledger readings o disk),
        disk.locate? w.1 = some l := by
      by_contra hno
      exact hl (Disk.node?_writeAll hwrite fun w hw hlw =>
        hno ⟨w, hw, hlw⟩)
    obtain ⟨l', hl', hdir⟩ := Disk.located_of_writeAll hwrite w hw
    obtain rfl := Option.some.inj (hl'.symm.trans hlocated)
    exact ⟨Disk.node?_eq_none hlocated hdir (hnone w hw),
      w.1, List.mem_map_of_mem hw, hlocated⟩
  · obtain ⟨plan, chapters, hplan, hpass, -, hlog⟩ :=
      Compile.passage_of_run hwell hfresh hrun
    rw [pathsWritten_eq hlog] at hfit ⊢
    rw [hlog, Compile.writesOf_chapters] at hwrite
    rw [Compile.writtenPaths_chapters, List.map_map]
    exact List.pairwise_map.mpr (Compile.distinct_entries
      (Compile.outputDirectory_ne_empty hplan) hpass hwrite
      (Compile.lasts_chapters hdated hfit))

/-- **What is printed of a run that succeeds lists the files that it has
created.** -/
theorem prints_of_success {a : Arguments} {report : Report}
    (hwell : disk.WellFormed)
    (hfresh : Compile.Fresh readings a.options disk)
    (hrun : (Compile.run readings a.options disk).1 = .ok report) :
    Prints a.json a.outDir (reportText a.json report)
      (pathsWritten readings a.options disk) := by
  obtain ⟨plan, chapters, -, -, rfl, hlog⟩ :=
    Compile.passage_of_run hwell hfresh hrun
  rw [pathsWritten_eq hlog]
  exact prints_reportText a.json (Compile.writtenPaths_chapters _)

/-! ## Two runs -/

/-- Two disks come from another one by writing the same features to it, to
files that may differ in their stamps. -/
def SameUpToStamps (directory : Path) (disk after after' : Disk) : Prop :=
  ∃ es es' : List Compile.Entry,
    es'.map Compile.Entry.feature = es.map Compile.Entry.feature
      ∧ disk.writeAll (es.map (Compile.Entry.write directory)) = .ok after
      ∧ disk.writeAll (es'.map (Compile.Entry.write directory)) = .ok after'

/-- Runs that write the same features leave the same files, up to stamps. -/
theorem sameUpToStamps_of_features {readings' : Nat → Int64}
    {o : Compile.Options}
    (h : Compile.featuresOf (Compile.ledger readings' o disk)
      = Compile.featuresOf (Compile.ledger readings o disk)) :
    SameUpToStamps o.outputDirectory disk (Compile.run readings o disk).2
      (Compile.run readings' o disk).2 := by
  have hflat : ∀ items : List (Path × List Compile.Entry),
      (items.flatMap Prod.snd).map Compile.Entry.feature
        = (Compile.featuresOf items).flatMap Prod.snd := by
    intro items
    rw [List.map_flatMap, Compile.featuresOf, List.flatMap_map]
  refine ⟨_, _, ?_, Compile.disk_run readings o disk,
    Compile.disk_run readings' o disk⟩
  rw [hflat, hflat, h]

/-- The exit code for the end of a run. -/
def codeOf : Option FailureKind → Nat
  | none => 0
  | some .configuration => 2
  | some _ => 1

/-- The exit code and the disk of a command are those of its run, unless the
report of the run is lost. -/
theorem run_of_level_fields (readings : Nat → Int64) (disk : Disk)
    {a : Arguments} (hread : Arguments.read args = .ok a)
    (h : ¬ LevelUnknown setting.level) :
    (¬ LosesReport readings args setting disk →
      (run readings args setting disk).exitCode
        = codeOf (Compile.endOf (Compile.run readings a.options disk).1))
      ∧ (run readings args setting disk).disk
        = (Compile.run readings a.options disk).2 := by
  have hends := endsBy readings args disk (ne_notUnicode h)
  generalize run readings args setting disk = ending at hends
  cases hends with
  | asked hread' | rejected hread' =>
      exact absurd (hread.symm.trans hread') (by simp)
  | level _ hlevel => exact absurd hlevel h
  | @failed _ failure _ hread' _ hrun =>
      obtain rfl := Except.ok.inj (hread.symm.trans hread')
      refine ⟨fun _ => ?_, rfl⟩
      rw [hrun]
      change failureCode failure = codeOf (some failure.kind)
      cases hkind : failure.kind <;> simp [failureCode, hkind, codeOf]
  | lost hread' _ hrun hbreaks =>
      obtain rfl := Except.ok.inj (hread.symm.trans hread')
      exact ⟨fun hkept => absurd ⟨_, hread', _, hrun, hbreaks⟩ hkept, rfl⟩
  | reported hread' _ hrun _ =>
      obtain rfl := Except.ok.inj (hread.symm.trans hread')
      refine ⟨fun _ => ?_, rfl⟩
      rw [hrun]
      rfl

/-- A command and another one that asks for the same run, at any time. -/
structure SameRun (readings readings' : Nat → Int64)
    (args args' : List String) (setting setting' : Setting)
    (disk : Disk) (a : Arguments) : Prop where
  /-- At the same time, the two leave the same disk. -/
  now : (run readings args' setting' disk).disk
    = (run readings args setting disk).disk
  /-- They also end alike, unless a report is lost. -/
  alike : ¬ LosesReport readings args setting disk →
    ¬ LosesReport readings args' setting' disk →
    (run readings args' setting' disk).exitCode
      = (run readings args setting disk).exitCode
  /-- At another time they create the same files up to stamps, if both runs
  succeed. -/
  successes : Succeeds readings args disk → Succeeds readings' args' disk →
    SameUpToStamps a.outDir disk (run readings args setting disk).disk
      (run readings' args' setting' disk).disk
  /-- If they fail, they also do so alike, as long as the stamps do not
  decide what can be written. -/
  failures : Compile.EquallyWritable readings readings' a.options disk →
    SameUpToStamps a.outDir disk (run readings args setting disk).disk
        (run readings' args' setting' disk).disk
      ∧ (¬ LosesReport readings args setting disk →
        ¬ LosesReport readings' args' setting' disk →
        (run readings' args' setting' disk).exitCode
          = (run readings args setting disk).exitCode)

/-- **Neither the format of the output nor the log level tells in what is
written.** -/
theorem sameRun {readings' : Nat → Int64} {args' : List String}
    {setting' : Setting} {a a' : Arguments} (hwell : disk.WellFormed)
    (hfresh : Compile.Fresh readings a.options disk)
    (hfresh' : Compile.Fresh readings' a.options disk)
    (hread : Arguments.read args = .ok a)
    (hread' : Arguments.read args' = .ok a')
    (hoptions : a'.options = a.options) (h : ¬ LevelUnknown setting.level)
    (h' : ¬ LevelUnknown setting'.level) :
    SameRun readings readings' args args' setting setting' disk a := by
  have hone := run_of_level_fields readings disk hread h
  have htwo := fun readings => run_of_level_fields readings disk hread' h'
  rw [hoptions] at htwo
  refine ⟨?_, fun hkept hkept' => ?_, fun hsucceeds hsucceeds' => ?_,
    fun hequal => ?_⟩
  · rw [hone.2, (htwo readings).2]
  · rw [hone.1 hkept, (htwo readings).1 hkept']
  · obtain ⟨report, hrun⟩ := (exists_read_iff hread).mp hsucceeds
    obtain ⟨report', hrun'⟩ := (exists_read_iff hread').mp hsucceeds'
    rw [hoptions] at hrun'
    rw [hone.2, (htwo readings').2]
    exact sameUpToStamps_of_features (o := a.options)
      (Compile.features_of_successes hwell hfresh hfresh' hrun hrun')
  · obtain ⟨hend, hfeatures⟩ :=
      Compile.run_at_another_time hwell hfresh hfresh' hequal
    rw [hone.2, (htwo readings').2]
    refine ⟨sameUpToStamps_of_features (o := a.options) hfeatures,
      fun hkept hkept' => ?_⟩
    rw [hone.1 hkept, (htwo readings').1 hkept', hend]

/-! ## The theorem -/

/-- The exit code, the output and the files of a command agree. -/
structure Agrees (readings : Nat → Int64) (args : List String)
    (setting : Setting) (disk : Disk) (ending : Ending) : Prop where
  /-- Asking for help or the version is no failure. -/
  asked : AsksAbout args → ending.exitCode = 0 ∧ ending.disk = disk
  code : ¬ AsksAbout args →
    CodeTells readings args setting disk ending.exitCode
  /-- With exit code 2 nothing is written. -/
  untouched : ending.exitCode = 2 → ending.disk = disk
  /-- A failure prints nothing, unless it is the report that is lost. -/
  silent : ending.exitCode ≠ 0 → ending.output = ""
    ∨ ending.exitCode = 1 ∧ LosesReport readings args setting disk
  /-- Then the files are there, and the output is cut short. -/
  cut : ∀ a, Arguments.read args = .ok a → ending.exitCode = 1 →
    LosesReport readings args setting disk →
    CutShort readings a disk ending
  /-- A success lists the files that it has created. -/
  listed : ∀ a, Arguments.read args = .ok a → ending.exitCode = 0 →
    ListsCreated readings a disk ending
  /-- A command that asks for the same run, in another format or at another
  valid level, creates the same files. -/
  same : ∀ a, Arguments.read args = .ok a →
    ∀ readings' args' setting' a', Arguments.read args' = .ok a' →
    a'.options = a.options → ¬ LevelUnknown setting.level →
    ¬ LevelUnknown setting'.level → Compile.Fresh readings' a.options disk →
    SameRun readings readings' args args' setting setting' disk a

/-- **The exit code, the output and the files agree.**  The files that are
written were not there before, the clock shows dates, the paths fit into
memory, and the variable with the log level holds text if it is set. -/
theorem run_agrees (readings : Nat → Int64) (args : List String)
    {setting : Setting} {disk : Disk} (hwell : disk.WellFormed)
    (hunicode : setting.level ≠ .notUnicode)
    (hdated : StampClock.Dated readings)
    (hfresh : ∀ a, Arguments.read args = .ok a →
      Compile.Fresh readings a.options disk)
    (hfit : ∀ a, Arguments.read args = .ok a →
      FitMemory (pathsWritten readings a.options disk)) :
    Agrees readings args setting disk
      (run readings args setting disk) := by
  have hends := endsBy readings args disk hunicode
  refine ⟨run_of_asksAbout, hends.codeTells, hends.disk_of_two,
    hends.output_of_ne_zero, fun a hread hcode hloses => ?_,
    fun a hread hcode => ?_, ?_⟩
  · generalize run readings args setting disk = ending at hcode hends
    cases hends with
    | asked hread' | rejected hread' =>
        exact absurd (hread.symm.trans hread') (by simp)
    | level => exact absurd hcode (by simp)
    | failed hread' _ hrun =>
        obtain ⟨report, hok, -⟩ := (exists_read_iff hread').mp hloses
        exact absurd (hok.symm.trans hrun) (by simp)
    | lost hread' _ hrun _ hbegun =>
        obtain rfl := Except.ok.inj (hread.symm.trans hread')
        exact ⟨filesCreated_of_success hwell (hfresh a hread) hdated
          (hfit a hread) hrun, _, hrun, hbegun⟩
    | reported => exact absurd hcode (by simp)
  · generalize run readings args setting disk = ending at hcode hends
    cases hends with
    | asked hread' => exact absurd (hread.symm.trans hread') (by simp)
    | rejected | level | lost => exact absurd hcode (by simp)
    | @failed _ failure _ _ _ _ =>
        exact absurd hcode (by rw [failureCode]; split <;> simp)
    | reported hread' _ hrun _ =>
        obtain rfl := Except.ok.inj (hread.symm.trans hread')
        exact ⟨filesCreated_of_success hwell (hfresh a hread) hdated
          (hfit a hread) hrun, prints_of_success hwell (hfresh a hread) hrun⟩
  · intro a hread readings' args' setting' a' hread' hoptions h h' hfresh'
    exact sameRun hwell (hfresh a hread) hfresh' hread hread' hoptions h h'

namespace Sample

/-- Arguments that ask for a report in JSON. -/
def inJson : List String :=
  ["-o", "out", "--json", "-t", "@k", "--lang=formal", "s.feature"]

/-- Arguments that ask for the same run, with a level. -/
def withLevel : List String :=
  ["--log-level", "Debug", "-oout", "-t@k", "-l", "formal", "s.feature"]

/-- What the arguments are read as. -/
def arguments (json : Bool) (level : Option LogLevel) : Arguments where
  patterns := ["s.feature"]
  outDir := "out"
  tags := "@k"
  lang := "formal"
  expandOutlines := true
  json := json
  logLevel := level

/-- The arguments in JSON are read as meant. -/
theorem read_inJson : Arguments.read inJson = .ok (arguments true none) := by
  cbv

/-- The arguments with a level are read as meant. -/
theorem read_withLevel :
    Arguments.read withLevel = .ok (arguments false (some .debug)) := by
  cbv

/-- The environment may name a level in capitals. -/
def warns : Setting where
  level := .text "WARN"

/-- That level is known. -/
theorem not_levelUnknown_warns : ¬ LevelUnknown warns.level := by
  rintro ⟨-, h⟩
  exact h "WARN" rfl ⟨"warn", by decide, by decide⟩

/-- Nothing is set, and the output takes everything. -/
def plain : Setting where
  level := .unset

/-- A variable that is not set names no unknown level. -/
theorem not_levelUnknown_unset : ¬ LevelUnknown .unset :=
  fun h => h.1 rfl

/-- The run writes two files. -/
theorem pathsWritten_files :
    pathsWritten (fun _ => 5) (arguments true none).options
      Compile.Sample.files = ["out/f.5.feature", "out/f.6.feature"] := by
  have hlog := Compile.Sample.run_files.2
  have hoptions : (arguments true none).options
      = Compile.Sample.options ["s.feature"] := rfl
  rw [pathsWritten, hoptions, hlog]
  decide

end Sample

/-- A run in JSON under a level in the environment, and the same run as
text under a level in the arguments. -/
theorem run_agrees_json_and_text :
    (run (fun _ => 5) Sample.inJson Sample.warns
        Compile.Sample.files).exitCode = 0
    ∧ ListsCreated (fun _ => 5) (Sample.arguments true none)
      Compile.Sample.files
      (run (fun _ => 5) Sample.inJson Sample.warns Compile.Sample.files)
    ∧ SameRun (fun _ => 5) (fun _ => 0) Sample.inJson Sample.withLevel
      Sample.warns Sample.plain Compile.Sample.files
      (Sample.arguments true none) := by
  have hfive : (5 : Int64) ≤ StampClock.lastMoment := by decide
  have hfresh : ∀ a, Arguments.read Sample.inJson = .ok a →
      Compile.Fresh (fun _ => 5) a.options Compile.Sample.files := by
    intro a hread
    obtain rfl := Except.ok.inj (Sample.read_inJson.symm.trans hread)
    exact Compile.Sample.fresh_files _
  have hfit : ∀ a, Arguments.read Sample.inJson = .ok a →
      FitMemory (pathsWritten (fun _ => 5) a.options
        Compile.Sample.files) := by
    intro a hread
    obtain rfl := Except.ok.inj (Sample.read_inJson.symm.trans hread)
    rw [Sample.pathsWritten_files, FitMemory]
    decide
  have hagrees := run_agrees (fun _ => 5) Sample.inJson
    Compile.Sample.wellFormed_files
    (ne_notUnicode Sample.not_levelUnknown_warns) (fun _ => hfive) hfresh hfit
  have hask : ¬ AsksAbout Sample.inJson := by
    simp [AsksAbout, Sample.read_inJson]
  have hzero := (hagrees.code hask).zero.mpr
    ⟨not_rejected Sample.read_inJson, Sample.not_levelUnknown_warns, _,
      Sample.read_inJson, _, Compile.Sample.run_files.1,
      Outlet.not_breaks_sound _⟩
  exact ⟨hzero, hagrees.listed _ Sample.read_inJson hzero,
    hagrees.same _ Sample.read_inJson _ _ _ _ Sample.read_withLevel rfl
      Sample.not_levelUnknown_warns Sample.not_levelUnknown_unset
      (Compile.Sample.fresh_files _)⟩

/-! ## Where the output misleads -/

namespace Sample

/-- The variable is set to bytes that are no text. -/
def garbled : Setting where
  level := .notUnicode

/-- An output that refuses the second path. -/
def fullDisk : Setting where
  level := .unset
  outlet := ⟨some ⟨1, 16, "No space left on device (os error 28)"⟩⟩

/-- A disk with a directory that has a line feed in its name. -/
def twoLines : Disk where
  nodes := [(["s.feature"], .file Compile.Sample.text.toUTF8),
    (["o\nut"], .directory)]
  workingDirectory := []

/-- Arguments that ask for a run into that directory. -/
def intoTwoLines : List String :=
  ["-o", "o\nut", "-t", "@k", "--lang=formal", "s.feature"]

/-- They are read as meant. -/
theorem read_intoTwoLines : Arguments.read intoTwoLines
    = .ok { arguments false none with outDir := "o\nut" } := by
  cbv

/-- A run over the file with the text that writes what is kept of it into
some directory. -/
theorem run_into {readings : Nat → Int64} {disk : Disk} {directory : Path}
    (hwell : disk.WellFormed) (hne : directory ≠ "")
    (hdir : disk.isDirectory directory = true)
    (hdiscover : Files.discover disk ["s.feature"] = .ok ["s.feature"])
    (hread : disk.read "s.feature" = .ok Compile.Sample.text)
    (hfresh : Compile.Fresh readings
      { Compile.Sample.options ["s.feature"] with
        outputDirectory := directory } disk)
    (hwritable : ∀ e ∈ Compile.numbered readings 0 Compile.Sample.kept,
      disk.writeFault? (e.path directory) = none) :
    (Compile.run readings { Compile.Sample.options ["s.feature"] with
        outputDirectory := directory } disk).1
      = .ok (.ofChapters directory [⟨"s.feature", Compile.Sample.parts,
        Compile.numbered readings 0 Compile.Sample.kept⟩])
    ∧ pathsWritten readings { Compile.Sample.options ["s.feature"] with
        outputDirectory := directory } disk
      = (Compile.numbered readings 0 Compile.Sample.kept).map
        (Compile.Entry.path directory) := by
  have hplan := Compile.Sample.prepare_into rfl hne hdir hdiscover
  have hpass : Compile.Passage readings
      { Compile.Sample.options ["s.feature"] with
        outputDirectory := directory }
      (Compile.Sample.planned ["s.feature"]) disk 0 ["s.feature"]
      [⟨"s.feature", Compile.Sample.parts,
        Compile.numbered readings 0 Compile.Sample.kept⟩] := by
    refine .cons ?_ hwritable (.nil _)
    show Compile.partsOf (Compile.Sample.options ["s.feature"])
      (Compile.Sample.planned ["s.feature"]).dialect disk "s.feature" = _
    exact Compile.Sample.partsOf_text hread
  obtain ⟨hrun, hlog, -⟩ := Compile.run_of_passage hwell hfresh hplan hpass
  refine ⟨hrun, (pathsWritten_eq hlog).trans ?_⟩
  rw [Compile.writtenPaths_chapters]
  exact congrArg (List.map _) (List.append_nil _)

/-- Nothing is written over in that directory. -/
theorem fresh_twoLines (readings : Nat → Int64) (o : Compile.Options)
    (hdir : o.outputDirectory = "o\nut") :
    Compile.Fresh readings o twoLines := by
  have hbase : twoLines.locate? o.outputDirectory = some ["o\nut"] := by
    rw [hdir]
    decide
  exact Compile.fresh_of_no_files _ _ hbase fun name content => by
    simp [Disk.node?, twoLines]

/-- The file is found. -/
theorem discover_twoLines :
    Files.discover twoLines ["s.feature"] = .ok ["s.feature"] := by
  have hfiles : Files.filesOf twoLines "s.feature" = .ok ["s.feature"] := by
    rw [Files.filesOf, Compile.Sample.ofText_s]
    rfl
  rw [Files.discover, List.mapM_cons, hfiles]
  rfl

end Sample

/-- The exit code and the output can mislead.  Bytes that name no level pass
for a variable that is not set; an output that is full ends the command with
exit code 1, when both files have been written; the lines of the output are
not the paths, if these have line feeds; and a clock at its end has both
paths the same. -/
theorem report_misleads :
    (Compile.Fresh (fun _ => 5)
        (Sample.arguments false (some .debug)).options Compile.Sample.files
      ∧ LevelUnknown Sample.garbled.level
      ∧ (run (fun _ => 5) Sample.withLevel Sample.garbled
          Compile.Sample.files).exitCode = 0)
    ∧ (Compile.Fresh (fun _ => 5)
        (Sample.arguments false (some .debug)).options Compile.Sample.files
      ∧ (run (fun _ => 5) Sample.withLevel Sample.fullDisk
          Compile.Sample.files).exitCode = 1
      ∧ (run (fun _ => 5) Sample.withLevel Sample.fullDisk
          Compile.Sample.files).output = "out/f.5.feature\n"
      ∧ (Compile.run (fun _ => 5)
          (Sample.arguments false (some .debug)).options
          Compile.Sample.files).1
        = .ok ⟨⟨1, 3, 2⟩,
          [⟨"s.feature", ["out/f.5.feature", "out/f.6.feature"]⟩]⟩)
    ∧ (Compile.Fresh (fun _ => 5) { Sample.arguments false none with
          outDir := "o\nut" }.options Sample.twoLines
      ∧ (run (fun _ => 5) Sample.intoTwoLines Sample.plain
          Sample.twoLines).exitCode = 0
      ∧ pathsWritten (fun _ => 5) { Sample.arguments false none with
          outDir := "o\nut" }.options Sample.twoLines
        = ["o\nut/f.5.feature", "o\nut/f.6.feature"]
      ∧ Text.pieces '\n' (run (fun _ => 5) Sample.intoTwoLines Sample.plain
          Sample.twoLines).output.toList
        = ["o", "ut/f.5.feature", "o", "ut/f.6.feature", ""].map
          String.toList)
    ∧ Compile.Fresh (fun _ => Int64.maxValue)
        (Sample.arguments false (some .debug)).options Compile.Sample.files
      ∧ (run (fun _ => Int64.maxValue) Sample.withLevel Sample.plain
          Compile.Sample.files).exitCode = 0
      ∧ pathsWritten (fun _ => Int64.maxValue)
          (Sample.arguments false (some .debug)).options
          Compile.Sample.files
        = ["out/f.9223372036854775807.feature",
          "out/f.9223372036854775807.feature"] := by
  have hrun : (Compile.run (fun _ => 5)
      (Sample.arguments false (some .debug)).options
      Compile.Sample.files).1 = _ := Compile.Sample.run_files.1
  refine ⟨?_, ?_, ?_, ?_⟩
  · have hunset : run (fun _ => 5) Sample.withLevel Sample.garbled
        Compile.Sample.files = run (fun _ => 5) Sample.withLevel Sample.plain
          Compile.Sample.files :=
      run_notUnicode _ _ Sample.plain _
    rw [hunset, Sample.plain, run_of_success _ Sample.read_withLevel
      Sample.not_levelUnknown_unset hrun]
    exact ⟨Compile.Sample.fresh_files _, levelUnknown_notUnicode, rfl⟩
  · rw [Sample.fullDisk, run_of_success _ Sample.read_withLevel
      Sample.not_levelUnknown_unset hrun]
    exact ⟨Compile.Sample.fresh_files _, by decide, by decide, hrun⟩
  · have hread : Sample.twoLines.read "s.feature"
        = .ok Compile.Sample.text :=
      Disk.read_of_node? (l := ["s.feature"]) (by decide) (by decide) rfl
    obtain ⟨hrun, hpaths⟩ := Sample.run_into (by decide) (by decide)
      (by decide) Sample.discover_twoLines hread
      (Sample.fresh_twoLines (fun _ => 5) _ rfl) (by decide)
    rw [Sample.plain, run_of_success _ Sample.read_intoTwoLines
      Sample.not_levelUnknown_unset hrun]
    exact ⟨Sample.fresh_twoLines _ _ rfl, by decide,
      hpaths.trans (by decide), by decide⟩
  · have hread : Compile.Sample.files.read "s.feature"
        = .ok Compile.Sample.text :=
      Disk.read_of_node? (l := ["s.feature"]) (by decide) (by decide) rfl
    obtain ⟨hrun, hpaths⟩ := Sample.run_into Compile.Sample.wellFormed_files
      (by decide) (by decide) Compile.Sample.discover_files hread
      (Compile.Sample.fresh_files (fun _ => Int64.maxValue)) (by decide)
    rw [Sample.plain, run_of_success _ Sample.read_withLevel
      Sample.not_levelUnknown_unset hrun]
    exact ⟨Compile.Sample.fresh_files _, by decide,
      hpaths.trans (by decide)⟩

end SoloScenario.Command
