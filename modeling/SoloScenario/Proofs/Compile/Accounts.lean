import SoloScenario.Proofs.Compile.Passage
import SoloScenario.Proofs.Files.Inside
import SoloScenario.Proofs.Output.FileNames

/-!
# A report accounts for its run

A run that succeeds has done what its report says (`Accounts`): each
source is split and filtered as it is read from the disk before the run,
what is kept can be read at the paths listed for the source, in their
order, and nothing else is on the disk that was not there before.

Two files of a run never have the same path, since their stamps differ
(`distinct_entries`).  This needs a clock that lasts: one that is at its
end gives out its last stamp again, and a file may be written over.  A
clock lasts if its readings are dates, as long as the report of the run can
be held in memory (`lasts_chapters`).

* `report_accounts` — the account of every run that succeeds.
-/

namespace SoloScenario.Compile

open Files (Disk Location Path IsName)
open Output (StampClock)

variable {readings : Nat → Int64} {o : Options} {plan : Plan} {disk : Disk}

/-! ## The paths of entries -/

/-- A file has a name that a node can have. -/
theorem isName_fileName (name : String) (stamp : Int64) :
    IsName (Output.fileName name stamp) := by
  have hlong : ∀ other : String, other.length < 8 →
      Output.fileName name stamp ≠ other := by
    rintro other hlen rfl
    have hend : ".feature".length = 8 := by decide
    simp only [Output.fileName, String.length_append, hend] at hlen
    omega
  exact ⟨hlong "" (by decide), hlong "." (by decide), hlong ".." (by decide),
    Output.slash_notMem_fileName name stamp⟩

/-- A path that an entry can be written to leads into the output
directory, to the name of the entry. -/
theorem locate?_path {directory : Path} (hdir : directory ≠ "") {e : Entry}
    {l : Location} (hl : disk.locate? (e.path directory) = some l) :
    ∃ base, disk.locate? directory = some base
      ∧ l = base ++ [Output.fileName e.feature.name e.stamp] := by
  obtain ⟨base, hbase, -, hinside⟩ :=
    Disk.locate?_inside (isName_fileName e.feature.name e.stamp) hl
  rw [Disk.base?, if_neg hdir] at hbase
  exact ⟨base, hbase, hinside⟩

/-- Entries with different stamps are written to different locations. -/
theorem stamp_of_locate? {directory : Path} (hdir : directory ≠ "")
    {e e' : Entry} {l : Location}
    (hl : disk.locate? (e.path directory) = some l)
    (hl' : disk.locate? (e'.path directory) = some l) :
    e.stamp = e'.stamp := by
  obtain ⟨base, hbase, rfl⟩ := locate?_path hdir hl
  obtain ⟨base', hbase', heq⟩ := locate?_path hdir hl'
  obtain rfl : base = base' := Option.some.inj (hbase.symm.trans hbase')
  exact Output.stamp_of_fileName (List.singleton_inj.mp
    (List.append_cancel_left heq))

/-- Nothing is written over in a directory without files. -/
theorem fresh_of_no_files (readings : Nat → Int64) (base : Location)
    (hbase : disk.locate? o.outputDirectory = some base)
    (hnone : ∀ name content,
      disk.node? (base ++ [name]) ≠ some (.file content)) :
    Fresh readings o disk := by
  intro item _ e _
  have hdir :=
    (Disk.isUsable_iff.mp (Disk.isUsable_of_locate? hbase)).1
  cases hfile : disk.isFile (e.path o.outputDirectory) with
  | false => rfl
  | true =>
      obtain ⟨l, content, hl, hn⟩ := Disk.isFile_iff.mp hfile
      obtain ⟨base', hbase', rfl⟩ := locate?_path hdir hl
      obtain rfl : base = base' := Option.some.inj (hbase.symm.trans hbase')
      exact absurd hn (hnone _ content)

/-! ## Reports of chapters -/

variable {chapters : List Chapter}

/-- The paths written are those of the entries. -/
theorem writtenPaths_chapters (directory : Path) :
    (Report.ofChapters directory chapters).writtenPaths
      = (entriesOf chapters).map (Entry.path directory) := by
  rw [Report.writtenPaths, Report.ofChapters, List.flatMap_map, entriesOf,
    List.map_flatMap]
  rfl

/-- **What has been counted up chapter by chapter are sums over the
chapters.** -/
theorem foldl_after (t : Totals) : chapters.foldl Totals.after t
    = { featuresParsed := t.featuresParsed + chapters.length
        scenariosGenerated := t.scenariosGenerated
          + (chapters.map fun c => c.parts.length).sum
        scenariosWritten := t.scenariosWritten
          + (chapters.map fun c => c.entries.length).sum } := by
  induction chapters generalizing t with
  | nil => rfl
  | cons c chapters ih =>
      rw [List.foldl_cons, ih]
      simp only [Totals.after, List.length_cons, List.map_cons, List.sum_cons,
        Nat.add_assoc, Nat.add_comm 1]

/-- The totals of a report of chapters. -/
theorem totals_chapters (directory : Path) :
    (Report.ofChapters directory chapters).toTotals
      = { featuresParsed := chapters.length
          scenariosGenerated := (chapters.map fun c => c.parts.length).sum
          scenariosWritten := (chapters.map fun c => c.entries.length).sum }
    := by
  rw [Report.ofChapters, foldl_after]
  simp only [Nat.zero_add]

/-- There are as many entries as the chapters have together. -/
theorem length_entriesOf :
    (entriesOf chapters).length
      = (chapters.map fun c => c.entries.length).sum := by
  rw [entriesOf, List.length_flatMap]

/-- As many files are counted as there are entries. -/
theorem scenariosWritten_chapters (directory : Path) :
    (Report.ofChapters directory chapters).scenariosWritten
      = (entriesOf chapters).length := by
  rw [totals_chapters, length_entriesOf]

/-- The ledger of chapters writes their entries. -/
theorem writesOf_chapters (directory : Path) :
    writesOf directory (chapters.map Chapter.item)
      = (entriesOf chapters).map (Entry.write directory) := by
  rw [writesOf, List.flatMap_map]
  rfl

/-- No two chapters of a run have the same source. -/
theorem nodup_chapters (hplan : prepare disk o = .ok plan)
    (hpass : Passage readings o plan disk 0 plan.sources chapters) :
    (chapters.map fun c => c.source.parts).Nodup := by
  have hnodup := Files.nodup_parts_of_discover (prepare_eq_ok hplan).2.2
  rwa [← hpass.sources, List.map_map] at hnodup

/-- **The entries of a run go to different locations,** if its clock
lasts. -/
theorem distinct_entries {paths : List Path} {final : Disk}
    (hdir : o.outputDirectory ≠ "")
    (hpass : Passage readings o plan disk 0 paths chapters)
    (hwrite : disk.writeAll ((entriesOf chapters).map
      (Entry.write o.outputDirectory)) = .ok final)
    (hlasts : StampClock.Lasts readings (entriesOf chapters).length) :
    (entriesOf chapters).Pairwise fun e e' =>
      disk.locate? (e.path o.outputDirectory)
        ≠ disk.locate? (e'.path o.outputDirectory) := by
  have hstamps : (entriesOf chapters).Pairwise fun e e' =>
      e.stamp < e'.stamp := by
    rw [← List.pairwise_map, hpass.stamps, List.pairwise_map]
    refine List.Pairwise.imp_of_mem (fun {i j} _ hj hij => ?_)
      List.pairwise_lt_range'
    have hlt := (List.mem_range'_1.mp hj).2
    rw [Nat.zero_add] at hlt
    exact StampClock.stampAt_lt hlasts hij hlt
  have hlocated := Disk.located_of_writeAll hwrite
  refine hstamps.imp_of_mem fun {e e'} he _ hlt heq => ?_
  obtain ⟨l, hl, -⟩ := hlocated _ (List.mem_map_of_mem he)
  have hsame := stamp_of_locate? hdir hl (heq.symm.trans hl)
  rw [hsame] at hlt
  exact Int64.lt_irrefl hlt

/-- **The entries of a run create as many files,** where there was nothing
before, and change nothing else. -/
theorem created_entries {directory : Path} {final : Disk}
    (hwrite : disk.writeAll ((entriesOf chapters).map
      (Entry.write directory)) = .ok final)
    (hfresh : ∀ e ∈ entriesOf chapters,
      disk.isFile (e.path directory) = false)
    (hdistinct : (entriesOf chapters).Pairwise fun e e' =>
      disk.locate? (e.path directory) ≠ disk.locate? (e'.path directory)) :
    ∃ created : List Location, created.Nodup
      ∧ created.length = (entriesOf chapters).length
      ∧ ((entriesOf chapters).map (Entry.path directory)).map disk.locate?
        = created.map some
      ∧ (∀ l ∈ created, disk.node? l = none)
      ∧ ∀ l, l ∉ created → final.node? l = disk.node? l := by
  have hfresh' : ∀ v ∈ (entriesOf chapters).map (Entry.write directory),
      disk.isFile v.1 = false := by
    intro v hv
    obtain ⟨e, he, rfl⟩ := List.mem_map.mp hv
    exact hfresh e he
  obtain ⟨created, hnodup, hpaths, hnone, hsame⟩ :=
    Disk.created_writeAll hwrite hfresh' (List.pairwise_map.mpr hdistinct)
  rw [List.map_map] at hpaths
  refine ⟨created, hnodup, ?_, ?_, hnone, hsame⟩
  · have hlength := congrArg List.length hpaths
    simpa using hlength.symm
  · rw [List.map_map]
    exact hpaths

/-! ## The account -/

/-- A report accounts for a run from one disk to another: what the run has
done with each source is in a chapter of its own. -/
structure Accounts (readings : Nat → Int64) (o : Options) (disk : Disk)
    (report : Report) (final : Disk) (dialect : Dialect)
    (filter : TagFilter) (chapters : List Chapter) : Prop where
  spoken : Dialect.ofCode o.language = .ok dialect
  asked : TagFilter.ofText o.tagExpression = .ok filter
  /-- The report has its chapters in their order. -/
  reported :
    report.sources = chapters.map (Chapter.report o.outputDirectory)
  /-- The sources are the files that are discovered, in their order. -/
  discovered : Files.discover disk o.patterns
    = .ok (report.sources.map SourceReport.source)
  /-- None of them is there twice. -/
  once : (report.sources.map fun s => Path.parts s.source).Nodup
  /-- A source is split as it is read before the run, and has an entry for
  each part that the filter keeps. -/
  split : ∀ c ∈ chapters, ∃ text f, disk.read c.source = .ok text
    ∧ Feature.read dialect text = .ok f
    ∧ c.parts = f.split o.expandOutlines
    ∧ c.entries.map Entry.feature = filter.select c.parts
  /-- The entries have the stamps of one clock. -/
  stamps : (entriesOf chapters).map Entry.stamp
    = StampClock.new.stamps
      ((List.range report.scenariosWritten).map readings)
  /-- What is kept of a source can be read at its paths, in order. -/
  readable : ∀ c ∈ chapters,
    (c.report o.outputDirectory).written.map final.read
      = (filter.select c.parts).map fun f => .ok f.render
  /-- As many sources have been counted as there are. -/
  parsed : report.featuresParsed = report.sources.length
  /-- What has been counted before filtering are all parts. -/
  generated : report.scenariosGenerated
    = (chapters.map fun c => c.parts.length).sum
  /-- As many files have been counted as are listed. -/
  written : report.scenariosWritten
    = (report.sources.map fun s => s.written.length).sum
  distinct : report.writtenPaths.Nodup
  /-- As many files are created, where there was nothing before, and
  nothing else is changed. -/
  created : ∃ created : List Location, created.Nodup
    ∧ created.length = report.scenariosWritten
    ∧ report.writtenPaths.map disk.locate? = created.map some
    ∧ (∀ l ∈ created, disk.node? l = none)
    ∧ ∀ l, l ∉ created → final.node? l = disk.node? l
  /-- A blank tag expression keeps everything. -/
  unfiltered : Text.isAllBlank o.tagExpression.toList = true →
    report.scenariosWritten = report.scenariosGenerated

/-- A filter of a blank text keeps every feature. -/
theorem select_blank {filter : TagFilter}
    (h : Text.isAllBlank o.tagExpression.toList = true)
    (hfilter : TagFilter.ofText o.tagExpression = .ok filter)
    (fs : List Feature) : filter.select fs = fs := by
  rw [TagFilter.ofText, if_pos h] at hfilter
  obtain rfl := Except.ok.inj hfilter
  exact List.filter_eq_self.mpr fun _ _ => rfl

/-- Under a blank expression there is an entry for every part. -/
theorem entries_blank {paths : List Path}
    (h : Text.isAllBlank o.tagExpression.toList = true)
    (hfilter : TagFilter.ofText o.tagExpression = .ok plan.filter)
    (hpass : Passage readings o plan disk 0 paths chapters) :
    (chapters.map fun c => c.entries.length).sum
      = (chapters.map fun c => c.parts.length).sum := by
  refine congrArg List.sum (List.map_congr_left fun c hc => ?_)
  have hkept := congrArg List.length (hpass.told c hc).2
  rwa [List.length_map, select_blank h hfilter] at hkept

/-- What is read of a source that has parts. -/
theorem partsOf_eq_ok {dialect : Dialect} {path : Path}
    {all : List Feature} (h : partsOf o dialect disk path = .ok all) :
    ∃ text f, disk.read path = .ok text
      ∧ Feature.read dialect text = .ok f
      ∧ all = f.split o.expandOutlines := by
  rw [partsOf] at h
  split at h
  · exact absurd h (by simp)
  · next text htext =>
      rw [parse] at h
      cases hf : Feature.read dialect text with
      | error position => exact absurd h (by simp [hf, Except.mapError,
          Except.map])
      | ok f =>
          rw [hf] at h
          exact ⟨text, f, htext, hf, (Except.ok.inj h).symm⟩

/-- Paths that are in memory at once, where addresses have 64 bits.  A run
holds the paths that it reports in this way, so it does not end with a
report of others. -/
def FitMemory (paths : List Path) : Prop :=
  (paths.map String.utf8ByteSize).sum < 2 ^ 64

/-- The path of a file has at least the bytes of `.feature`. -/
theorem size_path (directory : Path) (e : Entry) :
    8 ≤ (e.path directory).utf8ByteSize := by
  have hjoin := Path.size_le_join_right directory
    (Output.fileName e.feature.name e.stamp)
  have hend : ".feature".utf8ByteSize = 8 := by decide
  rw [Output.fileName, String.utf8ByteSize_append, hend] at hjoin
  exact Nat.le_of_add_left_le hjoin

/-- Where the paths of entries fit, there are no more than `2 ^ 61`. -/
theorem FitMemory.length_le {directory : Path} {es : List Entry}
    (h : FitMemory (es.map (Entry.path directory))) :
    es.length ≤ 2 ^ 61 := by
  have hsizes : 8 * es.length
      ≤ ((es.map (Entry.path directory)).map String.utf8ByteSize).sum := by
    clear h
    induction es with
    | nil => exact Nat.zero_le _
    | cons e es ih =>
        have he := size_path directory e
        simp only [List.length_cons, List.map_cons, List.sum_cons]
        omega
  rw [FitMemory] at h
  omega

/-- The clock of a run lasts for the files that it reports, if it is read
from a calendar. -/
theorem lasts_chapters (hdated : StampClock.Dated readings)
    (hfit : FitMemory
      (Report.ofChapters o.outputDirectory chapters).writtenPaths) :
    StampClock.Lasts readings (entriesOf chapters).length := by
  rw [writtenPaths_chapters] at hfit
  exact StampClock.lasts_of_dated hdated hfit.length_le

/-- **A run that succeeds has done what its report says,** if no file that
it writes was there before.  The readings are dates, and the report is one
that a machine can hold. -/
theorem report_accounts {report : Report} {final : Disk}
    (hwell : disk.WellFormed) (hfresh : Fresh readings o disk)
    (hrun : run readings o disk = (.ok report, final))
    (hdated : StampClock.Dated readings)
    (hfit : FitMemory report.writtenPaths) :
    ∃ dialect filter chapters,
      Accounts readings o disk report final dialect filter chapters := by
  obtain ⟨plan, chapters, hplan, hpass, rfl, hlog⟩ :=
    passage_of_run hwell hfresh (congrArg Prod.fst hrun)
  obtain ⟨hdialect, hfilter, hdiscover⟩ := prepare_eq_ok hplan
  -- The run is a list of writes to different locations.
  have hwrite := disk_run readings o disk
  rw [hlog, writesOf_chapters, hrun] at hwrite
  have hdistinct := distinct_entries (outputDirectory_ne_empty hplan) hpass
    hwrite (lasts_chapters hdated hfit)
  have hread := Disk.read_writeAll hwrite (List.pairwise_map.mpr hdistinct)
  have hsources : (Report.ofChapters o.outputDirectory chapters).sources.map
      SourceReport.source = plan.sources := by
    rw [Report.ofChapters, List.map_map]
    exact hpass.sources
  have hnew : ∀ e ∈ entriesOf chapters,
      disk.isFile (e.path o.outputDirectory) = false := by
    intro e he
    obtain ⟨c, hc, he⟩ := List.mem_flatMap.mp he
    exact hfresh c.item (hlog ▸ List.mem_map_of_mem hc) e he
  refine ⟨plan.dialect, plan.filter, chapters, ?_⟩
  exact
    { spoken := hdialect
      asked := hfilter
      reported := rfl
      discovered := by rw [hsources]; exact hdiscover
      once := by
        rw [Report.ofChapters, List.map_map]
        exact nodup_chapters hplan hpass
      split := by
        intro c hc
        obtain ⟨hparts, hkept⟩ := hpass.told c hc
        obtain ⟨text, f, htext, hf, hall⟩ := partsOf_eq_ok hparts
        exact ⟨text, f, htext, hf, hall, hkept⟩
      stamps := by
        rw [scenariosWritten_chapters, StampClock.stamps_range,
          List.range_eq_range']
        exact hpass.stamps
      readable := by
        intro c hc
        rw [← (hpass.told c hc).2, Chapter.report, List.map_map,
          List.map_map]
        refine List.map_congr_left fun e he => ?_
        exact hread _ (List.mem_map_of_mem
          (List.mem_flatMap.mpr ⟨c, hc, he⟩))
      parsed := by
        rw [totals_chapters, Report.ofChapters, List.length_map]
      generated := by rw [totals_chapters]
      written := by
        rw [totals_chapters, Report.ofChapters, List.map_map]
        exact congrArg List.sum (List.map_congr_left fun c _ =>
          (List.length_map _).symm)
      distinct := by
        rw [writtenPaths_chapters]
        exact List.pairwise_map.mpr
          (hdistinct.imp fun hne heq => hne (congrArg disk.locate? heq))
      created := by
        rw [scenariosWritten_chapters, writtenPaths_chapters]
        exact created_entries hwrite hnew hdistinct
      unfiltered := by
        intro hblank
        rw [totals_chapters]
        exact entries_blank hblank hfilter hpass }

namespace Sample

/-- Three scenarios, two of them with the tag `@k`. -/
def text : String :=
  "Section: f\n@k\nProof: a\nProof: b\n@k\nProof: c\n"

/-- A part of the text. -/
def part (name : String) (tags : List Tag) : Feature where
  name := "f"
  tags := []
  children := [.scenario ⟨"Proof", name, tags, [], none⟩]

/-- The parts of the text. -/
def parts : List Feature :=
  [part "a" [⟨"@k"⟩], part "b" [], part "c" [⟨"@k"⟩]]

/-- A disk with the text in a file and a directory to write to. -/
def files : Disk where
  nodes := [(["s.feature"], .file text.toUTF8), (["out"], .directory)]
  workingDirectory := []

/-- A run that keeps what has the tag. -/
def options (patterns : List String) : Options where
  patterns := patterns
  outputDirectory := "out"
  tagExpression := "@k"
  language := "formal"

/-- What is settled before that run. -/
def planned (sources : List Path) : Plan where
  dialect := .formal
  filter := .satisfying (.tag "@k")
  sources := sources

/-- What is settled before a run into any directory. -/
theorem prepare_into {disk : Disk} {directory : Path}
    {patterns sources : List String} (hpatterns : patterns.isEmpty = false)
    (hne : directory ≠ "") (hdir : disk.isDirectory directory = true)
    (hdiscover : Files.discover disk patterns = .ok sources) :
    prepare disk { options patterns with outputDirectory := directory }
      = .ok (planned sources) := by
  have hfilter : TagFilter.ofText "@k" = .ok (.satisfying (.tag "@k")) := by
    cbv
  have hdialect : Dialect.ofCode "formal" = .ok .formal := by rfl
  simp only [prepare, options, hpatterns, if_neg hne, hdialect, hfilter,
    hdiscover, hdir]
  rfl

/-- What is settled before a run of the sample. -/
theorem prepare_options {disk : Disk} {patterns sources : List String}
    (hpatterns : patterns.isEmpty = false)
    (hdir : disk.isDirectory "out" = true)
    (hdiscover : Files.discover disk patterns = .ok sources) :
    prepare disk (options patterns) = .ok (planned sources) :=
  prepare_into hpatterns (by decide) hdir hdiscover

/-- The pattern of the sample is read letter by letter. -/
theorem ofText_s : Files.Pattern.ofText "s.feature"
    = .ok ⟨false, ["s.feature".toList.map .literal], false⟩ := by
  cbv

/-- The pattern finds the file. -/
theorem discover_files :
    Files.discover files ["s.feature"] = .ok ["s.feature"] := by
  have hfiles : Files.filesOf files "s.feature" = .ok ["s.feature"] := by
    rw [Files.filesOf, ofText_s]
    rfl
  rw [Files.discover, List.mapM_cons, hfiles]
  rfl

/-- The text is split into three parts, wherever it is read. -/
theorem partsOf_text {disk : Disk} {patterns sources : List String}
    {path : Path} (hread : disk.read path = .ok text) :
    partsOf (options patterns) (planned sources).dialect disk path
      = .ok parts := by
  have hfeature : Feature.read .formal text = .ok
      ⟨"f", [], [.scenario ⟨"Proof", "a", [⟨"@k"⟩], [], none⟩,
        .scenario ⟨"Proof", "b", [], [], none⟩,
        .scenario ⟨"Proof", "c", [⟨"@k"⟩], [], none⟩]⟩ := by
    cbv
  simp only [partsOf, hread, parse, planned, hfeature]
  rfl

/-- Two of the parts are kept, and stamped one behind the other. -/
theorem passage_files : Passage (fun _ => 5) (options ["s.feature"])
    (planned ["s.feature"]) files 0 ["s.feature"] [⟨"s.feature", parts,
      [⟨part "a" [⟨"@k"⟩], 5⟩, ⟨part "c" [⟨"@k"⟩], 6⟩]⟩] :=
  .cons (partsOf_text (Disk.read_of_node? (l := ["s.feature"]) (by decide)
    (by decide) rfl)) (by decide) (.nil _)

/-- Every node of the disk stands in a directory. -/
theorem wellFormed_files : files.WellFormed := by decide

/-- No file of the disk is written over. -/
theorem fresh_files (readings : Nat → Int64) :
    Fresh readings (options ["s.feature"]) files :=
  fresh_of_no_files _ ["out"] (by decide) fun name content => by
    simp [Disk.node?, files]

/-- Two of the parts are written. -/
theorem run_files :
    (run (fun _ => 5) (options ["s.feature"]) files).1
      = .ok ⟨⟨1, 3, 2⟩,
        [⟨"s.feature", ["out/f.5.feature", "out/f.6.feature"]⟩]⟩
    ∧ ledger (fun _ => 5) (options ["s.feature"]) files = [("s.feature",
      [⟨part "a" [⟨"@k"⟩], 5⟩, ⟨part "c" [⟨"@k"⟩], 6⟩])] := by
  obtain ⟨hrun, hledger, -⟩ :=
    run_of_passage wellFormed_files (fresh_files _)
      (prepare_options rfl (by decide) discover_files) passage_files
  exact ⟨hrun, hledger⟩

end Sample

/-- Two of three parts are written, the second one with a later stamp than
the clock says. -/
theorem report_accounts_sample :
    Sample.files.WellFormed
      ∧ Fresh (fun _ => 5) (Sample.options ["s.feature"]) Sample.files
      ∧ (run (fun _ => 5) (Sample.options ["s.feature"]) Sample.files).1
        = .ok ⟨⟨1, 3, 2⟩,
        [⟨"s.feature", ["out/f.5.feature", "out/f.6.feature"]⟩]⟩
      ∧ ∃ dialect filter chapters,
        Accounts (fun _ => 5) (Sample.options ["s.feature"]) Sample.files
          ⟨⟨1, 3, 2⟩,
            [⟨"s.feature", ["out/f.5.feature", "out/f.6.feature"]⟩]⟩
          (run (fun _ => 5) (Sample.options ["s.feature"]) Sample.files).2
          dialect filter chapters := by
  have hfive : (5 : Int64) ≤ StampClock.lastMoment := by decide
  have hdated : StampClock.Dated fun _ => 5 := fun _ => hfive
  have hfit : FitMemory ["out/f.5.feature", "out/f.6.feature"] := by
    rw [FitMemory]
    decide
  exact ⟨Sample.wellFormed_files, Sample.fresh_files _, Sample.run_files.1,
    report_accounts Sample.wellFormed_files (Sample.fresh_files _)
      (Prod.ext Sample.run_files.1 rfl) hdated hfit⟩

end SoloScenario.Compile
