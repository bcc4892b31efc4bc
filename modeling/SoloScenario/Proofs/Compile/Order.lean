import SoloScenario.Proofs.Compile.Failures
import SoloScenario.Proofs.Files.Detours
import SoloScenario.Proofs.Files.Reordering

/-!
# Sources do not depend on each other

Two runs over the same patterns in another order, at any other time, make
the same of each source (`run_perm`): nothing that is done with one source
can be seen in what is done with another.  What is compared is the outcome
of a source (`Outcome`), which leaves out the stamps and the spelling of
the path.

There are two ways in which the order and the time do get a hold.  A file
may be found by two paths, one of which is too long to be read
(`Files.EvenlySpelled`), and a directory may stand where a file with a
certain stamp would be written (`Unblocked`).
-/

namespace SoloScenario.Compile

open Files (Disk Location Path EvenlySpelled)
open Output (StampClock fileName fileStem stampText)

variable {readings readings' : Nat → Int64} {o : Options} {disk : Disk}

/-! ## What stands in the way of a file -/

/-- What stands in the way of an entry.  Only whether it is a directory
depends on more of the stamp than its length. -/
theorem writeFault?_path {directory : Path} (hdir : directory ≠ "")
    (e : Entry) : disk.writeFault? (e.path directory)
      = if '\x00' ∈ directory.toList
          ∨ '\x00' ∈ (fileStem e.feature.name).toList
        then some .nullInName
        else if (e.path directory).isTooLong then some .tooLong
        else
          match (disk.locate? directory).filter disk.hasDirectory with
          | none => some .noDirectory
          | some base =>
            if Files.nameLimit
              < (fileName e.feature.name e.stamp).utf8ByteSize
            then some .tooLong
            else if disk.hasDirectory
              (base ++ [fileName e.feature.name e.stamp])
            then some .isDirectory
            else none := by
  have hname := isName_fileName e.feature.name e.stamp
  have hnull : '\x00' ∈ (e.path directory).toList
      ↔ '\x00' ∈ directory.toList
        ∨ '\x00' ∈ (fileStem e.feature.name).toList := by
    rw [← Output.null_mem_fileName _ e.stamp, Entry.path]
    rcases Path.join_cases directory (fileName e.feature.name e.stamp) hdir
      with ⟨-, hj⟩ | hj <;> simp [hj]
  rw [Disk.writeFault?, if_congr hnull rfl rfl]
  refine if_ctx_congr Iff.rfl (fun _ => rfl) fun _ => ?_
  cases hlong : (e.path directory).isTooLong with
  | true => rfl
  | false =>
      rw [Entry.path] at hlong ⊢
      rw [Disk.locate?_join hdir hlong,
        Path.pieces_of_no_slash hname.no_slash]
      cases disk.locate? directory with
      | none => rfl
      | some base =>
          rw [Option.bind_some, Disk.follow?_name hname]
          by_cases hbase : disk.hasDirectory base = true <;>
            simp [hbase, Option.filter]

/-- A feature that can be written with one stamp can be written with any
other of the same length, unless a directory stands in the way. -/
theorem writable_restamped {directory : Path} (hdir : directory ≠ "")
    {f : Feature} {s s' : Int64}
    (hlen : (stampText s).length = (stampText s').length)
    (h : disk.writeFault? (Entry.path directory ⟨f, s⟩) = none) :
    disk.writeFault? (Entry.path directory ⟨f, s'⟩) = none
      ∨ disk.writeFault? (Entry.path directory ⟨f, s'⟩)
        = some .isDirectory := by
  have hsize : (fileName f.name s').utf8ByteSize
      = (fileName f.name s).utf8ByteSize := by
    rw [Output.utf8ByteSize_fileName, Output.utf8ByteSize_fileName, hlen]
  have hlong : (Entry.path directory ⟨f, s'⟩).isTooLong
      = (Entry.path directory ⟨f, s⟩).isTooLong :=
    congrArg (fun n => decide (Path.pathLimit < n))
      (Path.utf8ByteSize_join directory hsize)
  rw [writeFault?_path hdir] at h ⊢
  dsimp only at h ⊢
  rw [hlong, hsize]
  by_cases hnull : '\x00' ∈ directory.toList
      ∨ '\x00' ∈ (fileStem f.name).toList
  · exact absurd h (by simp [hnull])
  rw [if_neg hnull] at h ⊢
  by_cases hfits : (Entry.path directory ⟨f, s⟩).isTooLong = true
  · exact absurd h (by simp [hfits])
  rw [if_neg hfits] at h ⊢
  cases hbase : (disk.locate? directory).filter disk.hasDirectory with
  | none => exact absurd h (by simp [hbase])
  | some base =>
      rw [hbase] at h
      dsimp only at h ⊢
      by_cases hshort :
          Files.nameLimit < (fileName f.name s).utf8ByteSize
      · exact absurd h (by simp [hshort])
      rw [if_neg hshort]
      by_cases hstands :
          disk.hasDirectory (base ++ [fileName f.name s']) = true
      · exact .inr (if_pos hstands)
      · exact .inl (if_neg hstands)

/-! ## Preparing for another order -/

/-- Patterns in another order are prepared for alike. -/
theorem prepare_perm {plan : Plan} {patterns : List String}
    (hperm : o.patterns.Perm patterns) (hplan : prepare disk o = .ok plan) :
    ∃ sources, prepare disk { o with patterns := patterns }
        = .ok { plan with sources := sources }
      ∧ (plan.sources.map Path.parts).Perm (sources.map Path.parts)
      ∧ (EvenlySpelled disk o.patterns → ∀ p ∈ plan.sources, ∀ q ∈ sources,
        p.parts = q.parts → p.isTooLong = q.isTooLong) := by
  obtain ⟨hdialect, hfilter, hdiscover⟩ := prepare_eq_ok hplan
  obtain ⟨sources, hdiscover', hparts, hlong⟩ :=
    Files.discover_perm hperm hdiscover
  refine ⟨sources, ?_, hparts, hlong⟩
  have hchecks : checks disk { o with patterns := patterns }
      = checks disk o := by
    have hempty : patterns.isEmpty = o.patterns.isEmpty := by
      rw [Bool.eq_iff_iff, List.isEmpty_iff, List.isEmpty_iff]
      exact ⟨fun h => (h ▸ hperm).eq_nil, fun h => (h ▸ hperm.symm).eq_nil⟩
    simp only [checks, hempty, hdiscover, hdiscover', failureOf]
  cases hplan' : prepare disk { o with patterns := patterns } with
  | error failure =>
      rw [prepare_eq_error, hchecks, ← prepare_eq_error, hplan] at hplan'
      exact absurd hplan' (by simp)
  | ok plan' =>
      obtain ⟨hdialect', hfilter', hsources'⟩ := prepare_eq_ok hplan'
      obtain ⟨dialect, filter, _⟩ := plan
      obtain ⟨dialect', filter', _⟩ := plan'
      obtain rfl := Except.ok.inj (hdialect.symm.trans hdialect')
      obtain rfl := Except.ok.inj (hfilter.symm.trans hfilter')
      obtain rfl := Except.ok.inj (hdiscover'.symm.trans hsources')
      rfl

/-! ## Outcomes -/

/-- What is made of a source: the parts of its path, how many features it
is split into, and the stem and the text of each file that is written for
it, in order. -/
structure Outcome where
  source : List String
  generated : Nat
  files : List (String × String)
deriving DecidableEq, Repr

/-- What a chapter tells, but for the stamps and the spelling of its
path. -/
def Chapter.outcome (c : Chapter) : Outcome :=
  ⟨c.source.parts, c.parts.length,
    c.entries.map fun e => (fileStem e.feature.name, e.text)⟩

/-- Chapters tell what a run that succeeds has reported and written. -/
structure Told (readings : Nat → Int64) (o : Options) (disk : Disk)
    (report : Report) (chapters : List Chapter) : Prop where
  reported : report = .ofChapters o.outputDirectory chapters
  written : disk.writeAll
      ((entriesOf chapters).map (Entry.write o.outputDirectory))
    = .ok (run readings o disk).2
  /-- No source is there twice. -/
  once : (chapters.map fun c => c.source.parts).Nodup

/-- Two runs have made the same of their sources. -/
structure SameWork (report report' : Report)
    (chapters chapters' : List Chapter) : Prop where
  /-- Each source has the outcome in one run that it has in the other. -/
  outcomes :
    (chapters.map Chapter.outcome).Perm (chapters'.map Chapter.outcome)
  parsed : report.featuresParsed = report'.featuresParsed
  generated : report.scenariosGenerated = report'.scenariosGenerated
  written : report.scenariosWritten = report'.scenariosWritten

/-- The parts of a source that is read alike are the same. -/
theorem partsOf_of_read {dialect : Dialect} {p q : Path}
    {all : List Feature} (hread : disk.read p = disk.read q)
    (h : partsOf o dialect disk p = .ok all) :
    partsOf o dialect disk q = .ok all := by
  obtain ⟨text, f, htext, hf, rfl⟩ := partsOf_eq_ok h
  rw [partsOf, ← hread, htext]
  simp only [parse, hf]
  rfl

/-- A source that has parts has a path that can be followed. -/
theorem not_tooLong_of_partsOf {dialect : Dialect} {p : Path}
    {all : List Feature} (h : partsOf o dialect disk p = .ok all) :
    p.isTooLong = false := by
  obtain ⟨text, _, htext, -, -⟩ := partsOf_eq_ok h
  cases hlong : p.isTooLong with
  | false => rfl
  | true =>
      rw [Disk.read, if_pos hlong] at htext
      exact absurd htext (by simp)

/-- Chapters of the same source have the same outcome. -/
theorem outcome_eq {dialect : Dialect} {filter : TagFilter}
    {c c' : Chapter} (hsource : c.source.parts = c'.source.parts)
    (hread : disk.read c.source = disk.read c'.source)
    (hparts : partsOf o dialect disk c.source = .ok c.parts)
    (hkept : c.entries.map Entry.feature = filter.select c.parts)
    (hparts' : partsOf o dialect disk c'.source = .ok c'.parts)
    (hkept' : c'.entries.map Entry.feature = filter.select c'.parts) :
    c.outcome = c'.outcome := by
  have hfiles : ∀ es : List Entry,
      es.map (fun e => (fileStem e.feature.name, e.text))
        = (es.map Entry.feature).map fun f => (fileStem f.name, f.render) := by
    intro es
    rw [List.map_map]
    rfl
  have hsame := partsOf_of_read hread hparts
  rw [hsame] at hparts'
  rw [Chapter.outcome, Chapter.outcome, hfiles, hfiles, hkept, hkept',
    hsource, Except.ok.inj hparts']

/-- The chapters of a run that succeeds tell what it has done. -/
theorem told_of_run (hwell : disk.WellFormed)
    (hfresh : Fresh readings o disk) {report : Report}
    (hrun : (run readings o disk).1 = .ok report) :
    ∃ plan chapters, prepare disk o = .ok plan
      ∧ Passage readings o plan disk 0 plan.sources chapters
      ∧ Told readings o disk report chapters := by
  obtain ⟨plan, chapters, hplan, hpass, hreport, hlog⟩ :=
    passage_of_run hwell hfresh hrun
  refine ⟨plan, chapters, hplan, hpass, hreport, ?_,
    nodup_chapters hplan hpass⟩
  rw [← writesOf_chapters, ← hlog, disk_run]

section

variable {plan plan' : Plan} {patterns : List String}
  {chapters chapters' : List Chapter}

/-- **Sources that pass in any order have the same outcomes.** -/
theorem outcomes_perm (hwell : disk.WellFormed)
    (hplan : prepare disk o = .ok plan)
    (hplan' : prepare disk { o with patterns := patterns } = .ok plan')
    (hperm : o.patterns.Perm patterns)
    (hpass : Passage readings o plan disk 0 plan.sources chapters)
    (hpass' : Passage readings' { o with patterns := patterns } plan' disk 0
      plan'.sources chapters') :
    (chapters.map Chapter.outcome).Perm (chapters'.map Chapter.outcome) := by
  obtain ⟨sources, hsources, hparts, -⟩ := prepare_perm hperm hplan
  obtain rfl := Except.ok.inj (hplan'.symm.trans hsources)
  have hkeys : (chapters.map fun c => c.source.parts).Perm
      (chapters'.map fun c => c.source.parts) := by
    have hsources' : chapters'.map Chapter.source = sources := hpass'.sources
    rw [← hpass.sources, ← hsources', List.map_map, List.map_map] at hparts
    exact hparts
  refine Files.map_perm_of_keys hkeys fun c hc c' hc' hsource => ?_
  obtain ⟨hall, hkept⟩ := hpass.told c hc
  obtain ⟨hall', hkept'⟩ := hpass'.told c' hc'
  have hlong := not_tooLong_of_partsOf hall
  have hlong' := not_tooLong_of_partsOf hall'
  have hread := Files.read_eq_of_parts hsource (hlong.trans hlong'.symm)
    (isFile_of_prepare hwell hplan c.source
      (hpass.sources ▸ List.mem_map_of_mem hc))
    (isFile_of_prepare hwell hplan' c'.source
      (hpass'.sources ▸ List.mem_map_of_mem hc'))
  exact outcome_eq hsource hread hall hkept hall' hkept'

/-- The totals of a report are those of outcomes. -/
theorem sameWork_of_outcomes (directory : Path)
    (h : (chapters.map Chapter.outcome).Perm
      (chapters'.map Chapter.outcome)) :
    SameWork (.ofChapters directory chapters)
      (.ofChapters directory chapters') chapters chapters' where
  outcomes := h
  parsed := by
    rw [totals_chapters, totals_chapters]
    simpa using h.length_eq
  generated := by
    have hsum := (h.map Outcome.generated).sum_nat
    rw [List.map_map, List.map_map] at hsum
    rw [totals_chapters, totals_chapters]
    exact hsum
  written := by
    have hsum := (h.map fun outcome => outcome.files.length).sum_nat
    rw [List.map_map, List.map_map] at hsum
    rw [totals_chapters, totals_chapters]
    simpa [Function.comp_def, Chapter.outcome] using hsum

end

/-! ## The same end -/

/-- No directory stands where the run tries to write a file. -/
def Unblocked (readings : Nat → Int64) (o : Options) (disk : Disk) : Prop :=
  ∀ path, (run readings o disk).1 ≠ .error (.unwritable path .isDirectory)

/-- The first `n` stamps of one clock and the first `n'` of another one all
have the same length. -/
def SameLength (readings readings' : Nat → Int64) (n n' : Nat) : Prop :=
  ∀ i < n, ∀ j < n', (stampText (StampClock.stampAt readings i)).length
    = (stampText (StampClock.stampAt readings' j)).length

/-- Two runs over the same patterns in any order, at any times.  They write
over no file, and their stamps have the same length. -/
structure Comparable (readings readings' : Nat → Int64) (o : Options)
    (patterns : List String) (disk : Disk) : Prop where
  well : disk.WellFormed
  perm : o.patterns.Perm patterns
  fresh : Fresh readings o disk
  fresh' : Fresh readings' { o with patterns := patterns } disk
  length : SameLength readings readings' (stampsTaken readings o disk)
    (stampsTaken readings' { o with patterns := patterns } disk)

/-- It does not matter which of the runs comes first. -/
theorem Comparable.symm {patterns : List String}
    (h : Comparable readings readings' o patterns disk) :
    Comparable readings' readings { o with patterns := patterns } o.patterns
      disk where
  well := h.well
  perm := h.perm.symm
  fresh := h.fresh'
  fresh' := h.fresh
  length := fun i hi j hj => (h.length j hj i hi).symm

/-- Each entry of a passage could be written, with a stamp that was given
out. -/
theorem Passage.stamp_of_mem {plan : Plan} {paths : List Path}
    {chapters : List Chapter}
    (h : Passage readings o plan disk 0 paths chapters) {e : Entry}
    (he : e ∈ entriesOf chapters) : ∃ j < (entriesOf chapters).length,
      e.stamp = StampClock.stampAt readings j := by
  have hmem := List.mem_map_of_mem (f := Entry.stamp) he
  rw [h.stamps] at hmem
  obtain ⟨j, hj, hstamp⟩ := List.mem_map.mp hmem
  have hlt := (List.mem_range'_1.mp hj).2
  rw [Nat.zero_add] at hlt
  exact ⟨j, hlt, hstamp.symm⟩

/-- Each source of one run has a chapter in the other one. -/
theorem Passage.chapter_of_source {plan : Plan} {chapters : List Chapter}
    (hpass : Passage readings o plan disk 0 plan.sources chapters)
    {sources : List Path}
    (hparts : (plan.sources.map Path.parts).Perm (sources.map Path.parts))
    {path : Path} (hpath : path ∈ sources) :
    ∃ c ∈ chapters, c.source ∈ plan.sources
      ∧ c.source.parts = path.parts := by
  have hmem := hparts.symm.subset (List.mem_map_of_mem hpath)
  obtain ⟨source, hsource, hsame⟩ := List.mem_map.mp hmem
  have hchapter := hsource
  rw [← hpass.sources] at hchapter
  obtain ⟨c, hc, rfl⟩ := List.mem_map.mp hchapter
  exact ⟨c, hc, hsource, hsame⟩

/-- A source that has a chapter in one run stops another run at a directory
or not at all. -/
theorem Stop.blocked {plan : Plan} {patterns sources : List String}
    {chapters : List Chapter} {c : Chapter} {k : Nat} {path : Path}
    {es : List Entry} {failure : Failure}
    (hdir : o.outputDirectory ≠ "")
    (hpass : Passage readings o plan disk 0 plan.sources chapters)
    (hc : c ∈ chapters)
    (hread : disk.read c.source = disk.read path)
    (hlength : SameLength readings readings' (entriesOf chapters).length
      (k + stampsUpTo es failure))
    (hstop : Stop readings' { o with patterns := patterns }
      { plan with sources := sources } disk k path es failure) :
    ∃ path', failure = .unwritable path' .isDirectory := by
  obtain ⟨hall, hkept⟩ := hpass.told c hc
  have hall' := partsOf_of_read hread hall
  obtain ⟨text, f, htext, hf, -⟩ := partsOf_eq_ok hall'
  cases hstop with
  | unreadable hnot => exact absurd (htext.symm.trans hnot) (by simp)
  | malformed htext' hnot =>
      obtain rfl := Except.ok.inj (htext.symm.trans htext')
      exact absurd (hf.symm.trans hnot) (by simp)
  | @unwritable all done rest g cause hparts hkept' hdone hfault =>
      obtain rfl := Except.ok.inj (hall'.symm.trans hparts)
      -- The other run has written the same feature, with its own stamp.
      have hg : g ∈ c.entries.map Entry.feature := by
        rw [hkept]
        exact hkept' ▸ List.mem_append_right _ List.mem_cons_self
      obtain ⟨e, he, rfl⟩ := List.mem_map.mp hg
      have heall : e ∈ entriesOf chapters :=
        List.mem_flatMap.mpr ⟨c, hc, he⟩
      obtain ⟨i, hi, hstamp⟩ := hpass.stamp_of_mem heall
      have hlen := hlength i hi (k + done.length) (by
        rw [stampsUpTo, length_numbered]
        omega)
      rw [← hstamp] at hlen
      rcases writable_restamped hdir hlen (hpass.writable e heall) with
        hnone | hstands
      · exact absurd (hfault.symm.trans hnone) (by simp)
      · obtain rfl := Option.some.inj (hfault.symm.trans hstands)
        exact ⟨_, rfl⟩

/-- **A run succeeds if it does so over the patterns in another order.** -/
theorem Comparable.run_ok {patterns : List String}
    (h : Comparable readings readings' o patterns disk)
    (heven : EvenlySpelled disk o.patterns)
    (hfree' : Unblocked readings' { o with patterns := patterns } disk)
    {report : Report} (hrun : (run readings o disk).1 = .ok report) :
    ∃ report', (run readings' { o with patterns := patterns } disk).1
      = .ok report' := by
  obtain ⟨hwell, hperm, hfresh, hfresh', hlength⟩ := h
  obtain ⟨plan, chapters, hplan, hpass, -, -⟩ :=
    passage_of_run hwell hfresh hrun
  obtain ⟨sources, hplan', hparts, hlong⟩ := prepare_perm hperm hplan
  rcases passage_or_stop readings' { o with patterns := patterns }
      { plan with sources := sources } disk 0 sources with
    ⟨chapters', hpass'⟩ | ⟨before, path, after, chapters', es, failure,
      hsources, hpass', hstop⟩
  · exact ⟨_, (run_of_passage hwell hfresh' hplan' hpass').1⟩
  · rw [Nat.zero_add] at hstop
    obtain ⟨hfail, htaken'⟩ :=
      run_of_stop hwell hfresh' hplan' hsources hpass' hstop
    have hpath : path ∈ sources := by simp [hsources]
    obtain ⟨c, hc, hcsource, hsame⟩ := hpass.chapter_of_source hparts hpath
    have hread := Files.read_eq_of_parts hsame
      (hlong heven _ hcsource path hpath hsame)
      (isFile_of_prepare hwell hplan _ hcsource)
      (isFile_of_prepare hwell hplan' path hpath)
    rw [(run_of_passage hwell hfresh hplan hpass).2.2, htaken'] at hlength
    obtain ⟨path', rfl⟩ := hstop.blocked (outputDirectory_ne_empty hplan)
      hpass hc hread hlength
    exact absurd hfail (hfree' path')

/-- **Sources do not depend on each other.**  Over the same patterns in any
other order, and at any other time, a run succeeds as well, and makes the
same of every source.  It may fail in another way. -/
theorem run_perm {patterns : List String}
    (h : Comparable readings readings' o patterns disk)
    (heven : EvenlySpelled disk o.patterns)
    (hfree : Unblocked readings o disk)
    (hfree' : Unblocked readings' { o with patterns := patterns } disk) :
    ((∃ report, (run readings o disk).1 = .ok report)
      ↔ ∃ report', (run readings' { o with patterns := patterns } disk).1
        = .ok report')
    ∧ ∀ report report', (run readings o disk).1 = .ok report →
      (run readings' { o with patterns := patterns } disk).1 = .ok report' →
      ∃ chapters chapters', Told readings o disk report chapters
        ∧ Told readings' { o with patterns := patterns } disk report'
          chapters'
        ∧ SameWork report report' chapters chapters' := by
  constructor
  · constructor
    · rintro ⟨report, hrun⟩
      exact h.run_ok heven hfree' hrun
    · rintro ⟨report', hrun'⟩
      exact h.symm.run_ok (heven.perm h.perm) hfree hrun'
  · intro report report' hrun hrun'
    obtain ⟨plan, chapters, hplan, hpass, htold⟩ :=
      told_of_run h.well h.fresh hrun
    obtain ⟨plan', chapters', hplan', hpass', htold'⟩ :=
      told_of_run h.well h.fresh' hrun'
    have houtcomes :=
      outcomes_perm h.well hplan hplan' h.perm hpass hpass'
    refine ⟨chapters, chapters', htold, htold', ?_⟩
    rw [htold.reported, htold'.reported]
    exact sameWork_of_outcomes o.outputDirectory houtcomes

namespace Sample

/-- Two of the files, in one order and in the other. -/
def inOrder : List String :=
  ["s.feature", "t.feature"]

/-- The same two files in the other order. -/
def inReverse : List String :=
  ["t.feature", "s.feature"]

/-- They are found in the order of the patterns. -/
theorem discover_inOrder :
    Files.discover blocked inOrder = .ok inOrder := by
  simp only [Files.discover, inOrder, List.mapM_cons, filesOf_s, filesOf_t]
  rfl

/-- So they are in the other order. -/
theorem discover_inReverse :
    Files.discover blocked inReverse = .ok inReverse := by
  simp only [Files.discover, inReverse, List.mapM_cons, filesOf_s, filesOf_t]
  rfl

/-- No file is found by two paths. -/
theorem evenlySpelled_inOrder : EvenlySpelled blocked inOrder := by
  have hfound : inOrder.mapM (Files.filesOf blocked)
      = .ok [["s.feature"], ["t.feature"]] := by
    simp only [inOrder, List.mapM_cons, filesOf_s, filesOf_t]
    rfl
  intro found h
  obtain rfl := Except.ok.inj (h.symm.trans hfound)
  decide

/-- What is kept of the text. -/
def kept : List Feature :=
  [part "a" [⟨"@k"⟩], part "c" [⟨"@k"⟩]]

/-- Two files with the text are split, if the directory does not stand in
the way. -/
theorem run_two {readings : Nat → Int64} {patterns : List String}
    {p q : Path} (hpatterns : patterns.isEmpty = false)
    (hdiscover : Files.discover blocked patterns = .ok [p, q])
    (hp : blocked.read p = .ok text) (hq : blocked.read q = .ok text)
    (hfirst : Writable (options []) blocked (numbered readings 0 kept))
    (hsecond : Writable (options []) blocked (numbered readings 2 kept)) :
    (run readings (options patterns) blocked).1
      = .ok ⟨⟨2, 6, 4⟩,
        [⟨p, (numbered readings 0 kept).map (Entry.path "out")⟩,
          ⟨q, (numbered readings 2 kept).map (Entry.path "out")⟩]⟩
    ∧ stampsTaken readings (options patterns) blocked = 4 := by
  have hpass : Passage readings (options patterns) (planned [p, q]) blocked
      0 [p, q] [⟨p, parts, numbered readings 0 kept⟩,
        ⟨q, parts, numbered readings 2 kept⟩] :=
    .cons (partsOf_text hp) hfirst
      (.cons (partsOf_text hq) hsecond (.nil _))
  obtain ⟨hrun, -, htaken⟩ := run_of_passage (by decide)
    (fresh_blocked _ _) (prepare_options hpatterns (by decide) hdiscover)
    hpass
  exact ⟨hrun, htaken⟩

/-- In one order, the first file has the earlier stamps. -/
theorem run_inOrder : (run (fun _ => 0) (options inOrder) blocked).1
      = .ok ⟨⟨2, 6, 4⟩,
        [⟨"s.feature", ["out/f.0.feature", "out/f.1.feature"]⟩,
          ⟨"t.feature", ["out/f.2.feature", "out/f.3.feature"]⟩]⟩
    ∧ stampsTaken (fun _ => 0) (options inOrder) blocked = 4 :=
  run_two rfl discover_inOrder read_s read_t (by decide) (by decide)

/-- In the other order, it has the later ones. -/
theorem run_inReverse : (run (fun _ => 1) (options inReverse) blocked).1
      = .ok ⟨⟨2, 6, 4⟩,
        [⟨"t.feature", ["out/f.1.feature", "out/f.2.feature"]⟩,
          ⟨"s.feature", ["out/f.3.feature", "out/f.4.feature"]⟩]⟩
    ∧ stampsTaken (fun _ => 1) (options inReverse) blocked = 4 :=
  run_two rfl discover_inReverse read_t read_s (by decide) (by decide)

/-- The two runs can be compared. -/
theorem comparable_two : Comparable (fun _ => 0) (fun _ => 1)
    (options inOrder) inReverse blocked where
  well := by decide
  perm := .swap _ _ _
  fresh := fresh_blocked _ _
  fresh' := fresh_blocked _ _
  length := by
    have htaken := run_inReverse.2
    rw [run_inOrder.2]
    change SameLength _ _ 4 (stampsTaken (fun _ => 1) (options inReverse)
      blocked)
    rw [htaken]
    unfold SameLength
    decide

end Sample

/-- Two files are split in either order, at different times. -/
theorem run_perm_two_files :
    Comparable (fun _ => 0) (fun _ => 1) (Sample.options Sample.inOrder)
      Sample.inReverse Sample.blocked
    ∧ (run (fun _ => 0) (Sample.options Sample.inOrder)
        Sample.blocked).1
      = .ok ⟨⟨2, 6, 4⟩,
        [⟨"s.feature", ["out/f.0.feature", "out/f.1.feature"]⟩,
          ⟨"t.feature", ["out/f.2.feature", "out/f.3.feature"]⟩]⟩
    ∧ ∃ report' chapters chapters',
      (run (fun _ => 1) (Sample.options Sample.inReverse)
        Sample.blocked).1 = .ok report'
      ∧ Told (fun _ => 0) (Sample.options Sample.inOrder) Sample.blocked
        ⟨⟨2, 6, 4⟩, [⟨"s.feature", ["out/f.0.feature", "out/f.1.feature"]⟩,
          ⟨"t.feature", ["out/f.2.feature", "out/f.3.feature"]⟩]⟩ chapters
      ∧ Told (fun _ => 1) (Sample.options Sample.inReverse) Sample.blocked
        report' chapters'
      ∧ SameWork
        ⟨⟨2, 6, 4⟩, [⟨"s.feature", ["out/f.0.feature", "out/f.1.feature"]⟩,
          ⟨"t.feature", ["out/f.2.feature", "out/f.3.feature"]⟩]⟩ report'
        chapters chapters' := by
  have hrun := Sample.run_inOrder.1
  have hrun' := Sample.run_inReverse.1
  have hfree : Unblocked (fun _ => 0) (Sample.options Sample.inOrder)
      Sample.blocked := fun path h => absurd (hrun.symm.trans h) (by simp)
  have hfree' : Unblocked (fun _ => 1) (Sample.options Sample.inReverse)
      Sample.blocked := fun path h => absurd (hrun'.symm.trans h) (by simp)
  have hall := run_perm Sample.comparable_two Sample.evenlySpelled_inOrder
    hfree hfree'
  obtain ⟨report', hreport'⟩ := hall.1.mp ⟨_, hrun⟩
  obtain ⟨chapters, chapters', htold, htold', hsame⟩ :=
    hall.2 _ report' hrun hreport'
  exact ⟨Sample.comparable_two, hrun, report', chapters, chapters',
    hreport', htold, htold', hsame⟩

/-! ## Where the order gets a hold -/

namespace Sample

/-- A disk with the text in a directory of its own. -/
def nested : Disk where
  nodes := [(["sub"], .directory),
    (["sub", "a.feature"], .file text.toUTF8), (["out"], .directory)]
  workingDirectory := []

/-- The path of the file with dots in it. -/
def spelled (k : Nat) : Path :=
  Path.dotted "sub" k ++ "/" ++ "a.feature"

/-- A pattern that finds the file by that path. -/
def searched (k : Nat) : String :=
  Path.dotted "sub" k ++ "/" ++ "*"

/-- Every node of that disk stands in a directory. -/
theorem wellFormed_nested : nested.WellFormed := by decide

/-- No file of that disk is written over. -/
theorem fresh_nested (readings : Nat → Int64) (patterns : List String) :
    Fresh readings (options patterns) nested := by
  have hbase : nested.locate? "out" = some ["out"] := by decide
  refine fresh_of_no_files _ ["out"] hbase fun name content => ?_
  simp [Disk.node?, nested]

/-- However it is spelled, the path has the parts of the file's. -/
theorem parts_spelled (k : Nat) :
    (spelled k).parts = ["sub", "a.feature"] :=
  Path.parts_dotted (by decide) (by decide) k

/-- However it is spelled, the path is that of the file, if it is that of
anything. -/
theorem isDirectory_spelled (k : Nat) :
    nested.isDirectory (spelled k) = false := by
  have hplain : nested.locate? "sub/a.feature"
      = some ["sub", "a.feature"] := by decide
  rw [Disk.isDirectory, Disk.find?]
  cases hl : nested.locate? (spelled k) with
  | none => rfl
  | some l =>
      obtain rfl := Disk.locate?_eq_of_parts
        ((parts_spelled k).trans (by decide)) hl hplain
      rfl

/-- The pattern finds the file by the path with dots. -/
theorem filesOf_searched {k : Nat}
    (hlong : (Path.dotted "sub" k).isTooLong = false) :
    Files.filesOf nested (searched k) = .ok [spelled k] := by
  have hnames : nested.names ([] ++ ["sub"]) = ["a.feature"] :=
    List.mergeSort_singleton _
  have hfiles : Files.filesOf nested (searched k)
      = .ok ([spelled k].filter (!nested.isDirectory ·)) :=
    Files.filesOf_dotted (by decide) (by decide) rfl (by decide) hnames hlong
  rw [hfiles]
  have hkept : (!nested.isDirectory (spelled k)) = true := by
    rw [isDirectory_spelled]
    rfl
  exact congrArg Except.ok (List.filter_cons_of_pos hkept)

/-- The plain pattern is read letter by letter. -/
theorem ofText_plain : Files.Pattern.ofText "sub/a.feature"
    = .ok ⟨false, ["sub".toList.map .literal,
      "a.feature".toList.map .literal], false⟩ := by
  cbv

/-- It finds the file by its plain path. -/
theorem filesOf_plain :
    Files.filesOf nested "sub/a.feature" = .ok ["sub/a.feature"] := by
  rw [Files.filesOf, ofText_plain]
  rfl

/-- By that path the file can be read. -/
theorem read_plain : nested.read "sub/a.feature" = .ok text :=
  Disk.read_of_node? (l := ["sub", "a.feature"]) (by decide) (by decide) rfl

/-- The first path is the one that is kept. -/
theorem discover_nested {k : Nat}
    (hlong : (Path.dotted "sub" k).isTooLong = false) :
    Files.discover nested [searched k, "sub/a.feature"] = .ok [spelled k]
    ∧ Files.discover nested ["sub/a.feature", searched k]
      = .ok ["sub/a.feature"] := by
  have hsame : (spelled k).parts = Path.parts "sub/a.feature" :=
    (parts_spelled k).trans (by decide)
  constructor <;> rw [Files.discover_eq_ok]
  · refine ⟨[[spelled k], ["sub/a.feature"]], ?_, ?_⟩
    · simp only [List.mapM_cons, filesOf_searched hlong, filesOf_plain]
      rfl
    · simp [Files.firstSeen, hsame]
  · refine ⟨[["sub/a.feature"], [spelled k]], ?_, ?_⟩
    · simp only [List.mapM_cons, filesOf_searched hlong, filesOf_plain]
      rfl
    · simp [Files.firstSeen, hsame]

/-- A run that finds the file by a path that can be read. -/
theorem run_nested {patterns : List String} {path : Path}
    (hpatterns : patterns.isEmpty = false)
    (hdiscover : Files.discover nested patterns = .ok [path])
    (hread : nested.read path = .ok text) :
    (run (fun _ => 5) (options patterns) nested).1
      = .ok ⟨⟨1, 3, 2⟩, [⟨path, ["out/f.5.feature", "out/f.6.feature"]⟩]⟩
    ∧ stampsTaken (fun _ => 5) (options patterns) nested = 2 := by
  have hwritable : Writable (options []) nested
      (numbered (fun _ => 5) 0 kept) := by decide
  have hpass : Passage (fun _ => 5) (options patterns) (planned [path])
      nested 0 [path] [⟨path, parts, numbered (fun _ => 5) 0 kept⟩] :=
    .cons (partsOf_text hread) hwritable (.nil _)
  have hwritten : (numbered (fun _ => 5) 0 kept).map (Entry.path "out")
      = ["out/f.5.feature", "out/f.6.feature"] := by decide
  obtain ⟨hrun, -, htaken⟩ := run_of_passage wellFormed_nested
    (fresh_nested _ _) (prepare_options hpatterns (by decide) hdiscover)
    hpass
  have hreport : Chapter.report "out"
      ⟨path, parts, numbered (fun _ => 5) 0 kept⟩
        = ⟨path, ["out/f.5.feature", "out/f.6.feature"]⟩ :=
    congrArg (SourceReport.mk path) hwritten
  have hdir : (options patterns).outputDirectory = "out" := rfl
  rw [hdir, Report.ofChapters, List.map_singleton, hreport] at hrun
  exact ⟨hrun, htaken⟩

/-- A run that finds the file by a path that is too long. -/
theorem run_tooLong {patterns : List String} {path : Path}
    (hpatterns : patterns.isEmpty = false)
    (hdiscover : Files.discover nested patterns = .ok [path])
    (hlong : path.isTooLong = true) :
    (run (fun _ => 5) (options patterns) nested).1
      = .error (.unreadable path .pathTooLong)
    ∧ stampsTaken (fun _ => 5) (options patterns) nested = 0 := by
  have hsources : (planned [path]).sources = [] ++ path :: [] := rfl
  exact run_of_stop wellFormed_nested (fresh_nested _ _)
    (prepare_options hpatterns (by decide) hdiscover) hsources (.nil 0)
    (.unreadable (if_pos hlong))

/-- The runs can be compared whichever pattern comes first. -/
theorem comparable_nested {k : Nat}
    (htaken : stampsTaken (fun _ => 5)
      (options [searched k, "sub/a.feature"]) nested ≤ 2)
    (htaken' : stampsTaken (fun _ => 5)
      (options ["sub/a.feature", searched k]) nested ≤ 2) :
    Comparable (fun _ => 5) (fun _ => 5)
      (options [searched k, "sub/a.feature"])
      ["sub/a.feature", searched k] nested where
  well := wellFormed_nested
  perm := .swap _ _ _
  fresh := fresh_nested _ _
  fresh' := fresh_nested _ _
  length := by
    have htwo : SameLength (fun _ => 5) (fun _ => 5) 2 2 := by
      unfold SameLength
      decide
    exact fun i hi j hj =>
      htwo i (Nat.lt_of_lt_of_le hi htaken) j (Nat.lt_of_lt_of_le hj htaken')

/-- The run over two files that the directory stands in the way of. -/
theorem run_blocked :
    (run (fun _ => 5) (options inOrder) blocked).1
      = .error (.unwritable "out/f.8.feature" .isDirectory)
    ∧ stampsTaken (fun _ => 5) (options inOrder) blocked = 4 := by
  have hsources : (planned inOrder).sources
      = ["s.feature"] ++ "t.feature" :: [] := rfl
  exact run_of_stop (by decide) (fresh_blocked _ _)
    (prepare_options rfl (by decide) discover_inOrder) hsources
    passage_blocked stop_blocked

end Sample

/-- Order and time are not nothing.  A file that is found by a path of more
than 4095 bytes before it is found by a short one fails the run; a
directory fails a run that comes to its name, and no other; and the first
path of a file is the one that is reported. -/
theorem order_and_time_tell :
    (Comparable (fun _ => 5) (fun _ => 5)
        (Sample.options [Sample.searched 2045, "sub/a.feature"])
        ["sub/a.feature", Sample.searched 2045] Sample.nested
      ∧ (∀ pattern ∈ [Sample.searched 2045, "sub/a.feature"],
        ∃ p, Files.Pattern.ofText pattern = .ok p)
      ∧ (run (fun _ => 5)
          (Sample.options [Sample.searched 2045, "sub/a.feature"])
          Sample.nested).1
        = .error (.unreadable (Sample.spelled 2045) .pathTooLong)
      ∧ (run (fun _ => 5)
          (Sample.options ["sub/a.feature", Sample.searched 2045])
          Sample.nested).1
        = .ok ⟨⟨1, 3, 2⟩, [⟨"sub/a.feature",
          ["out/f.5.feature", "out/f.6.feature"]⟩]⟩)
    ∧ (Comparable (fun _ => 5) (fun _ => 0) (Sample.options Sample.inOrder)
        Sample.inOrder Sample.blocked
      ∧ (∀ pattern ∈ Sample.inOrder,
        ∃ p, Files.Pattern.ofText pattern = .ok p)
      ∧ (run (fun _ => 5) (Sample.options Sample.inOrder)
          Sample.blocked).1
        = .error (.unwritable "out/f.8.feature" .isDirectory)
      ∧ (run (fun _ => 0) (Sample.options Sample.inOrder)
          Sample.blocked).1
        = .ok ⟨⟨2, 6, 4⟩,
          [⟨"s.feature", ["out/f.0.feature", "out/f.1.feature"]⟩,
            ⟨"t.feature", ["out/f.2.feature", "out/f.3.feature"]⟩]⟩)
    ∧ Comparable (fun _ => 5) (fun _ => 5)
        (Sample.options [Sample.searched 1, "sub/a.feature"])
        ["sub/a.feature", Sample.searched 1] Sample.nested
      ∧ (run (fun _ => 5)
          (Sample.options [Sample.searched 1, "sub/a.feature"])
          Sample.nested).1
        = .ok ⟨⟨1, 3, 2⟩, [⟨"sub/./a.feature",
          ["out/f.5.feature", "out/f.6.feature"]⟩]⟩
      ∧ (run (fun _ => 5)
          (Sample.options ["sub/a.feature", Sample.searched 1])
          Sample.nested).1
        = .ok ⟨⟨1, 3, 2⟩, [⟨"sub/a.feature",
          ["out/f.5.feature", "out/f.6.feature"]⟩]⟩ := by
  refine ⟨?_, ?_, ?_⟩
  · have hlong : (Path.dotted "sub" 2045).isTooLong = false := by
      rw [Path.isTooLong, Path.utf8ByteSize_dotted]
      decide
    have hlonger : (Sample.spelled 2045).isTooLong = true := by
      rw [Path.isTooLong, Sample.spelled, String.utf8ByteSize_append,
        String.utf8ByteSize_append, Path.utf8ByteSize_dotted]
      decide
    obtain ⟨hfirst, hsecond⟩ := Sample.discover_nested hlong
    obtain ⟨hfail, htaken⟩ := Sample.run_tooLong rfl hfirst hlonger
    obtain ⟨hrun, htaken'⟩ :=
      Sample.run_nested rfl hsecond Sample.read_plain
    refine ⟨Sample.comparable_nested (by omega) (by omega), ?_, hfail, hrun⟩
    intro pattern hpattern
    rcases List.mem_cons.mp hpattern with rfl | hpattern
    · exact ⟨_, Files.ofText_dotted (by decide) (by decide) 2045⟩
    · obtain rfl := List.mem_singleton.mp hpattern
      exact ⟨_, Sample.ofText_plain⟩
  · obtain ⟨hfail, htaken⟩ := Sample.run_blocked
    obtain ⟨hrun, htaken'⟩ := Sample.run_inOrder
    refine ⟨⟨by decide, .refl _, Sample.fresh_blocked _ _,
      Sample.fresh_blocked _ _, ?_⟩, ?_, hfail, hrun⟩
    · change SameLength _ _ _ (stampsTaken (fun _ => 0)
        (Sample.options Sample.inOrder) Sample.blocked)
      rw [htaken, htaken']
      unfold SameLength
      decide
    · intro pattern hpattern
      rcases List.mem_cons.mp hpattern with rfl | hpattern
      · exact ⟨_, Sample.ofText_s⟩
      · obtain rfl := List.mem_singleton.mp hpattern
        exact ⟨_, Sample.ofText_t⟩
  · obtain ⟨hfirst, hsecond⟩ := Sample.discover_nested (k := 1) (by decide)
    obtain ⟨hrun, htaken⟩ := Sample.run_nested rfl hfirst
      (Disk.read_of_node? (l := ["sub", "a.feature"]) (by decide)
        (by decide) rfl)
    obtain ⟨hrun', htaken'⟩ :=
      Sample.run_nested rfl hsecond Sample.read_plain
    exact ⟨Sample.comparable_nested (by omega) (by omega), hrun, hrun'⟩

end SoloScenario.Compile
