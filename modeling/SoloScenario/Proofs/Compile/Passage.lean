import SoloScenario.Proofs.Compile.Checks
import SoloScenario.Proofs.Compile.Ledger
import SoloScenario.Proofs.Files.Search
import SoloScenario.Proofs.Output.Stamps

/-!
# A run told from the disk that it starts on

A run reads its sources from a disk that changes while it goes on.  What
becomes of them can still be told from the disk before the run, as long as
no file of it is written to: each source passes (`Passage`) or the run
stops at it (`Stop`), and both are relations that mention no other disk.

The stamps come from the clock alone, so the features of the sources are
numbered through (`numbered`).

* `passage_or_stop` — for any sources, one or the other;
* `run_passage`, `run_stop` — sources are dealt with as the relations say;
* `run_of_passage`, `run_of_stop` — so the whole run ends as they say.
-/

namespace SoloScenario.Compile

open Files (Disk Path)
open Output (StampClock)

variable (readings : Nat → Int64) (o : Options) (plan : Plan) (disk : Disk)

/-! ## Numbered features -/

/-- Features with their stamps, the first one being number `k`. -/
def numbered : Nat → List Feature → List Entry
  | _, [] => []
  | k, f :: fs => ⟨f, StampClock.stampAt readings k⟩ :: numbered (k + 1) fs

/-- Numbering loses no feature. -/
@[simp] theorem map_feature_numbered (k : Nat) (fs : List Feature) :
    (numbered readings k fs).map Entry.feature = fs := by
  induction fs generalizing k with
  | nil => rfl
  | cons f fs ih => rw [numbered, List.map_cons, ih]

/-- Each feature has one number. -/
@[simp] theorem length_numbered (k : Nat) (fs : List Feature) :
    (numbered readings k fs).length = fs.length := by
  rw [← List.length_map (f := Entry.feature), map_feature_numbered]

/-- The stamps of numbered features are those of the clock from that number on.
-/
theorem map_stamp_numbered (k : Nat) (fs : List Feature) :
    (numbered readings k fs).map Entry.stamp
      = (List.range' k fs.length).map (StampClock.stampAt readings) := by
  induction fs generalizing k with
  | nil => rfl
  | cons f fs ih =>
      rw [numbered, List.map_cons, ih, List.length_cons, List.range'_succ,
        List.map_cons]

/-! ## What becomes of a source -/

/-- What is made of a source: its parts, and the entries of those that are
kept. -/
structure Chapter where
  source : Path
  parts : List Feature
  entries : List Entry

namespace Chapter

/-- What the report says of the source. -/
def report (directory : Path) (c : Chapter) : SourceReport :=
  ⟨c.source, c.entries.map (Entry.path directory)⟩

/-- What the ledger says of the source. -/
def item (c : Chapter) : Path × List Entry :=
  (c.source, c.entries)

end Chapter

/-- The totals when one chapter more is told. -/
def Totals.after (t : Totals) (c : Chapter) : Totals where
  featuresParsed := t.featuresParsed + 1
  scenariosGenerated := t.scenariosGenerated + c.parts.length
  scenariosWritten := t.scenariosWritten + c.entries.length

/-- The report of chapters, with the totals that come of counting them
up. -/
def Report.ofChapters (directory : Path) (chapters : List Chapter) :
    Report where
  toTotals := chapters.foldl Totals.after {}
  sources := chapters.map (Chapter.report directory)

/-- The entries of several chapters. -/
def entriesOf (chapters : List Chapter) : List Entry :=
  chapters.flatMap Chapter.entries

/-- The entries of the first chapter come first. -/
@[simp] theorem entriesOf_cons (c : Chapter) (chapters : List Chapter) :
    entriesOf (c :: chapters) = c.entries ++ entriesOf chapters := rfl

/-- Nothing stands in the way of these entries. -/
def Writable (es : List Entry) : Prop :=
  ∀ e ∈ es, disk.writeFault? (e.path o.outputDirectory) = none

/-- Whether entries can be written is decided by looking at each of them. -/
instance (es : List Entry) : Decidable (Writable o disk es) :=
  inferInstanceAs
    (Decidable (∀ e ∈ es, disk.writeFault? (e.path o.outputDirectory) = none))

/-- Sources that are made into chapters, the first feature that is kept
being number `k`. -/
inductive Passage : Nat → List Path → List Chapter → Prop where
  | nil (k : Nat) : Passage k [] []
  | cons {k : Nat} {path : Path} {paths : List Path} {all : List Feature}
      {chapters : List Chapter}
      (hparts : partsOf o plan.dialect disk path = .ok all)
      (hwritable : Writable o disk
        (numbered readings k (plan.filter.select all)))
      (hlater : Passage (k + (plan.filter.select all).length) paths
        chapters) :
      Passage k (path :: paths)
        (⟨path, all, numbered readings k (plan.filter.select all)⟩
          :: chapters)

/-- A source at which a run stops, the entries that are written for it, and
the failure: it cannot be read or it is no feature file, and nothing of it
is written, or some features are written before one that cannot be. -/
inductive Stop (k : Nat) (path : Path) : List Entry → Failure → Prop where
  | unreadable {cause : Files.ReadError}
      (hread : disk.read path = .error cause) :
      Stop k path [] (.unreadable path cause)
  | malformed {text : String} {position : Text.Position}
      (hread : disk.read path = .ok text)
      (htext : Feature.read plan.dialect text = .error position) :
      Stop k path [] (.malformed path position)
  | unwritable {all done rest : List Feature} {f : Feature}
      {cause : Files.WriteError}
      (hparts : partsOf o plan.dialect disk path = .ok all)
      (hkept : plan.filter.select all = done ++ f :: rest)
      (hdone : Writable o disk (numbered readings k done))
      (hfault : disk.writeFault? (Entry.path o.outputDirectory
        ⟨f, StampClock.stampAt readings (k + done.length)⟩) = some cause) :
      Stop k path (numbered readings k done)
        (.unwritable (Entry.path o.outputDirectory
          ⟨f, StampClock.stampAt readings (k + done.length)⟩) cause)

/-- The stamps that a source takes up to a failure: one for each entry, and
one for a file that cannot be written. -/
def stampsUpTo (es : List Entry) : Failure → Nat
  | .unwritable _ _ => es.length + 1
  | _ => es.length

variable {readings o plan disk}

/-- A source without parts cannot be read or is no feature file. -/
theorem stop_of_no_parts {k : Nat} {path : Path} {failure : Failure}
    (h : partsOf o plan.dialect disk path = .error failure) :
    Stop readings o plan disk k path [] failure := by
  rw [partsOf] at h
  split at h
  · next cause hread =>
      obtain rfl := Except.error.inj h
      exact .unreadable hread
  · next text hread =>
      rw [parse] at h
      cases htext : Feature.read plan.dialect text with
      | ok f =>
          rw [htext] at h
          exact absurd h (by simp [Except.mapError, Except.map])
      | error position =>
          rw [htext] at h
          obtain rfl := Except.error.inj h
          exact .malformed hread htext

/-- Features can all be written, or there is a first one that cannot. -/
theorem writable_or_fault (readings : Nat → Int64) (o : Options)
    (disk : Disk) (k : Nat) (fs : List Feature) :
    Writable o disk (numbered readings k fs)
    ∨ ∃ done f rest cause, fs = done ++ f :: rest
      ∧ Writable o disk (numbered readings k done)
      ∧ disk.writeFault? (Entry.path o.outputDirectory
        ⟨f, StampClock.stampAt readings (k + done.length)⟩)
          = some cause := by
  induction fs generalizing k with
  | nil => exact .inl (by simp [numbered, Writable])
  | cons f fs ih =>
      cases hfault : disk.writeFault? (Entry.path o.outputDirectory
        ⟨f, StampClock.stampAt readings k⟩) with
      | some cause =>
          exact .inr ⟨[], f, fs, cause, rfl, by simp [numbered, Writable],
            hfault⟩
      | none =>
          rcases ih (k + 1) with h | ⟨done, g, rest, cause, rfl, h, hg⟩
          · exact .inl (List.forall_mem_cons.mpr ⟨hfault, h⟩)
          · refine .inr ⟨f :: done, g, rest, cause, rfl,
              List.forall_mem_cons.mpr ⟨hfault, h⟩, ?_⟩
            rwa [List.length_cons, Nat.add_comm done.length 1,
              ← Nat.add_assoc]

/-- **All sources pass, or there is a first one that a run stops at.** -/
theorem passage_or_stop (readings : Nat → Int64) (o : Options)
    (plan : Plan) (disk : Disk) (k : Nat) (paths : List Path) :
    (∃ chapters, Passage readings o plan disk k paths chapters)
    ∨ ∃ before path after chapters es failure,
      paths = before ++ path :: after
      ∧ Passage readings o plan disk k before chapters
      ∧ Stop readings o plan disk (k + (entriesOf chapters).length) path es
        failure := by
  induction paths generalizing k with
  | nil => exact .inl ⟨[], .nil k⟩
  | cons path paths ih =>
      cases hparts : partsOf o plan.dialect disk path with
      | error failure =>
          exact .inr ⟨[], path, paths, [], [], failure, rfl, .nil k,
            stop_of_no_parts hparts⟩
      | ok all =>
          rcases writable_or_fault readings o disk k
              (plan.filter.select all) with
            hall | ⟨done, f, rest, cause, hkept, hdone, hfault⟩
          · rcases ih (k + (plan.filter.select all).length) with
              ⟨chapters, h⟩ | ⟨before, p, after, chapters, es, failure,
                rfl, h, hstop⟩
            · exact .inl ⟨_, .cons hparts hall h⟩
            · refine .inr ⟨path :: before, p, after, _, es, failure, rfl,
                .cons hparts hall h, ?_⟩
              simpa [entriesOf, Nat.add_assoc] using hstop
          · exact .inr ⟨[], path, paths, [], _, _, rfl, .nil k,
              .unwritable hparts hkept hdone hfault⟩

namespace Passage

variable {k : Nat} {paths : List Path} {chapters : List Chapter}

/-- The chapters are those of the sources, in their order. -/
theorem sources (h : Passage readings o plan disk k paths chapters) :
    chapters.map Chapter.source = paths := by
  induction h with
  | nil => rfl
  | cons _ _ _ ih => rw [List.map_cons, ih]

/-- Each chapter is what its source is made into. -/
theorem told (h : Passage readings o plan disk k paths chapters) :
    ∀ c ∈ chapters, partsOf o plan.dialect disk c.source = .ok c.parts
      ∧ c.entries.map Entry.feature = plan.filter.select c.parts := by
  induction h with
  | nil => simp
  | cons hparts _ _ ih =>
      exact List.forall_mem_cons.mpr ⟨⟨hparts, by simp⟩, ih⟩

/-- The stamps are those of the clock, in their order. -/
theorem stamps (h : Passage readings o plan disk k paths chapters) :
    (entriesOf chapters).map Entry.stamp
      = (List.range' k (entriesOf chapters).length).map
        (StampClock.stampAt readings) := by
  induction h with
  | nil => rfl
  | cons _ _ _ ih =>
      rw [entriesOf_cons, List.map_append, map_stamp_numbered,
        List.length_append, length_numbered, ← List.range'_append_1,
        List.map_append, ih]

/-- All entries of a passage can be written. -/
theorem writable (h : Passage readings o plan disk k paths chapters) :
    Writable o disk (entriesOf chapters) := by
  induction h with
  | nil => simp [entriesOf, Writable]
  | cons _ hwritable _ ih => exact List.forall_mem_append.mpr ⟨hwritable, ih⟩

end Passage

/-! ## The run does as it is told -/

/-- A workspace with the directories of the disk before the run, and a
clock that is where its readings have brought it. -/
structure InStep (readings : Nat → Int64) (disk : Disk) (w : Workspace) :
    Prop where
  tree : Disk.SameTree disk w.disk
  clock : w.clock = StampClock.after readings w.ticks

/-- A run starts in step. -/
theorem InStep.init (readings : Nat → Int64) (disk : Disk) :
    InStep readings disk (.init disk) :=
  ⟨.refl disk, rfl⟩

/-- It stays in step when a stamp has been given out. -/
theorem InStep.stamped {w : Workspace} (h : InStep readings disk w)
    {disk' : Disk} (htree : Disk.SameTree w.disk disk') :
    InStep readings disk (stamped readings w disk') :=
  ⟨h.tree.trans htree, by rw [Compile.stamped, h.clock]; rfl⟩

/-- What is counted does not matter to it. -/
theorem InStep.withTotals {w : Workspace} (h : InStep readings disk w)
    (t : Totals) : InStep readings disk (w.withTotals t) :=
  ⟨h.tree, h.clock⟩

/-- In step, the next entry has the stamp of its number. -/
theorem InStep.nextEntry {w : Workspace} (h : InStep readings disk w)
    (f : Feature) : Compile.nextEntry readings w f
      = ⟨f, StampClock.stampAt readings w.ticks⟩ := by
  rw [Compile.nextEntry, h.clock]
  rfl

/-- Features that can all be written are written, and counted. -/
theorem run_writable {w : Workspace} (h : InStep readings disk w)
    {fs : List Feature}
    (hwritable : Writable o disk (numbered readings w.ticks fs)) :
    ∃ w', (fs.mapM (writeKept readings o.outputDirectory)).run w
        = (.ok ((numbered readings w.ticks fs).map
          (Entry.path o.outputDirectory)), w')
      ∧ InStep readings disk w' ∧ w'.ticks = w.ticks + fs.length
      ∧ w'.totals = { w.totals with
        scenariosWritten := w.totals.scenariosWritten + fs.length }
      ∧ ∀ more, featureLog readings o.outputDirectory w (fs ++ more)
        = numbered readings w.ticks fs
          ++ featureLog readings o.outputDirectory w' more := by
  induction fs generalizing w with
  | nil => exact ⟨w, rfl, h, rfl, rfl, fun _ => rfl⟩
  | cons f fs ih =>
      obtain ⟨hfirst, hlater⟩ := List.forall_mem_cons.mp hwritable
      rw [← h.nextEntry f, ← h.tree.writeFault?] at hfirst
      obtain ⟨disk', hw⟩ := (Disk.write_eq w.disk _
        (Compile.nextEntry readings w f).text).2 hfirst
      obtain ⟨w', hrun, hstep, hticks, htotals, hlog⟩ :=
        ih ((h.stamped (Disk.sameTree_write hw)).withTotals
          w.totals.addWritten) hlater
      have hwrite := run_writeKept readings o.outputDirectory f w
      rw [hw] at hwrite
      refine ⟨w', ?_, hstep, ?_, ?_, fun more => ?_⟩
      · rw [Action.run_mapM_cons, hwrite]
        dsimp only
        rw [hrun, numbered, List.map_cons, ← h.nextEntry f]
        rfl
      · rw [hticks, List.length_cons, Nat.add_comm fs.length 1,
          ← Nat.add_assoc]
        rfl
      · rw [htotals, List.length_cons, Nat.add_comm fs.length 1,
          ← Nat.add_assoc]
        rfl
      · rw [List.cons_append, featureLog_cons, hwrite]
        dsimp only
        rw [hlog more, numbered, ← h.nextEntry f]
        rfl

/-- Features in front of one that cannot be written are written. -/
theorem run_fault {w : Workspace} (h : InStep readings disk w)
    {done rest : List Feature} {f : Feature} {cause : Files.WriteError}
    (hdone : Writable o disk (numbered readings w.ticks done))
    (hfault : disk.writeFault? (Entry.path o.outputDirectory
      ⟨f, StampClock.stampAt readings (w.ticks + done.length)⟩)
        = some cause) :
    ∃ w', ((done ++ f :: rest).mapM
        (writeKept readings o.outputDirectory)).run w
        = (.error (.unwritable (Entry.path o.outputDirectory
          ⟨f, StampClock.stampAt readings (w.ticks + done.length)⟩)
          cause), w')
      ∧ w'.ticks = w.ticks + (done.length + 1)
      ∧ featureLog readings o.outputDirectory w (done ++ f :: rest)
        = numbered readings w.ticks done := by
  obtain ⟨w', hrun, hstep, hticks, -, hlog⟩ := run_writable h hdone
  have hentry := hstep.nextEntry f
  rw [hticks] at hentry
  have hwrite := run_writeKept readings o.outputDirectory f w'
  rw [← hstep.tree.writeFault?] at hfault
  rw [hentry, (Disk.write_eq w'.disk _ _).1 cause hfault] at hwrite
  refine ⟨stamped readings w' w'.disk, ?_, ?_, ?_⟩
  · rw [Action.run_mapM_append, hrun]
    dsimp only
    rw [Action.run_mapM_cons, hwrite]
  · rw [← Nat.add_assoc, ← hticks]
    rfl
  · rw [hlog, featureLog_cons, hwrite, List.append_nil]

/-- A source of a disk that is kept has the parts that it had. -/
theorem partsOf_keeps {dialect : Dialect} {disk' : Disk}
    (hkeeps : Disk.Keeps disk disk') {path : Path}
    (hfile : disk.isFile path = true ∨ path.isTooLong = true) :
    partsOf o dialect disk' path = partsOf o dialect disk path := by
  rw [partsOf, partsOf, hkeeps.read hfile]

/-- **A source that passes is made into its chapter.** -/
theorem run_source {w : Workspace} (h : InStep readings disk w)
    (hkeeps : Disk.Keeps disk w.disk) {path : Path}
    (hfile : disk.isFile path = true ∨ path.isTooLong = true)
    {all : List Feature}
    (hparts : partsOf o plan.dialect disk path = .ok all)
    (hwritable : Writable o disk
      (numbered readings w.ticks (plan.filter.select all))) :
    ∃ w', (compileSource readings o plan path).run w
        = (.ok (Chapter.report o.outputDirectory ⟨path, all,
          numbered readings w.ticks (plan.filter.select all)⟩), w')
      ∧ InStep readings disk w'
      ∧ w'.ticks = w.ticks + (plan.filter.select all).length
      ∧ w'.totals = w.totals.after ⟨path, all,
          numbered readings w.ticks (plan.filter.select all)⟩
      ∧ featureLog readings o.outputDirectory w (keptOf o plan w.disk path)
        = numbered readings w.ticks (plan.filter.select all) := by
  obtain ⟨w', hrun, hstep, hticks, htotals, hlog⟩ :=
    run_writable (h.withTotals (w.totals.addParsed.addGenerated all.length))
      hwritable
  have hparts' := (partsOf_keeps hkeeps hfile).trans hparts
  refine ⟨w', ?_, hstep, hticks, ?_, ?_⟩
  · rw [run_compileSource, hparts']
    dsimp only
    rw [hrun]
    rfl
  · rw [htotals, Totals.after, length_numbered]
    rfl
  · have hall := hlog []
    rw [List.append_nil, featureLog_nil, List.append_nil,
      featureLog_withTotals] at hall
    rw [keptOf, hparts']
    exact hall

/-- **At a source that does not pass the run stops.** -/
theorem run_stop {w : Workspace} (h : InStep readings disk w)
    (hkeeps : Disk.Keeps disk w.disk) {path : Path}
    (hfile : disk.isFile path = true ∨ path.isTooLong = true)
    {es : List Entry} {failure : Failure}
    (hstop : Stop readings o plan disk w.ticks path es failure) :
    ∃ w', (compileSource readings o plan path).run w = (.error failure, w')
      ∧ w'.ticks = w.ticks + stampsUpTo es failure
      ∧ featureLog readings o.outputDirectory w (keptOf o plan w.disk path)
        = es := by
  rw [run_compileSource, keptOf, partsOf_keeps hkeeps hfile]
  cases hstop with
  | unreadable hread =>
      rw [partsOf, hread]
      exact ⟨w, rfl, rfl, rfl⟩
  | malformed hread htext =>
      rw [partsOf, hread]
      simp only [parse, htext]
      exact ⟨w, rfl, rfl, rfl⟩
  | unwritable hparts hkept hdone hfault =>
      obtain ⟨w', hrun, hticks, hlog⟩ := run_fault (h.withTotals
        (w.totals.addParsed.addGenerated _)) hdone hfault
      rw [hparts]
      dsimp only
      rw [hkept, hrun]
      rw [featureLog_withTotals] at hlog
      refine ⟨w', rfl, ?_, hlog⟩
      rw [hticks, stampsUpTo, length_numbered]
      rfl

/-- **Sources that pass are made into their chapters,** as long as no file
of the disk before the run is written to. -/
theorem run_passage {w : Workspace} (h : InStep readings disk w)
    (hkeeps : Disk.Keeps disk w.disk) {paths : List Path}
    (hfiles : ∀ path ∈ paths,
      disk.isFile path = true ∨ path.isTooLong = true)
    {chapters : List Chapter}
    (hpass : Passage readings o plan disk w.ticks paths chapters)
    (more : List Path)
    (hfresh : ∀ item ∈ sourceLog readings o plan w (paths ++ more),
      ∀ e ∈ item.2, disk.isFile (e.path o.outputDirectory) = false) :
    ∃ w', (paths.mapM (compileSource readings o plan)).run w
        = (.ok (chapters.map (Chapter.report o.outputDirectory)), w')
      ∧ InStep readings disk w' ∧ Disk.Keeps disk w'.disk
      ∧ w'.ticks = w.ticks + (entriesOf chapters).length
      ∧ w'.totals = chapters.foldl Totals.after w.totals
      ∧ ∀ others, sourceLog readings o plan w (paths ++ others)
        = chapters.map Chapter.item
          ++ sourceLog readings o plan w' others := by
  generalize hk : w.ticks = k at hpass
  induction hpass generalizing w with
  | nil => exact ⟨w, rfl, h, hkeeps, hk, rfl, fun _ => rfl⟩
  | @cons k path paths all chapters hparts hwritable hlater ih =>
      obtain ⟨hfile, hfiles⟩ := List.forall_mem_cons.mp hfiles
      subst hk
      obtain ⟨w', hrun, hstep, hticks, htotals, hlog⟩ :=
        run_source h hkeeps hfile hparts hwritable
      have hcons : ∀ others, sourceLog readings o plan w (path :: others)
          = (path, numbered readings w.ticks (plan.filter.select all))
            :: sourceLog readings o plan w' others := by
        intro others
        rw [sourceLog_cons, hrun, hlog]
      rw [List.cons_append, hcons] at hfresh
      obtain ⟨hfirst, hfresh⟩ := List.forall_mem_cons.mp hfresh
      -- What this source wrote is fresh, so the next one is read as before.
      have hwrite := writeAll_compileSource readings o plan w path
      rw [hrun, hlog] at hwrite
      have hkeeps' : Disk.Keeps disk w'.disk := by
        refine hkeeps.writeAll (fun v hv => ?_) hwrite
        obtain ⟨e, he, rfl⟩ := List.mem_map.mp hv
        exact hfirst e he
      obtain ⟨w'', hrun', hstep', hkeeps'', hticks', htotals', hlog'⟩ :=
        ih hstep hkeeps' hfiles hfresh hticks
      refine ⟨w'', ?_, hstep', hkeeps'', ?_, ?_, fun others => ?_⟩
      · rw [Action.run_mapM_cons, hrun]
        dsimp only
        rw [hrun']
        rfl
      · rw [hticks', entriesOf_cons, List.length_append, length_numbered,
          Nat.add_assoc]
      · rw [htotals', htotals, List.foldl_cons]
      · rw [List.cons_append, hcons, hlog' others]
        rfl

/-! ## The whole run -/

/-- The sources of a run are files, or their paths are too long. -/
theorem isFile_of_prepare (hwell : disk.WellFormed)
    (hplan : prepare disk o = .ok plan) :
    ∀ path ∈ plan.sources,
      disk.isFile path = true ∨ path.isTooLong = true :=
  Files.isFile_of_discover hwell (prepare_eq_ok hplan).2.2

/-- The ledger of a run that is prepared is that of its sources. -/
theorem ledger_eq (readings : Nat → Int64)
    (hplan : prepare disk o = .ok plan) : ledger readings o disk
      = sourceLog readings o plan (.init disk) plan.sources := by
  rw [ledger, hplan]

/-- **Sources are taken up to the first at which the run stops,** whatever
stands behind it. -/
theorem take_stop {before after : List Path} {path : Path}
    (hfiles : ∀ path' ∈ before ++ path :: after,
      disk.isFile path' = true ∨ path'.isTooLong = true)
    (hfresh : ∀ item ∈ sourceLog readings o plan (.init disk)
      (before ++ path :: after), ∀ e ∈ item.2,
        disk.isFile (e.path o.outputDirectory) = false)
    {chapters : List Chapter}
    (hpass : Passage readings o plan disk 0 before chapters)
    {es : List Entry} {failure : Failure}
    (hstop : Stop readings o plan disk (entriesOf chapters).length path es
      failure) :
    ∃ w, w.ticks = (entriesOf chapters).length + stampsUpTo es failure
      ∧ ∀ others, takeSources readings o plan disk
        (before ++ path :: others) = (.error failure, w)
      ∧ sourceLog readings o plan (.init disk) (before ++ path :: others)
        = chapters.map Chapter.item ++ [(path, es)] := by
  obtain ⟨hbefore, hlater⟩ := List.forall_mem_append.mp hfiles
  obtain ⟨w, hrun, hstep, hkeeps, hticks, -, hlog⟩ :=
    run_passage (.init readings disk) (.refl disk) hbefore hpass _ hfresh
  have hcount : (entriesOf chapters).length = w.ticks := by
    rw [hticks]
    exact (Nat.zero_add _).symm
  rw [hcount] at hstop
  obtain ⟨w', hfail, hticks', hes⟩ :=
    run_stop hstep hkeeps (hlater path List.mem_cons_self) hstop
  refine ⟨w', hcount ▸ hticks', fun others => ⟨?_, ?_⟩⟩
  · rw [takeSources, Action.run_mapM_append, hrun]
    dsimp only
    rw [Action.run_mapM_cons, hfail]
  · rw [hlog, sourceLog_cons, hfail, hes]

/-- **If all sources pass, the run reports them.** -/
theorem run_of_passage (hwell : disk.WellFormed)
    (hfresh : Fresh readings o disk) (hplan : prepare disk o = .ok plan)
    {chapters : List Chapter}
    (hpass : Passage readings o plan disk 0 plan.sources chapters) :
    (run readings o disk).1
        = .ok (.ofChapters o.outputDirectory chapters)
      ∧ ledger readings o disk = chapters.map Chapter.item
      ∧ stampsTaken readings o disk = (entriesOf chapters).length := by
  rw [Fresh, ledger_eq readings hplan] at hfresh
  obtain ⟨w', hrun, -, -, hticks, htotals, hlog⟩ :=
    run_passage (.init readings disk) (.refl disk)
      (isFile_of_prepare hwell hplan) hpass [] (by rwa [List.append_nil])
  have hall := hlog []
  rw [List.append_nil, sourceLog_nil, List.append_nil] at hall
  refine ⟨?_, (ledger_eq readings hplan).trans hall, ?_⟩
  · rw [run_eq, hplan]
    dsimp only
    rw [takeSources, hrun]
    dsimp only
    rw [htotals]
    rfl
  · rw [stampsTaken_eq readings o hplan, takeSources, hrun, hticks]
    exact Nat.zero_add _

/-- **If the run stops at a source, it fails there.** -/
theorem run_of_stop (hwell : disk.WellFormed)
    (hfresh : Fresh readings o disk) (hplan : prepare disk o = .ok plan)
    {before after : List Path} {path : Path}
    (hsources : plan.sources = before ++ path :: after)
    {chapters : List Chapter}
    (hpass : Passage readings o plan disk 0 before chapters)
    {es : List Entry} {failure : Failure}
    (hstop : Stop readings o plan disk (entriesOf chapters).length path es
      failure) : (run readings o disk).1 = .error failure
      ∧ stampsTaken readings o disk
        = (entriesOf chapters).length + stampsUpTo es failure := by
  rw [Fresh, ledger_eq readings hplan, hsources] at hfresh
  obtain ⟨w, hticks, htake⟩ := take_stop
    (hsources ▸ isFile_of_prepare hwell hplan) hfresh hpass hstop
  constructor
  · rw [run_eq, hplan]
    dsimp only
    rw [hsources, (htake after).1]
  · rw [stampsTaken_eq readings o hplan, hsources, (htake after).1, hticks]

/-- **All sources of a run that succeeds pass.** -/
theorem passage_of_run (hwell : disk.WellFormed)
    (hfresh : Fresh readings o disk) {report : Report}
    (hrun : (run readings o disk).1 = .ok report) :
    ∃ plan chapters, prepare disk o = .ok plan
      ∧ Passage readings o plan disk 0 plan.sources chapters
      ∧ report = .ofChapters o.outputDirectory chapters
      ∧ ledger readings o disk = chapters.map Chapter.item := by
  cases hplan : prepare disk o with
  | error failure =>
      rw [run_eq, hplan] at hrun
      exact absurd hrun (by simp)
  | ok plan =>
      rcases passage_or_stop readings o plan disk 0 plan.sources with
        ⟨chapters, hpass⟩ | ⟨_, _, _, _, _, _, hsources, hpass, hstop⟩
      · obtain ⟨hok, hlog, -⟩ := run_of_passage hwell hfresh hplan hpass
        exact ⟨plan, chapters, rfl, hpass,
          Except.ok.inj (hrun.symm.trans hok), hlog⟩
      · rw [Nat.zero_add] at hstop
        have hfail :=
          (run_of_stop hwell hfresh hplan hsources hpass hstop).1
        exact absurd (hrun.symm.trans hfail) (by simp)

end SoloScenario.Compile
