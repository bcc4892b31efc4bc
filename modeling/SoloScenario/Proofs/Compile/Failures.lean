import SoloScenario.Proofs.Compile.Accounts
import SoloScenario.Proofs.Files.Outline

/-!
# What a run that fails leaves behind

A run fails before its sources or at one of them.  In the first case
(`Refused`) nothing is written, and the failure is that of the first check
that fails.  In the other (`FailsAt`) the sources before have been dealt
with as in a run without the others, what could be written of the source
itself is there, and the sources behind it are not looked at.

* `run_fails_iff` — there is no other failure, as long as no file that is
  written was there before;
* `disk_of_configuration` — a run whose options are at fault writes
  nothing, whatever is on the disk.
-/

namespace SoloScenario.Compile

open Files (Disk Path)
open Output (StampClock)

/-- Each source of a ledger with the features that are written for it. -/
def featuresOf (items : List (Path × List Entry)) :
    List (Path × List Feature) :=
  items.map fun item => (item.1, item.2.map Entry.feature)

/-- A run that fails before its sources. -/
structure Refused (readings : Nat → Int64) (o : Options) (disk : Disk)
    (failure : Failure) : Prop where
  /-- The failure is that of the first check that fails. -/
  first : (checks disk o).findSome? id = some failure
  /-- Nothing is written. -/
  nothing : ledger readings o disk = []
  unchanged : (run readings o disk).2 = disk
  /-- What files hold has no influence. -/
  blind : ∀ disk', Disk.SameOutline disk disk' →
    run readings o disk' = (.error failure, disk')

/-- A run that fails at the source `path`, behind the sources `before`. -/
structure FailsAt (readings : Nat → Int64) (o : Options) (disk : Disk)
    (failure : Failure) (plan : Plan) (before : List Path) (path : Path)
    (after : List Path) (chapters : List Chapter) (es : List Entry) :
    Prop where
  planned : prepare disk o = .ok plan
  sources : plan.sources = before ++ path :: after
  /-- The sources in front can be read, split and written. -/
  passage : Passage readings o plan disk 0 before chapters
  /-- This one cannot. -/
  stop : Stop readings o plan disk (entriesOf chapters).length path es
    failure
  /-- What is written is what is written for the sources in front, and the
  entries in front of the failure. -/
  written : ledger readings o disk
    = chapters.map Chapter.item ++ [(path, es)]
  /-- This is all that is done to the disk. -/
  left : disk.writeAll (writesOf o.outputDirectory
      (chapters.map Chapter.item ++ [(path, es)]))
    = .ok (run readings o disk).2
  /-- The sources in front are dealt with as if they were alone. -/
  alone : (takeSources readings o plan disk before).1
      = .ok (chapters.map (Chapter.report o.outputDirectory))
    ∧ sourceLog readings o plan (.init disk) before
      = chapters.map Chapter.item
  /-- The same features are written for them at any other time. -/
  anytime : ∀ readings' reports,
    (takeSources readings' o plan disk before).1 = .ok reports →
    (∀ item ∈ sourceLog readings' o plan (.init disk) before,
      ∀ e ∈ item.2, disk.isFile (e.path o.outputDirectory) = false) →
    featuresOf (sourceLog readings' o plan (.init disk) before)
      = featuresOf (chapters.map Chapter.item)
  /-- The sources behind have no influence. -/
  unread : ∀ others, takeSources readings o plan disk
      (before ++ path :: others) = takeSources readings o plan disk
      plan.sources
  /-- The disk before the run is still there. -/
  kept : Disk.Keeps disk (run readings o disk).2

variable {readings : Nat → Int64} {o : Options} {disk : Disk}

/-- The first check that fails refuses the run. -/
theorem refused_of_check {failure : Failure}
    (h : (checks disk o).findSome? id = some failure) :
    Refused readings o disk failure := by
  have hprepare := prepare_eq_error.mpr h
  refine ⟨h, ?_, ?_, fun disk' hsame => ?_⟩
  · rw [ledger, hprepare]
  · rw [run_eq, hprepare]
  · have hchecks : checks disk' o = checks disk o := by
      simp only [checks, hsame.isDirectory, hsame.discover]
    rw [run_eq, prepare_eq_error.mpr (hchecks ▸ h)]

/-- The features of chapters are settled by their sources. -/
theorem featuresOf_passage {readings readings' : Nat → Int64} {plan : Plan}
    {k : Nat} {paths : List Path} {chapters chapters' : List Chapter}
    (h : Passage readings o plan disk k paths chapters)
    (h' : Passage readings' o plan disk k paths chapters') :
    featuresOf (chapters'.map Chapter.item)
      = featuresOf (chapters.map Chapter.item) := by
  have hkept : ∀ {readings : Nat → Int64} {chapters : List Chapter},
      Passage readings o plan disk k paths chapters →
      featuresOf (chapters.map Chapter.item)
        = paths.map fun path => (path, keptOf o plan disk path) := by
    intro readings chapters h
    rw [← h.sources, featuresOf, List.map_map, List.map_map]
    refine List.map_congr_left fun c hc => ?_
    obtain ⟨hparts, hfeatures⟩ := h.told c hc
    simp only [Function.comp_apply, Chapter.item, keptOf, hparts, hfeatures]
  rw [hkept h, hkept h']

/-- **A run that stops at a source fails there.** -/
theorem failsAt_of_stop (hwell : disk.WellFormed)
    (hfresh : Fresh readings o disk) {plan : Plan}
    (hplan : prepare disk o = .ok plan) {before after : List Path}
    {path : Path} (hsources : plan.sources = before ++ path :: after)
    {chapters : List Chapter}
    (hpass : Passage readings o plan disk 0 before chapters)
    {es : List Entry} {failure : Failure}
    (hstop : Stop readings o plan disk (entriesOf chapters).length path es
      failure) :
    FailsAt readings o disk failure plan before path after chapters es := by
  have hlog := ledger_eq readings hplan
  have hlogged := hfresh
  rw [Fresh, hlog, hsources] at hlogged
  have hfiles := isFile_of_prepare hwell hplan
  rw [hsources] at hfiles
  have hbefore := (List.forall_mem_append.mp hfiles).1
  obtain ⟨w, hrun, -, -, -, -, halone⟩ :=
    run_passage (.init readings disk) (.refl disk) hbefore hpass _ hlogged
  obtain ⟨w', -, htake⟩ := take_stop hfiles hlogged hpass hstop
  have hledger := hlog.trans (hsources ▸ (htake after).2)
  refine ⟨hplan, hsources, hpass, hstop, hledger, ?_, ⟨?_, ?_⟩, ?_, ?_,
    hfresh.keeps⟩
  · rw [← hledger, disk_run]
  · rw [takeSources, hrun]
  · have hnone := halone []
    rwa [List.append_nil, sourceLog_nil, List.append_nil] at hnone
  · intro readings' reports hok hfresh'
    rcases passage_or_stop readings' o plan disk 0 before with
      ⟨chapters', hpass'⟩ | ⟨b, p, a, _, _, e, rfl, hpass', hstop'⟩
    · obtain ⟨_, -, -, -, -, -, hlog'⟩ :=
        run_passage (.init readings' disk) (.refl disk) hbefore hpass' []
          (by rwa [List.append_nil])
      have hnone := hlog' []
      rw [List.append_nil, sourceLog_nil, List.append_nil] at hnone
      rw [hnone]
      exact featuresOf_passage hpass hpass'
    · rw [Nat.zero_add] at hstop'
      obtain ⟨_, -, hfail⟩ := take_stop hbefore hfresh' hpass' hstop'
      rw [(hfail a).1] at hok
      exact absurd hok (by simp)
  · intro others
    rw [hsources, (htake others).1, (htake after).1]

/-- **A run fails before its sources or at one of them,** and what it leaves
behind is told by where it fails. -/
theorem run_fails_iff (hwell : disk.WellFormed)
    (hfresh : Fresh readings o disk) {failure : Failure} :
    (run readings o disk).1 = .error failure
      ↔ Refused readings o disk failure
        ∨ ∃ plan before path after chapters es,
          FailsAt readings o disk failure plan before path after chapters es
    := by
  constructor
  · intro hrun
    cases hplan : prepare disk o with
    | error e =>
        rw [run_eq, hplan] at hrun
        obtain rfl := Except.error.inj hrun
        exact .inl (refused_of_check (prepare_eq_error.mp hplan))
    | ok plan =>
        rcases passage_or_stop readings o plan disk 0 plan.sources with
          ⟨chapters, hpass⟩ | ⟨before, path, after, chapters, es, e,
            hsources, hpass, hstop⟩
        · have hok := (run_of_passage hwell hfresh hplan hpass).1
          exact absurd (hrun.symm.trans hok) (by simp)
        · rw [Nat.zero_add] at hstop
          have hfail :=
            (run_of_stop hwell hfresh hplan hsources hpass hstop).1
          obtain rfl := Except.error.inj (hrun.symm.trans hfail)
          exact .inr ⟨plan, before, path, after, chapters, es,
            failsAt_of_stop hwell hfresh hplan hsources hpass hstop⟩
  · rintro (h | ⟨plan, before, path, after, chapters, es, h⟩)
    · rw [run_eq, prepare_eq_error.mpr h.first]
    · exact (run_of_stop hwell hfresh h.planned h.sources h.passage
        h.stop).1

/-! ## The kind of a failure -/

/-- An action over several items fails as it does on one of them. -/
theorem Action.error_of_mapM {α β : Type} {f : α → Action β} {xs : List α}
    {w : Workspace} {failure : Failure}
    (h : ((xs.mapM f).run w).1 = .error failure) :
    ∃ x ∈ xs, ∃ w', ((f x).run w').1 = .error failure := by
  induction xs generalizing w with
  | nil => exact absurd h (by simp [pure, ExceptT.pure, ExceptT.mk,
      ExceptT.run, StateT.pure])
  | cons x xs ih =>
      rw [Action.run_mapM_cons] at h
      cases hx : (f x).run w with
      | mk e w' =>
          rw [hx] at h
          cases e with
          | error failure' =>
              obtain rfl := Except.error.inj h
              exact ⟨x, List.mem_cons_self, w, congrArg Prod.fst hx⟩
          | ok y =>
              cases hxs : (xs.mapM f).run w' with
              | mk e' w'' =>
                  simp only [hxs] at h
                  cases e' with
                  | error failure' =>
                      obtain rfl := Except.error.inj h
                      obtain ⟨x', hx', hfail⟩ := ih (congrArg Prod.fst hxs)
                      exact ⟨x', List.mem_cons_of_mem _ hx', hfail⟩
                  | ok ys => exact absurd h (by simp)

/-- What stops a run at a source is no fault of the options. -/
theorem Stop.kind {plan : Plan} {k : Nat} {path : Path} {es : List Entry}
    {failure : Failure} (h : Stop readings o plan disk k path es failure) :
    failure.kind ≠ .configuration := by
  cases h <;> simp [Failure.kind]

/-- A source fails for no fault of the options. -/
theorem kind_of_compileSource {plan : Plan} {path : Path} {w : Workspace}
    {failure : Failure}
    (h : ((compileSource readings o plan path).run w).1 = .error failure) :
    failure.kind ≠ .configuration := by
  rw [run_compileSource] at h
  cases hparts : partsOf o plan.dialect w.disk path with
  | error failure' =>
      rw [hparts] at h
      obtain rfl := Except.error.inj h
      exact (stop_of_no_parts hparts : Stop readings o plan _ 0 _ _ _).kind
  | ok all =>
      simp only [hparts] at h
      have hfail : (((plan.filter.select all).mapM
          (writeKept readings o.outputDirectory)).run (w.withTotals
            (w.totals.addParsed.addGenerated all.length))).1
            = .error failure := by
        cases hrun : ((plan.filter.select all).mapM
            (writeKept readings o.outputDirectory)).run (w.withTotals
              (w.totals.addParsed.addGenerated all.length)) with
        | mk e w' =>
            rw [hrun] at h
            cases e with
            | error failure' =>
                obtain rfl := Except.error.inj h
                rfl
            | ok written => exact absurd h (by simp)
      obtain ⟨f, -, w', hwrite⟩ := Action.error_of_mapM hfail
      rw [run_writeKept] at hwrite
      split at hwrite
      · obtain rfl := Except.error.inj hwrite
        simp [Failure.kind]
      · exact absurd hwrite (by simp)

/-- **Faults of the options are found before anything is written.** -/
theorem disk_of_configuration {failure : Failure}
    (h : (run readings o disk).1 = .error failure)
    (hkind : failure.kind = .configuration) :
    (run readings o disk).2 = disk := by
  rw [run_eq] at h ⊢
  cases hplan : prepare disk o with
  | error failure' => rfl
  | ok plan =>
      rw [hplan] at h
      dsimp only at h
      cases htake : takeSources readings o plan disk plan.sources with
      | mk e w =>
          rw [htake] at h
          cases e with
          | ok sources => exact absurd h (by simp)
          | error failure' =>
              obtain rfl := Except.error.inj h
              have hfail : (takeSources readings o plan disk
                  plan.sources).1 = .error failure' := congrArg Prod.fst htake
              obtain ⟨path, -, w', hsource⟩ := Action.error_of_mapM hfail
              exact absurd hkind (kind_of_compileSource hsource)

namespace Sample

/-- Two files with the text, one that is no feature file, and a directory
that stands where the fourth file would be written. -/
def blocked : Disk where
  nodes := [(["s.feature"], .file text.toUTF8),
    (["t.feature"], .file text.toUTF8), (["u.feature"], .file "u".toUTF8),
    (["out"], .directory), (["out", "f.8.feature"], .directory)]
  workingDirectory := []

/-- The three files. -/
def sources : List Path :=
  ["s.feature", "t.feature", "u.feature"]

/-- The first pattern finds the first file. -/
theorem filesOf_s : Files.filesOf blocked "s.feature" = .ok ["s.feature"] := by
  rw [Files.filesOf, ofText_s]
  rfl

/-- The second pattern is read letter by letter. -/
theorem ofText_t : Files.Pattern.ofText "t.feature"
    = .ok ⟨false, ["t.feature".toList.map .literal], false⟩ := by
  cbv

/-- It finds the second file. -/
theorem filesOf_t : Files.filesOf blocked "t.feature" = .ok ["t.feature"] := by
  rw [Files.filesOf, ofText_t]
  rfl

/-- All three files are found. -/
theorem discover_blocked : Files.discover blocked sources = .ok sources := by
  have ofText_u : Files.Pattern.ofText "u.feature"
      = .ok ⟨false, ["u.feature".toList.map .literal], false⟩ := by
    cbv
  have hu : Files.filesOf blocked "u.feature" = .ok ["u.feature"] := by
    rw [Files.filesOf, ofText_u]
    rfl
  simp only [Files.discover, sources, List.mapM_cons, filesOf_s, filesOf_t,
    hu]
  rfl

/-- The first file has the text. -/
theorem read_s : blocked.read "s.feature" = .ok text :=
  Disk.read_of_node? (l := ["s.feature"]) (by decide) (by decide) rfl

/-- The second file has it too. -/
theorem read_t : blocked.read "t.feature" = .ok text :=
  Disk.read_of_node? (l := ["t.feature"]) (by decide) (by decide) rfl

/-- The directory that stands in the way is no file. -/
theorem fresh_blocked (readings : Nat → Int64) (patterns : List String) :
    Fresh readings (options patterns) blocked := by
  have hbase : blocked.locate? "out" = some ["out"] := by decide
  refine fresh_of_no_files _ ["out"] hbase fun name content => ?_
  by_cases hname : name = "f.8.feature"
  · subst hname
    simp [Disk.node?, blocked]
  · simp [Disk.node?, blocked, Ne.symm hname]

variable {patterns sources : List String}

/-- The first file is made into a chapter. -/
theorem passage_blocked : Passage (fun _ => 5) (options patterns)
    (planned sources) blocked 0 ["s.feature"] [⟨"s.feature", parts,
      [⟨part "a" [⟨"@k"⟩], 5⟩, ⟨part "c" [⟨"@k"⟩], 6⟩]⟩] := by
  have hwritable : Writable (options []) blocked (numbered (fun _ => 5) 0
      [part "a" [⟨"@k"⟩], part "c" [⟨"@k"⟩]]) := by decide
  exact .cons (partsOf_text read_s) hwritable (.nil _)

/-- At the second file the run stops, in front of its second feature. -/
theorem stop_blocked : Stop (fun _ => 5) (options patterns)
    (planned sources) blocked 2 "t.feature" [⟨part "a" [⟨"@k"⟩], 7⟩]
    (.unwritable "out/f.8.feature" .isDirectory) := by
  have hkept : (planned sources).filter.select parts
      = [part "a" [⟨"@k"⟩]] ++ part "c" [⟨"@k"⟩] :: [] := rfl
  have hwritable : Writable (options []) blocked
      (numbered (fun _ => 5) 2 [part "a" [⟨"@k"⟩]]) := by decide
  have hfault : blocked.writeFault? (Entry.path (options []).outputDirectory
      ⟨part "c" [⟨"@k"⟩], StampClock.stampAt (fun _ => 5)
        (2 + [part "a" [⟨"@k"⟩]].length)⟩) = some .isDirectory := by decide
  have hseven : StampClock.stampAt (fun _ => 5) 2 = 7 := by decide
  have height : StampClock.stampAt (fun _ => 5) (2 + 1) = 8 := by decide
  have hdir : (options patterns).outputDirectory = "out" := rfl
  have hpath : Entry.path "out" ⟨part "c" [⟨"@k"⟩], 8⟩ = "out/f.8.feature" :=
    by decide
  have hstop := Stop.unwritable (o := options patterns)
    (partsOf_text read_t) hkept hwritable hfault
  rw [numbered, List.length_singleton, hseven, height, hdir, hpath] at hstop
  exact hstop

end Sample

/-- The run over three files fails at the second feature of the second one,
and says nothing of the third one, which is no feature file. -/
theorem run_fails_iff_blocked :
    Sample.blocked.WellFormed
      ∧ Fresh (fun _ => 5) (Sample.options Sample.sources) Sample.blocked
      ∧ (run (fun _ => 5) (Sample.options Sample.sources)
          Sample.blocked).1
        = .error (.unwritable "out/f.8.feature" .isDirectory)
      ∧ (Refused (fun _ => 5) (Sample.options Sample.sources)
          Sample.blocked (.unwritable "out/f.8.feature" .isDirectory)
        ∨ ∃ plan before path after chapters es,
          FailsAt (fun _ => 5) (Sample.options Sample.sources)
            Sample.blocked (.unwritable "out/f.8.feature" .isDirectory) plan
            before path after chapters es) := by
  have hwell : Sample.blocked.WellFormed := by decide
  have hfresh := Sample.fresh_blocked (fun _ => 5) Sample.sources
  have hsources : (Sample.planned Sample.sources).sources
      = ["s.feature"] ++ "t.feature" :: ["u.feature"] := rfl
  have hrun := (run_of_stop hwell hfresh
    (Sample.prepare_options rfl (by decide) Sample.discover_blocked)
    hsources Sample.passage_blocked Sample.stop_blocked).1
  exact ⟨hwell, hfresh, hrun, (run_fails_iff hwell hfresh).mp hrun⟩

end SoloScenario.Compile
