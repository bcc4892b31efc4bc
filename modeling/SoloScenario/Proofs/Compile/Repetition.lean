import SoloScenario.Proofs.Compile.Order

/-!
# The same run at another time

The time of a run is in the stamps of its files and nowhere else.  Two
runs with the same options on the same disk, at any two times, write the
same features for the same sources:

* `features_of_successes` — if both succeed;
* `run_at_another_time` — if the stamps do not decide what can be written
  (`EquallyWritable`); then the runs also end in the same way.

Stamps decide only by their length (`equallyWritable_of_length`).
-/

namespace SoloScenario.Compile

open Files (Disk Path)
open Output (StampClock stampText)

variable {readings readings' : Nat → Int64} {o : Options} {plan : Plan}
  {disk : Disk}

/-- What can be written with the stamps of one clock can be written with
those of the other. -/
def EquallyWritable (readings readings' : Nat → Int64) (o : Options)
    (disk : Disk) : Prop :=
  ∀ f k,
    disk.writeFault? (Entry.path o.outputDirectory
        ⟨f, StampClock.stampAt readings k⟩) = none
      ↔ disk.writeFault? (Entry.path o.outputDirectory
        ⟨f, StampClock.stampAt readings' k⟩) = none

/-- Stamps of the same length decide nothing, unless a directory has the
name of a file. -/
theorem equallyWritable_of_length (hdir : o.outputDirectory ≠ "")
    (hlength : ∀ k, (stampText (StampClock.stampAt readings k)).length
      = (stampText (StampClock.stampAt readings' k)).length)
    (hfree : ∀ f s, disk.writeFault? (Entry.path o.outputDirectory ⟨f, s⟩)
      ≠ some .isDirectory) :
    EquallyWritable readings readings' o disk := fun f k =>
  ⟨fun h => (writable_restamped hdir (hlength k) h).resolve_right
      (hfree f _),
    fun h => (writable_restamped hdir (hlength k).symm h).resolve_right
      (hfree f _)⟩

/-- How a run ends, without what it has to say. -/
def endOf : Except Failure Report → Option FailureKind
  | .ok _ => none
  | .error failure => some failure.kind

namespace EquallyWritable

/-- Features that can be written at one time can be written at the other. -/
theorem numbered (h : EquallyWritable readings readings' o disk) {k : Nat}
    {fs : List Feature}
    (hfs : Writable o disk (Compile.numbered readings k fs)) :
    Writable o disk (Compile.numbered readings' k fs) := by
  induction fs generalizing k with
  | nil => simp [Compile.numbered, Writable]
  | cons f fs ih =>
      obtain ⟨hf, hfs⟩ := List.forall_mem_cons.mp hfs
      exact List.forall_mem_cons.mpr ⟨(h f k).mp hf, ih hfs⟩

/-- Sources that pass at one time pass at the other. -/
theorem passage (h : EquallyWritable readings readings' o disk) {k : Nat}
    {paths : List Path} {chapters : List Chapter}
    (hpass : Passage readings o plan disk k paths chapters) :
    ∃ chapters', Passage readings' o plan disk k paths chapters'
      ∧ (entriesOf chapters').length = (entriesOf chapters).length := by
  induction hpass with
  | nil k => exact ⟨[], .nil k, rfl⟩
  | cons hparts hwritable _ ih =>
      obtain ⟨chapters', hpass', hlength⟩ := ih
      refine ⟨_, .cons hparts (h.numbered hwritable) hpass', ?_⟩
      rw [entriesOf_cons, entriesOf_cons, List.length_append,
        List.length_append, length_numbered, length_numbered, hlength]

/-- A source that stops a run at one time stops it at the other. -/
theorem stop (h : EquallyWritable readings readings' o disk) {k : Nat}
    {path : Path} {es : List Entry} {failure : Failure}
    (hstop : Stop readings o plan disk k path es failure) :
    ∃ es' failure', Stop readings' o plan disk k path es' failure'
      ∧ es'.map Entry.feature = es.map Entry.feature
      ∧ failure'.kind = failure.kind := by
  cases hstop with
  | unreadable hread => exact ⟨_, _, .unreadable hread, rfl, rfl⟩
  | malformed hread htext => exact ⟨_, _, .malformed hread htext, rfl, rfl⟩
  | @unwritable all done rest f cause hparts hkept hdone hfault =>
      have hfault' : disk.writeFault? (Entry.path o.outputDirectory
          ⟨f, StampClock.stampAt readings' (k + done.length)⟩) ≠ none :=
        fun hnone => by
          rw [(h f (k + done.length)).mpr hnone] at hfault
          exact absurd hfault (by simp)
      obtain ⟨cause', hcause⟩ := Option.ne_none_iff_exists'.mp hfault'
      refine ⟨_, _, .unwritable hparts hkept (h.numbered hdone) hcause, ?_, ?_⟩
      · rw [map_feature_numbered, map_feature_numbered]
      · -- The paths differ, and comparing them would take the clocks apart.
        simp only [Failure.kind]

end EquallyWritable

/-- **A run writes the same at any other time,** if the stamps do not
decide what can be written.  It also ends in the same way. -/
theorem run_at_another_time (hwell : disk.WellFormed)
    (hfresh : Fresh readings o disk) (hfresh' : Fresh readings' o disk)
    (h : EquallyWritable readings readings' o disk) :
    endOf (run readings' o disk).1 = endOf (run readings o disk).1
      ∧ featuresOf (ledger readings' o disk)
        = featuresOf (ledger readings o disk) := by
  cases hplan : prepare disk o with
  | error failure =>
      simp only [run_eq, ledger, hplan]
      exact ⟨trivial, trivial⟩
  | ok plan =>
      rcases passage_or_stop readings o plan disk 0 plan.sources with
        ⟨chapters, hpass⟩ | ⟨before, path, after, chapters, es, failure,
          hsources, hpass, hstop⟩
      · obtain ⟨chapters', hpass', -⟩ := h.passage hpass
        obtain ⟨hrun, hlog, -⟩ := run_of_passage hwell hfresh hplan hpass
        obtain ⟨hrun', hlog', -⟩ := run_of_passage hwell hfresh' hplan hpass'
        rw [hrun, hrun', hlog, hlog']
        exact ⟨rfl, featuresOf_passage hpass hpass'⟩
      · rw [Nat.zero_add] at hstop
        obtain ⟨chapters', hpass', hlength⟩ := h.passage hpass
        obtain ⟨es', failure', hstop', hfeatures, hkind⟩ := h.stop hstop
        rw [← hlength] at hstop'
        have hrun := (run_of_stop hwell hfresh hplan hsources hpass hstop).1
        have hrun' :=
          (run_of_stop hwell hfresh' hplan hsources hpass' hstop').1
        have hlog :=
          (failsAt_of_stop hwell hfresh hplan hsources hpass hstop).written
        have hlog' :=
          (failsAt_of_stop hwell hfresh' hplan hsources hpass' hstop').written
        have hsame := featuresOf_passage hpass hpass'
        rw [hrun, hrun', hlog, hlog']
        refine ⟨congrArg some hkind, ?_⟩
        simp only [featuresOf, List.map_append, List.map_cons, List.map_nil,
          hfeatures] at hsame ⊢
        rw [hsame]

/-- **Two runs that succeed have written the same.** -/
theorem features_of_successes (hwell : disk.WellFormed)
    (hfresh : Fresh readings o disk) (hfresh' : Fresh readings' o disk)
    {report report' : Report} (hrun : (run readings o disk).1 = .ok report)
    (hrun' : (run readings' o disk).1 = .ok report') :
    featuresOf (ledger readings' o disk)
      = featuresOf (ledger readings o disk) := by
  obtain ⟨plan, chapters, hplan, hpass, -, hlog⟩ :=
    passage_of_run hwell hfresh hrun
  obtain ⟨plan', chapters', hplan', hpass', -, hlog'⟩ :=
    passage_of_run hwell hfresh' hrun'
  obtain rfl := Except.ok.inj (hplan.symm.trans hplan')
  rw [hlog, hlog']
  exact featuresOf_passage hpass hpass'

end SoloScenario.Compile
