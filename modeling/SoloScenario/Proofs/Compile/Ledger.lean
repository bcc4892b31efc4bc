import SoloScenario.Compile.Run
import SoloScenario.Proofs.Files.Writing

/-!
# What a run writes

The ledger of a run lists the files that it writes, source by source, in
their order.  It is read off the workspaces that the run goes through, so
a run that fails has one as well, up to the failure.

* `disk_run` — a run leaves the disk that it was given with what the
  ledger lists written to it, one after the other, and nothing else;
* `Fresh` — no path of the ledger led to a file before.
-/

namespace SoloScenario.Compile

open Files (Disk Path)

/-- The workspace with other totals. -/
def Workspace.withTotals (w : Workspace) (t : Totals) : Workspace :=
  { w with totals := t }

/-- The totals are those that were given. -/
@[simp] theorem Workspace.totals_withTotals (w : Workspace) (t : Totals) :
    (w.withTotals t).totals = t := rfl

/-- Of totals given twice the later ones stay. -/
@[simp] theorem Workspace.withTotals_withTotals (w : Workspace)
    (t t' : Totals) : (w.withTotals t).withTotals t' = w.withTotals t' :=
  rfl

/-! ## Actions, step by step -/

namespace Action

variable {α β : Type}

/-- What follows an action starts where it has ended, if it has not failed. -/
theorem run_bind (x : Action α) (f : α → Action β) (w : Workspace) :
    (x >>= f).run w = match x.run w with
      | (.error failure, w') => (.error failure, w')
      | (.ok a, w') => (f a).run w' := by
  rw [ExceptT.run_bind]
  change StateT.run (x.run >>= _) w = _
  rw [StateT.run_bind]
  cases hx : x.run w with
  | mk e w' =>
      have hrun : StateT.run x.run w = (e, w') := hx
      rw [hrun]
      cases e <;> rfl

/-- What may fail without an action leaves the workspace alone. -/
theorem run_lift (x : Except Failure α) (w : Workspace) :
    (liftM x : Action α).run w = (x, w) := by
  cases x <;> rfl

/-- Counting changes the totals, and nothing else. -/
theorem run_count (change : Totals → Totals) (w : Workspace) :
    (count change).run w = (.ok (), w.withTotals (change w.totals)) := rfl

/-- The first of several items is dealt with first. -/
theorem run_mapM_cons (f : α → Action β) (x : α) (xs : List α)
    (w : Workspace) : ((x :: xs).mapM f).run w = match (f x).run w with
      | (.error failure, w') => (.error failure, w')
      | (.ok y, w') =>
        match (xs.mapM f).run w' with
        | (.error failure, w'') => (.error failure, w'')
        | (.ok ys, w'') => (.ok (y :: ys), w'') := by
  rw [List.mapM_cons, run_bind]
  cases (f x).run w with
  | mk e w' =>
      cases e with
      | error failure => rfl
      | ok y =>
          simp only [run_bind]
          cases (xs.mapM f).run w' with
          | mk e w'' => cases e <;> rfl

/-- Items in front are dealt with before those behind. -/
theorem run_mapM_append (f : α → Action β) (xs ys : List α)
    (w : Workspace) :
    ((xs ++ ys).mapM f).run w = match (xs.mapM f).run w with
      | (.error failure, w') => (.error failure, w')
      | (.ok zs, w') =>
        match (ys.mapM f).run w' with
        | (.error failure, w'') => (.error failure, w'')
        | (.ok zs', w'') => (.ok (zs ++ zs'), w'') := by
  rw [List.mapM_append, run_bind]
  cases (xs.mapM f).run w with
  | mk e w' =>
      cases e with
      | error failure => rfl
      | ok zs =>
          simp only [run_bind]
          cases (ys.mapM f).run w' with
          | mk e w'' => cases e <;> rfl

end Action

/-! ## The features of a source -/

/-- A file that is written: the feature it is for, and its stamp. -/
structure Entry where
  feature : Feature
  stamp : Int64

namespace Entry

/-- The path of the file. -/
def path (directory : Path) (e : Entry) : Path :=
  Path.join directory (Output.fileName e.feature.name e.stamp)

/-- What is written to the file. -/
def text (e : Entry) : String :=
  e.feature.render

/-- The path with the text. -/
def write (directory : Path) (e : Entry) : Path × String :=
  (e.path directory, e.text)

end Entry

variable (readings : Nat → Int64)

/-- The entry that a feature would have. -/
def nextEntry (w : Workspace) (f : Feature) : Entry :=
  ⟨f, w.clock.stamp (readings w.ticks)⟩

/-- The workspace with one stamp more given out, and with this disk. -/
def stamped (w : Workspace) (disk : Disk) : Workspace :=
  ⟨disk, w.clock.advance (readings w.ticks), w.ticks + 1, w.totals⟩


/-- A feature is stamped whether or not it can be written. -/
theorem run_writeFeature (directory : Path) (f : Feature) (w : Workspace) :
    (writeFeature readings directory f).run w
      = match w.disk.write ((nextEntry readings w f).path directory)
          (nextEntry readings w f).text with
        | .error cause =>
          (.error (.unwritable ((nextEntry readings w f).path directory)
            cause), stamped readings w w.disk)
        | .ok disk => (.ok ((nextEntry readings w f).path directory),
            stamped readings w disk) := by
  have hget : (get : Action Workspace).run w = (.ok w, w) := rfl
  have hpath : Path.join directory
      (Output.fileName f.name (w.clock.stamp (readings w.ticks)))
      = (nextEntry readings w f).path directory := rfl
  have htext : f.render = (nextEntry readings w f).text := rfl
  rw [writeFeature, Action.run_bind, hget]
  dsimp only
  rw [hpath, htext]
  cases w.disk.write ((nextEntry readings w f).path directory)
    (nextEntry readings w f).text <;> rfl

/-- A file is counted when it has been written. -/
theorem run_writeKept (directory : Path) (f : Feature) (w : Workspace) :
    (writeKept readings directory f).run w
      = match w.disk.write ((nextEntry readings w f).path directory)
          (nextEntry readings w f).text with
        | .error cause =>
          (.error (.unwritable ((nextEntry readings w f).path directory)
            cause), stamped readings w w.disk)
        | .ok disk => (.ok ((nextEntry readings w f).path directory),
            (stamped readings w disk).withTotals w.totals.addWritten) := by
  rw [writeKept, Action.run_bind, run_writeFeature]
  cases w.disk.write ((nextEntry readings w f).path directory)
    (nextEntry readings w f).text <;> rfl

/-- The entries that are written for features, up to the first failure. -/
def featureLog (directory : Path) : Workspace → List Feature → List Entry
  | _, [] => []
  | w, f :: fs =>
    match (writeKept readings directory f).run w with
    | (.error _, _) => []
    | (.ok _, w') => nextEntry readings w f :: featureLog directory w' fs

/-- No entry is written for no feature. -/
theorem featureLog_nil (directory : Path) (w : Workspace) :
    featureLog readings directory w [] = [] := rfl

/-- The first feature has the first entry, if it can be written. -/
theorem featureLog_cons (directory : Path) (w : Workspace) (f : Feature)
    (fs : List Feature) : featureLog readings directory w (f :: fs)
      = match (writeKept readings directory f).run w with
        | (.error _, _) => []
        | (.ok _, w') => nextEntry readings w f
            :: featureLog readings directory w' fs := by rfl

/-- What has been counted has no influence on what is written. -/
theorem featureLog_withTotals (directory : Path) (w : Workspace)
    (t : Totals) (fs : List Feature) :
    featureLog readings directory (w.withTotals t) fs
      = featureLog readings directory w fs := by
  induction fs generalizing w t with
  | nil => rfl
  | cons f fs ih =>
      have hentry : nextEntry readings (w.withTotals t) f
          = nextEntry readings w f := rfl
      have hdisk : (w.withTotals t).disk = w.disk := rfl
      have hstamped : ∀ disk, stamped readings (w.withTotals t) disk
          = (stamped readings w disk).withTotals t := fun _ => rfl
      rw [featureLog_cons, featureLog_cons, run_writeKept, run_writeKept,
        hentry, hdisk]
      cases w.disk.write ((nextEntry readings w f).path directory)
        (nextEntry readings w f).text with
      | error cause => rfl
      | ok disk =>
          dsimp only
          rw [hstamped, ih, ih, ih]

/-- The disk behind several features is the one with their entries written
to it. -/
theorem writeAll_featureLog (directory : Path) (w : Workspace)
    (fs : List Feature) :
    w.disk.writeAll ((featureLog readings directory w fs).map
        (Entry.write directory))
      = .ok ((fs.mapM (writeKept readings directory)).run w).2.disk := by
  induction fs generalizing w with
  | nil => rfl
  | cons f fs ih =>
      rw [featureLog_cons, Action.run_mapM_cons,
        run_writeKept readings directory f w]
      cases hw : w.disk.write ((nextEntry readings w f).path directory)
        (nextEntry readings w f).text with
      | error cause => rfl
      | ok disk =>
          have hrest := ih
            ((stamped readings w disk).withTotals w.totals.addWritten)
          dsimp only
          rw [List.map_cons, Entry.write, Disk.writeAll_cons, hw]
          refine hrest.trans ?_
          cases (fs.mapM (writeKept readings directory)).run
            ((stamped readings w disk).withTotals w.totals.addWritten) with
          | mk e w' => cases e <;> rfl

/-! ## The sources -/

variable (o : Options)

/-- The parts of a source as a disk has it, or why there are none. -/
def partsOf (dialect : Dialect) (disk : Disk) (path : Path) :
    Except Failure (List Feature) :=
  match disk.read path with
  | .error cause => .error (.unreadable path cause)
  | .ok text => (parse dialect path text).map fun f =>
    f.split o.expandOutlines

/-- The parts of a source that are kept. -/
def keptOf (plan : Plan) (disk : Disk) (path : Path) : List Feature :=
  match partsOf o plan.dialect disk path with
  | .error _ => []
  | .ok all => plan.filter.select all

/-- A source is read and split, which is counted, then what is kept is
written. -/
theorem run_compileSource (plan : Plan) (path : Path) (w : Workspace) :
    (compileSource readings o plan path).run w
      = match partsOf o plan.dialect w.disk path with
        | .error failure => (.error failure, w)
        | .ok all =>
          match ((plan.filter.select all).mapM
              (writeKept readings o.outputDirectory)).run (w.withTotals
                (w.totals.addParsed.addGenerated all.length)) with
          | (.error failure, w') => (.error failure, w')
          | (.ok written, w') => (.ok ⟨path, written⟩, w') := by
  have hget : (get : Action Workspace).run w = (.ok w, w) := rfl
  rw [compileSource, Action.run_bind, hget, partsOf]
  dsimp only
  cases w.disk.read path with
  | error cause => rfl
  | ok text =>
      dsimp only
      rw [Action.run_bind, Action.run_lift]
      cases parse plan.dialect path text with
      | error failure => rfl
      | ok f =>
          simp only [Except.map, Action.run_bind, Action.run_count,
            Workspace.totals_withTotals, Workspace.withTotals_withTotals]
          cases ((plan.filter.select (f.split o.expandOutlines)).mapM
              (writeKept readings o.outputDirectory)).run (w.withTotals
                (w.totals.addParsed.addGenerated
                  (f.split o.expandOutlines).length)) with
          | mk e w' => cases e <;> rfl

/-- The entries that are written for sources, up to the first failure. -/
def sourceLog (plan : Plan) :
    Workspace → List Path → List (Path × List Entry)
  | _, [] => []
  | w, path :: paths =>
    (path, featureLog readings o.outputDirectory w
        (keptOf o plan w.disk path))
      :: match (compileSource readings o plan path).run w with
        | (.error _, _) => []
        | (.ok _, w') => sourceLog plan w' paths

/-- No source has no entries. -/
theorem sourceLog_nil (plan : Plan) (w : Workspace) :
    sourceLog readings o plan w [] = [] := rfl

/-- The first source has the first entries, and the sources behind it are only
reached if it does not fail. -/
theorem sourceLog_cons (plan : Plan) (w : Workspace) (path : Path)
    (paths : List Path) : sourceLog readings o plan w (path :: paths)
      = (path, featureLog readings o.outputDirectory w
          (keptOf o plan w.disk path))
        :: match (compileSource readings o plan path).run w with
          | (.error _, _) => []
          | (.ok _, w') => sourceLog readings o plan w' paths := rfl

/-- What the entries of several sources write. -/
def writesOf (directory : Path) (items : List (Path × List Entry)) :
    List (Path × String) :=
  (items.flatMap Prod.snd).map (Entry.write directory)

/-- The disk behind a source is the one with its entries written to it. -/
theorem writeAll_compileSource (plan : Plan) (w : Workspace) (path : Path) :
    w.disk.writeAll ((featureLog readings o.outputDirectory w
        (keptOf o plan w.disk path)).map (Entry.write o.outputDirectory))
      = .ok ((compileSource readings o plan path).run w).2.disk := by
  rw [run_compileSource, keptOf]
  cases partsOf o plan.dialect w.disk path with
  | error failure => rfl
  | ok all =>
      dsimp only
      rw [← featureLog_withTotals readings _ w
        (w.totals.addParsed.addGenerated all.length)]
      refine (writeAll_featureLog readings o.outputDirectory
        (w.withTotals (w.totals.addParsed.addGenerated all.length))
        (plan.filter.select all)).trans ?_
      cases ((plan.filter.select all).mapM
          (writeKept readings o.outputDirectory)).run (w.withTotals
            (w.totals.addParsed.addGenerated all.length)) with
      | mk e w' => cases e <;> rfl

/-- The disk behind several sources is the one with their entries written to
it. -/
theorem writeAll_sourceLog (plan : Plan) (w : Workspace)
    (paths : List Path) :
    w.disk.writeAll (writesOf o.outputDirectory
        (sourceLog readings o plan w paths))
      = .ok ((paths.mapM (compileSource readings o plan)).run w).2.disk := by
  induction paths generalizing w with
  | nil => rfl
  | cons path paths ih =>
      have hfirst := writeAll_compileSource readings o plan w path
      rw [sourceLog_cons, Action.run_mapM_cons, writesOf, List.flatMap_cons,
        List.map_append, Disk.writeAll_append, hfirst]
      cases (compileSource readings o plan path).run w with
      | mk e w' =>
          cases e with
          | error failure => rfl
          | ok report =>
              refine (ih w').trans ?_
              dsimp only
              cases (paths.mapM (compileSource readings o plan)).run w' with
              | mk e w'' => cases e <;> rfl

/-! ## The whole run -/

/-- The workspace that a run starts in. -/
def Workspace.init (disk : Disk) : Workspace :=
  ⟨disk, .new, 0, {}⟩

/-- The sources of a run, taken one after the other from a disk. -/
def takeSources (plan : Plan) (disk : Disk) (paths : List Path) :
    Except Failure (List SourceReport) × Workspace :=
  (paths.mapM (compileSource readings o plan)).run (.init disk)

/-- A run is prepared first, then its sources are taken. -/
theorem compile_eq (disk : Disk) :
    (compile readings o).run (.init disk) = match prepare disk o with
      | .error failure => (.error failure, .init disk)
      | .ok plan =>
        match takeSources readings o plan disk plan.sources with
        | (.error failure, w) => (.error failure, w)
        | (.ok sources, w) => (.ok ⟨w.totals, sources⟩, w) := by
  have hget : (get : Action Workspace).run (.init disk)
    = (.ok (.init disk), .init disk) := rfl
  rw [compile, Action.run_bind, hget]
  dsimp only
  rw [Action.run_bind, Action.run_lift]
  have hdisk : (Workspace.init disk).disk = disk := rfl
  rw [hdisk]
  cases prepare disk o with
  | error failure => rfl
  | ok plan =>
      dsimp only
      rw [Action.run_bind, takeSources]
      cases (plan.sources.mapM (compileSource readings o plan)).run
        (.init disk) with
      | mk e w => cases e <;> rfl

/-- A run ends as taking its sources does, with the totals that this leaves. -/
theorem run_eq (disk : Disk) : run readings o disk
    = match prepare disk o with
      | .error failure => (.error failure, disk)
      | .ok plan =>
        match takeSources readings o plan disk plan.sources with
        | (.error failure, w) => (.error failure, w.disk)
        | (.ok sources, w) => (.ok ⟨w.totals, sources⟩, w.disk) := by
  change (((compile readings o).run (.init disk)).1,
    ((compile readings o).run (.init disk)).2.disk) = _
  rw [compile_eq]
  cases prepare disk o with
  | error failure => rfl
  | ok plan =>
      dsimp only
      cases takeSources readings o plan disk plan.sources with
      | mk e w => cases e <;> rfl

/-- How many stamps a run gives out, one for each file that it tries to
write. -/
def stampsTaken (disk : Disk) : Nat :=
  ((compile readings o).run (.init disk)).2.ticks

/-- The stamps of a run are those of its sources. -/
theorem stampsTaken_eq {disk : Disk} {plan : Plan}
    (hplan : prepare disk o = .ok plan) : stampsTaken readings o disk
      = (takeSources readings o plan disk plan.sources).2.ticks := by
  rw [stampsTaken, compile_eq, hplan]
  dsimp only
  cases takeSources readings o plan disk plan.sources with
  | mk e w => cases e <;> rfl

/-- The files that a run writes: for each source it takes up, the entries
of that source. -/
def ledger (disk : Disk) : List (Path × List Entry) :=
  match prepare disk o with
  | .error _ => []
  | .ok plan => sourceLog readings o plan (.init disk) plan.sources

/-- **A run leaves the disk with what its ledger lists written to it.** -/
theorem disk_run (disk : Disk) :
    disk.writeAll (writesOf o.outputDirectory (ledger readings o disk))
      = .ok (run readings o disk).2 := by
  rw [run_eq, ledger]
  cases prepare disk o with
  | error failure => rfl
  | ok plan =>
      refine (writeAll_sourceLog readings o plan (.init disk) _).trans ?_
      dsimp only
      rw [takeSources]
      cases (plan.sources.mapM (compileSource readings o plan)).run
        (.init disk) with
      | mk e w => cases e <;> rfl

/-- No path that is written led to a file before. -/
def Fresh (disk : Disk) : Prop :=
  ∀ item ∈ ledger readings o disk, ∀ e ∈ item.2,
    disk.isFile (e.path o.outputDirectory) = false

variable {readings o}

/-- **Whatever becomes of the run, the disk before it is kept.** -/
theorem Fresh.keeps {disk : Disk} (h : Fresh readings o disk) :
    Disk.Keeps disk (run readings o disk).2 := by
  refine (Disk.Keeps.refl disk).writeAll (fun v hv => ?_)
    (disk_run readings o disk)
  obtain ⟨e, he, rfl⟩ := List.mem_map.mp hv
  obtain ⟨item, hitem, he⟩ := List.mem_flatMap.mp he
  exact h item hitem e he

end SoloScenario.Compile
