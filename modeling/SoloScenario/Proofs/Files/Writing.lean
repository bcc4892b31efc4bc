import SoloScenario.Proofs.Files.Paths

/-!
# What a write leaves as it was

Files are written, but directories never change, so a path leads to the
same location all the time (`SameTree`).  As long as nothing is written to
a path that leads to a file of an earlier disk, that disk is kept as a
whole (`Keeps`): its files can be read as before, and a write fails where
it failed then, for the same cause.

* `Keeps.write`, `Keeps.writeAll` — writes to where there was no file keep
  the disk;
* `Keeps.read`, `SameTree.writeFault?` — what reading and writing come to;
* `read_writeAll`, `created_writeAll` — several writes to different
  locations.
-/

namespace SoloScenario.Files

namespace Disk

/-- Whether a path leads to a file. -/
def isFile (disk : Disk) (path : Path) : Bool :=
  (disk.find? path).any fun node => !node.isDirectory

/-! ## Nodes -/

/-- The node that is set is found first. -/
theorem find?_setNode (l : Location) (n : Node)
    (nodes : List (Location × Node)) (l' : Location) :
    (setNode l n nodes).find? (fun entry => entry.1 == l')
      = if l = l' then some (l, n)
        else nodes.find? fun entry => entry.1 == l' := by
  induction nodes with
  | nil =>
      rw [setNode, List.find?_singleton]
      simp
  | cons entry rest ih =>
      obtain ⟨k, m⟩ := entry
      rw [setNode, List.find?_cons]
      by_cases hk : k = l
      · subst hk
        rw [if_pos rfl, List.find?_cons]
        by_cases hl : k = l'
        · simp [hl]
        · have hne : (k == l') = false := by simpa using hl
          simp [hl, hne]
      · rw [if_neg hk, List.find?_cons, ih]
        by_cases hl : l = l'
        · have hne : (k == l') = false := by simpa [← hl] using hk
          simp [hl, hne]
        · simp [hl]

/-- The disk with a node at a location. -/
def set (disk : Disk) (l : Location) (n : Node) : Disk :=
  { disk with nodes := setNode l n disk.nodes }

/-- The root is a directory. -/
theorem node?_root (disk : Disk) : disk.node? [] = some .directory := rfl

/-- A node that is set is there, and all others stay. -/
theorem node?_set {disk : Disk} {l : Location} (hl : l ≠ []) (n : Node)
    (l' : Location) : (disk.set l n).node? l'
      = if l = l' then some n else disk.node? l' := by
  by_cases hroot : l' = []
  · rw [hroot, node?_root, node?_root, if_neg hl]
  · have hempty : l'.isEmpty = false := by simpa using hroot
    simp only [node?, hempty, set, find?_setNode, Bool.false_eq_true,
      if_false]
    split <;> rfl

/-! ## One write -/

/-- What is known of a write that succeeds. -/
theorem write_eq_ok {disk disk' : Disk} {path : Path} {text : String}
    (h : disk.write path text = .ok disk') :
    path.isTooLong = false ∧ ∃ l, disk.locate? path = some l
      ∧ disk.hasDirectory l = false
      ∧ disk' = disk.set l (.file text.toUTF8) := by
  rw [write] at h
  split at h
  · exact absurd h (by simp)
  · split at h
    · exact absurd h (by simp)
    · next hlong =>
        refine ⟨by simpa using hlong, ?_⟩
        split at h
        · exact absurd h (by simp)
        · next l hl =>
            split at h
            · exact absurd h (by simp)
            · split at h
              · exact absurd h (by simp)
              · next hdir =>
                  exact ⟨l, hl, by simpa using hdir,
                    (Except.ok.inj h).symm⟩

/-- Why nothing can be written to a path, if nothing can. -/
def writeFault? (disk : Disk) (path : Path) : Option WriteError :=
  if '\x00' ∈ path.toList then some .nullInName
  else if path.isTooLong then some .tooLong
  else
    match disk.locate? path with
    | none => some .noDirectory
    | some l =>
      if nameLimit < (l.getLast?.getD "").utf8ByteSize then some .tooLong
      else if disk.hasDirectory l then some .isDirectory
      else none

/-- Whether a write succeeds does not depend on the text. -/
theorem write_eq (disk : Disk) (path : Path) (text : String) :
    (∀ cause, disk.writeFault? path = some cause →
      disk.write path text = .error cause)
    ∧ (disk.writeFault? path = none →
      ∃ disk', disk.write path text = .ok disk') := by
  rw [writeFault?, write]
  split
  · simp
  · split
    · simp
    · cases disk.locate? path with
      | none => simp
      | some l =>
          dsimp only
          split
          · simp
          · split <;> simp

/-! ## The same directories -/

/-- A disk has the directories of another one. -/
structure SameTree (before after : Disk) : Prop where
  home : after.workingDirectory = before.workingDirectory
  directories : ∀ l, after.hasDirectory l = before.hasDirectory l

namespace SameTree

variable {before middle after : Disk}

/-- A tree is the same as itself. -/
theorem refl (disk : Disk) : SameTree disk disk :=
  ⟨rfl, fun _ => rfl⟩

/-- Sameness of trees can be passed on. -/
theorem trans (h : SameTree before middle) (h' : SameTree middle after) :
    SameTree before after :=
  ⟨h'.home.trans h.home, fun l => (h'.directories l).trans (h.directories l)⟩

/-- The same names lead to the same location. -/
theorem follow? (h : SameTree before after) (l : Location)
    (names : List String) :
    after.follow? l names = before.follow? l names := by
  induction names generalizing l with
  | nil => rfl
  | cons name names ih => simp only [Disk.follow?, h.directories, ih]

/-- A path leads where it led. -/
theorem locate? (h : SameTree before after) (path : Path) :
    after.locate? path = before.locate? path := by
  simp only [Disk.locate?, h.home, h.follow?]

/-- A write fails where it failed. -/
theorem writeFault? (h : SameTree before after) (path : Path) :
    after.writeFault? path = before.writeFault? path := by
  simp only [Disk.writeFault?, h.locate?, h.directories]

end SameTree

/-- A location that a write can lead to is not the root. -/
theorem ne_root_of_not_directory {disk : Disk} {l : Location}
    (h : disk.hasDirectory l = false) : l ≠ [] := by
  rintro rfl
  exact absurd h (by simp [hasDirectory, node?_root, Node.isDirectory])

/-- Setting a file changes no directory. -/
theorem sameTree_set {disk : Disk} {l : Location} {n : Node}
    (h : disk.hasDirectory l = false) (hn : n.isDirectory = false) :
    SameTree disk (disk.set l n) where
  home := rfl
  directories l' := by
    rw [hasDirectory, node?_set (ne_root_of_not_directory h)]
    split
    · next heq =>
        rw [← heq, h]
        exact hn
    · rfl

/-- **Directories never change.** -/
theorem sameTree_write {disk disk' : Disk} {path : Path} {text : String}
    (h : disk.write path text = .ok disk') : SameTree disk disk' := by
  obtain ⟨-, l, -, hdir, rfl⟩ := write_eq_ok h
  exact sameTree_set hdir rfl

/-- A path leads to a file if there is one at its location. -/
theorem isFile_iff {disk : Disk} {path : Path} : disk.isFile path = true
    ↔ ∃ l content, disk.locate? path = some l
      ∧ disk.node? l = some (.file content) := by
  rw [isFile, find?]
  cases hl : disk.locate? path with
  | none => simp
  | some l =>
      cases hn : disk.node? l with
      | none => simp [hn]
      | some n => cases n <;> simp [hn, Node.isDirectory]

/-- Where there is neither a directory nor a file there is nothing. -/
theorem node?_eq_none {disk : Disk} {path : Path} {l : Location}
    (hl : disk.locate? path = some l) (hdir : disk.hasDirectory l = false)
    (hfresh : disk.isFile path = false) : disk.node? l = none := by
  cases hn : disk.node? l with
  | none => rfl
  | some n =>
      cases n with
      | directory => simp [hasDirectory, hn, Node.isDirectory] at hdir
      | file content =>
          have hfile := isFile_iff.mpr ⟨l, content, hl, hn⟩
          exact absurd hfile (by simp [hfresh])

/-! ## A disk that is kept -/

/-- A disk is kept by another one: that has the same directories, and has
its files with what they held. -/
structure Keeps (before after : Disk) : Prop extends
    SameTree before after where
  nodes : ∀ l n, before.node? l = some n → after.node? l = some n

namespace Keeps

variable {before middle after : Disk}

/-- A disk keeps itself. -/
theorem refl (disk : Disk) : Keeps disk disk :=
  ⟨SameTree.refl disk, fun _ _ h => h⟩

/-- What is kept can be kept again. -/
theorem trans (h : Keeps before middle) (h' : Keeps middle after) :
    Keeps before after :=
  ⟨h.toSameTree.trans h'.toSameTree,
    fun l n hn => h'.nodes l n (h.nodes l n hn)⟩

/-- A file is read as before. -/
theorem read (h : Keeps before after) {path : Path}
    (hfile : before.isFile path = true ∨ path.isTooLong = true) :
    after.read path = before.read path := by
  rcases hfile with hfile | hlong
  · obtain ⟨l, content, hl, hn⟩ := isFile_iff.mp hfile
    have hn' := h.nodes l _ hn
    simp [Disk.read, Disk.find?, h.locate?, hl, hn, hn']
  · simp [Disk.read, hlong]

/-- **A write to a path that led to no file keeps the disk.** -/
theorem write (h : Keeps before middle) {path : Path} {text : String}
    (hfresh : before.isFile path = false)
    (hwrite : middle.write path text = .ok after) : Keeps before after := by
  refine ⟨h.toSameTree.trans (sameTree_write hwrite), fun l n hn => ?_⟩
  obtain ⟨-, l', hl', hdir, rfl⟩ := write_eq_ok hwrite
  have hnone : before.node? l' = none :=
    node?_eq_none ((h.locate? path).symm.trans hl')
      ((h.directories l').symm.trans hdir) hfresh
  rw [node?_set (ne_root_of_not_directory hdir)]
  split
  · next heq =>
      rw [← heq, hnone] at hn
      exact absurd hn (by simp)
  · exact h.nodes l n hn

end Keeps

/-! ## Several writes -/

/-- The disk after several writes, one after the other. -/
def writeAll (disk : Disk) (writes : List (Path × String)) :
    Except WriteError Disk :=
  writes.foldlM (fun disk (path, text) => disk.write path text) disk

/-- The first write comes first. -/
theorem writeAll_cons (disk : Disk) (path : Path) (text : String)
    (writes : List (Path × String)) :
    disk.writeAll ((path, text) :: writes)
      = (disk.write path text).bind (·.writeAll writes) := by
  rw [writeAll, List.foldlM_cons]
  rfl

/-- Writes in front are done before those behind. -/
theorem writeAll_append (disk : Disk) (xs ys : List (Path × String)) :
    disk.writeAll (xs ++ ys)
      = (disk.writeAll xs).bind (·.writeAll ys) := by
  rw [writeAll, List.foldlM_append]
  rfl

/-- Writes succeed if the first does and the others do on what it leaves. -/
theorem writeAll_cons_eq_ok {disk disk' : Disk} {path : Path}
    {text : String} {writes : List (Path × String)}
    (h : disk.writeAll ((path, text) :: writes) = .ok disk') :
    ∃ middle, disk.write path text = .ok middle
      ∧ middle.writeAll writes = .ok disk' := by
  rw [writeAll_cons] at h
  cases hw : disk.write path text with
  | error cause => simp [hw, Except.bind] at h
  | ok middle => exact ⟨middle, rfl, by simpa [hw, Except.bind] using h⟩

/-- Writing changes no directory. -/
theorem sameTree_writeAll {disk disk' : Disk}
    {writes : List (Path × String)} (h : disk.writeAll writes = .ok disk') :
    SameTree disk disk' := by
  induction writes generalizing disk with
  | nil =>
      obtain rfl : disk = disk' := Except.ok.inj h
      exact .refl disk
  | cons w writes ih =>
      obtain ⟨path, text⟩ := w
      obtain ⟨middle, hw, hrest⟩ := writeAll_cons_eq_ok h
      exact (sameTree_write hw).trans (ih hrest)

/-- **Writes to paths that led to no file keep the disk.** -/
theorem Keeps.writeAll {before middle after : Disk}
    (h : Keeps before middle) {writes : List (Path × String)}
    (hfresh : ∀ w ∈ writes, before.isFile w.1 = false)
    (hwrite : middle.writeAll writes = .ok after) : Keeps before after := by
  induction writes generalizing middle with
  | nil =>
      obtain rfl : middle = after := Except.ok.inj hwrite
      exact h
  | cons w writes ih =>
      obtain ⟨path, text⟩ := w
      obtain ⟨next, hw, hrest⟩ := writeAll_cons_eq_ok hwrite
      exact ih (h.write (hfresh _ List.mem_cons_self) hw)
        (fun v hv => hfresh v (List.mem_cons_of_mem _ hv)) hrest

/-- Nodes that no write leads to stay as they are. -/
theorem node?_writeAll {disk disk' : Disk} {writes : List (Path × String)}
    (h : disk.writeAll writes = .ok disk') {l : Location}
    (hl : ∀ w ∈ writes, disk.locate? w.1 ≠ some l) :
    disk'.node? l = disk.node? l := by
  induction writes generalizing disk with
  | nil =>
      obtain rfl : disk = disk' := Except.ok.inj h
      rfl
  | cons w writes ih =>
      obtain ⟨path, text⟩ := w
      obtain ⟨middle, hw, hrest⟩ := writeAll_cons_eq_ok h
      have htree := sameTree_write hw
      obtain ⟨-, l', hl', hdir, rfl⟩ := write_eq_ok hw
      have hne : l' ≠ l := by
        rintro rfl
        exact hl _ List.mem_cons_self hl'
      rw [ih hrest fun w hw => by
          rw [htree.locate?]
          exact hl w (List.mem_cons_of_mem _ hw),
        node?_set (ne_root_of_not_directory hdir), if_neg hne]

/-- Text that is encoded is decoded again. -/
theorem fromUTF8?_toUTF8 (text : String) :
    String.fromUTF8? text.toUTF8 = some text := by
  have hvalid : text.toUTF8.IsValidUTF8 := text.isValidUTF8
  rw [String.fromUTF8?, dif_pos hvalid]
  rfl

/-- A file that was written is read as it was written. -/
theorem read_of_node? {disk : Disk} {path : Path} {l : Location}
    {text : String} (hlong : path.isTooLong = false)
    (hl : disk.locate? path = some l)
    (hn : disk.node? l = some (.file text.toUTF8)) :
    disk.read path = .ok text := by
  have hfind : disk.find? path = some (.file text.toUTF8) := by
    rw [find?, hl]
    exact hn
  rw [read, if_neg (by simp [hlong]), hfind]
  simp only [fromUTF8?_toUTF8]

/-- **Writes to different locations can all be read.** -/
theorem read_writeAll {disk disk' : Disk} {writes : List (Path × String)}
    (h : disk.writeAll writes = .ok disk')
    (hdistinct : writes.Pairwise fun a b =>
      disk.locate? a.1 ≠ disk.locate? b.1) :
    ∀ w ∈ writes, disk'.read w.1 = .ok w.2 := by
  induction writes generalizing disk with
  | nil => simp
  | cons w writes ih =>
      obtain ⟨path, text⟩ := w
      obtain ⟨middle, hw, hrest⟩ := writeAll_cons_eq_ok h
      obtain ⟨hfirst, hothers⟩ := List.pairwise_cons.mp hdistinct
      have htree := sameTree_write hw
      have hall := ih hrest (hothers.imp fun {a b} hne => by
        rw [htree.locate?, htree.locate?]
        exact hne)
      intro v hv
      rcases List.mem_cons.mp hv with rfl | hv
      · obtain ⟨hlong, l, hl, hdir, rfl⟩ := write_eq_ok hw
        -- No later write leads to where the first one did.
        have hkept := node?_writeAll hrest (l := l) fun w hw => by
          rw [htree.locate?, ← hl]
          exact (hfirst w hw).symm
        rw [node?_set (ne_root_of_not_directory hdir), if_pos rfl] at hkept
        refine read_of_node? hlong ?_ hkept
        rw [(sameTree_writeAll hrest).locate?, htree.locate?, hl]
      · exact hall v hv

/-- Writes lead to locations that are no directories. -/
theorem located_of_writeAll {disk disk' : Disk}
    {writes : List (Path × String)} (h : disk.writeAll writes = .ok disk') :
    ∀ w ∈ writes, ∃ l, disk.locate? w.1 = some l
      ∧ disk.hasDirectory l = false := by
  induction writes generalizing disk with
  | nil => simp
  | cons w writes ih =>
      obtain ⟨path, text⟩ := w
      obtain ⟨middle, hw, hrest⟩ := writeAll_cons_eq_ok h
      have htree := sameTree_write hw
      obtain ⟨-, l, hl, hdir, -⟩ := write_eq_ok hw
      intro v hv
      rcases List.mem_cons.mp hv with rfl | hv
      · exact ⟨l, hl, hdir⟩
      · obtain ⟨l', hl', hdir'⟩ := ih hrest v hv
        rw [htree.locate?] at hl'
        rw [htree.directories] at hdir'
        exact ⟨l', hl', hdir'⟩

/-- What is a file stays one, and what is written becomes one. -/
theorem isFile_write {disk disk' : Disk} {path p : Path} {text : String}
    (h : disk.write path text = .ok disk')
    (hp : p = path ∨ disk.isFile p = true) : disk'.isFile p = true := by
  have htree := sameTree_write h
  obtain ⟨-, l, hl, hdir, rfl⟩ := write_eq_ok h
  have hroot := ne_root_of_not_directory hdir
  rcases hp with rfl | hp
  · refine isFile_iff.mpr
      ⟨l, text.toUTF8, (htree.locate? p).trans hl, ?_⟩
    rw [node?_set hroot, if_pos rfl]
  · obtain ⟨l', content, hl', hn⟩ := isFile_iff.mp hp
    have hl'' := (htree.locate? p).trans hl'
    by_cases heq : l = l'
    · refine isFile_iff.mpr ⟨l', text.toUTF8, hl'', ?_⟩
      rw [node?_set hroot, if_pos heq]
    · refine isFile_iff.mpr ⟨l', content, hl'', ?_⟩
      rw [node?_set hroot, if_neg heq, hn]

/-- **Every path that is written to leads to a file in the end.** -/
theorem isFile_writeAll {disk disk' : Disk} {writes : List (Path × String)}
    (h : disk.writeAll writes = .ok disk') {p : Path}
    (hp : p ∈ writes.map Prod.fst ∨ disk.isFile p = true) :
    disk'.isFile p = true := by
  induction writes generalizing disk with
  | nil =>
      obtain rfl : disk = disk' := Except.ok.inj h
      simpa using hp
  | cons w writes ih =>
      obtain ⟨path, text⟩ := w
      obtain ⟨middle, hw, hrest⟩ := writeAll_cons_eq_ok h
      refine ih hrest ?_
      rcases hp with hp | hp
      · rcases List.mem_cons.mp hp with rfl | hp
        · exact .inr (isFile_write hw (.inl rfl))
        · exact .inl hp
      · exact .inr (isFile_write hw (.inr hp))

/-- Where each item has an answer, the answers are a list of their own. -/
theorem map_eq_map_some {α β : Type} {f : α → Option β} {xs : List α}
    (h : ∀ x ∈ xs, ∃ y, f x = some y) :
    xs.map f = (xs.filterMap f).map some := by
  induction xs with
  | nil => rfl
  | cons x xs ih =>
      obtain ⟨y, hy⟩ := h x List.mem_cons_self
      rw [List.map_cons, List.filterMap_cons_some hy, List.map_cons, hy,
        ih fun z hz => h z (List.mem_cons_of_mem _ hz)]

/-- **Writes to different locations where there was no file create that
many files,** at the locations that their paths lead to, and change nothing
else. -/
theorem created_writeAll {disk disk' : Disk}
    {writes : List (Path × String)}
    (h : disk.writeAll writes = .ok disk')
    (hfresh : ∀ w ∈ writes, disk.isFile w.1 = false)
    (hdistinct : writes.Pairwise fun a b =>
      disk.locate? a.1 ≠ disk.locate? b.1) :
    ∃ created : List Location, created.Nodup
      ∧ (writes.map fun w => disk.locate? w.1) = created.map some
      ∧ (∀ l ∈ created, disk.node? l = none)
      ∧ ∀ l, l ∉ created → disk'.node? l = disk.node? l := by
  have hlocated := located_of_writeAll h
  let created := writes.filterMap fun w => disk.locate? w.1
  have hmap : (writes.map fun w => disk.locate? w.1) = created.map some :=
    map_eq_map_some fun w hw => (hlocated w hw).imp fun _ hl => hl.1
  refine ⟨created, ?_, hmap, ?_, fun l hl => ?_⟩
  · have hpair := List.pairwise_map.mpr hdistinct
    rw [hmap, List.pairwise_map] at hpair
    exact hpair.imp fun hne heq => hne (congrArg some heq)
  · intro l hl
    obtain ⟨w, hw, hlw⟩ := List.mem_filterMap.mp hl
    obtain ⟨l', hl', hdir⟩ := hlocated w hw
    obtain rfl : l' = l := Option.some.inj (hl'.symm.trans hlw)
    exact node?_eq_none hlw hdir (hfresh w hw)
  · refine node?_writeAll h fun w hw hlw => hl ?_
    exact List.mem_filterMap.mpr ⟨w, hw, hlw⟩

end Disk

end SoloScenario.Files
