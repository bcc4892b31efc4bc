import SoloScenario.Files.Discovery
import SoloScenario.Proofs.Files.Writing

/-!
# What a search does not look at

A search asks for names and directories, never for what a file holds.
Disks that are the same but for that (`SameOutline`) have the same places,
so the same files are discovered on them, or the same error
(`SameOutline.discover`).
-/

namespace SoloScenario.Files

namespace Disk

/-- The locations of the nodes, and which of them are directories. -/
def outline (disk : Disk) : List (Location × Bool) :=
  disk.nodes.map fun entry => (entry.1, entry.2.isDirectory)

/-- Disks that are the same but for what their files hold. -/
structure SameOutline (disk disk' : Disk) : Prop where
  home : disk'.workingDirectory = disk.workingDirectory
  outline : disk'.outline = disk.outline

/-- Whether a node is a directory is in the outline. -/
theorem node?_outline (disk : Disk) (l : Location) :
    (disk.node? l).map Node.isDirectory = if l.isEmpty then some true
      else (disk.outline.find? fun entry => entry.1 == l).map Prod.snd := by
  rw [node?]
  split
  · rfl
  · rw [outline, List.find?_map, Option.map_map, Option.map_map]
    rfl

/-- The names in a directory are in the outline. -/
theorem names_outline (disk : Disk) (l : Location) : disk.names l
    = (disk.outline.filterMap fun entry =>
        if entry.1 ≠ [] ∧ entry.1.dropLast = l then entry.1.getLast?
        else none).mergeSort fun a b => decide (a ≤ b) := by
  rw [outline, List.filterMap_map]
  rfl

/-- So is what is below a directory. -/
theorem below_outline (disk : Disk) (l : Location) : disk.below l
    = (disk.outline.filterMap fun entry =>
        if l.isPrefixOf entry.1 ∧ l.length < entry.1.length
        then some (entry.1.drop l.length) else none).mergeSort
      fun a b => decide (@LE.le _ List.instLE a b) := by
  rw [outline, List.filterMap_map]
  rfl

namespace SameOutline

variable {disk disk' : Disk}

/-- At each location both have a directory, or a file, or nothing. -/
theorem node? (h : SameOutline disk disk') (l : Location) :
    (disk'.node? l).map Node.isDirectory
      = (disk.node? l).map Node.isDirectory := by
  rw [node?_outline, node?_outline, h.outline]

/-- If one has something at a location, so has the other. -/
theorem isSome_node? (h : SameOutline disk disk') (l : Location) :
    (disk'.node? l).isSome = (disk.node? l).isSome := by
  have hnode := congrArg Option.isSome (h.node? l)
  simpa using hnode

/-- If one has a directory at a location, so has the other. -/
theorem hasDirectory (h : SameOutline disk disk') (l : Location) :
    disk'.hasDirectory l = disk.hasDirectory l := by
  have hnode := congrArg (Option.any id) (h.node? l)
  simpa [Disk.hasDirectory, Option.any_map] using hnode

/-- Paths lead to the same locations. -/
theorem sameTree (h : SameOutline disk disk') : SameTree disk disk' :=
  ⟨h.home, h.hasDirectory⟩

/-- Directories have the same names in them. -/
theorem names (h : SameOutline disk disk') : disk'.names = disk.names := by
  funext l
  rw [names_outline, names_outline, h.outline]

/-- The same is below them. -/
theorem below (h : SameOutline disk disk') : disk'.below = disk.below := by
  funext l
  rw [below_outline, below_outline, h.outline]

/-- The same paths lead to directories. -/
theorem isDirectory (h : SameOutline disk disk') :
    disk'.isDirectory = disk.isDirectory := by
  funext path
  rw [Disk.isDirectory, Disk.isDirectory, Disk.find?, Disk.find?,
    h.sameTree.locate?]
  cases disk.locate? path with
  | none => rfl
  | some l => exact h.hasDirectory l

end SameOutline

end Disk

/-! ## Searches -/

namespace Disk.SameOutline

variable {disk disk' : Disk}

/-- A place is a directory on both disks or on neither. -/
theorem place_isDirectory (h : SameOutline disk disk') (p : Place) :
    p.isDirectory disk' = p.isDirectory disk := by
  cases p with
  | mk path location =>
      cases location with
      | none => rfl
      | some l => exact h.hasDirectory l

/-- A name leads to the same findings from a place. -/
theorem lookUp (h : SameOutline disk disk') (p : Place) (name : String)
    (path : Path) : p.lookUp disk' name path = p.lookUp disk name path := by
  simp only [Place.lookUp, h.sameTree.follow?]

/-- Entering a place finds the same, if what is found inside is the same. -/
theorem enter (h : SameOutline disk disk') (p : Place)
    {inside inside' : Location → List Finding}
    (hinside : ∀ l, inside' l = inside l) :
    p.enter disk' inside' = p.enter disk inside := by
  have hdirectory : disk'.hasDirectory = disk.hasDirectory :=
    funext h.hasDirectory
  rw [Place.enter, Place.enter, hdirectory, funext hinside]

/-- A component leads to the same findings from a place. -/
theorem reach (h : SameOutline disk disk') (p : Place)
    (component : List Pattern.Token) :
    p.reach disk' component = p.reach disk component := by
  have hchildren : p.fittingChildren disk' component
      = p.fittingChildren disk component :=
    h.enter p fun l => by simp only [h.lookUp, h.names]
  have hthere : ∀ q : Place, q.exists? disk' = q.exists? disk := by
    intro q
    simp only [Place.exists?, h.isSome_node?]
  rw [Place.reach, Place.reach, hchildren]
  simp only [h.lookUp, h.place_isDirectory, hthere]

/-- Going down finds the same, if the same is wanted. -/
theorem descend (h : SameOutline disk disk') (p : Place)
    {wanted wanted' : String → Place → Bool}
    (hwanted : ∀ name q, wanted' name q = wanted name q) :
    p.descend disk' wanted' = p.descend disk wanted := by
  refine h.enter p fun l => ?_
  simp only [h.below, hwanted, h.enter _ fun _ => rfl]

/-- A stage leads to the same findings. -/
theorem follow (h : SameOutline disk disk') (stage : Stage) :
    stage.follow disk' = stage.follow disk := by
  funext f
  cases f with
  | unreadable dir cause => rfl
  | place p =>
      simp only [Stage.follow]
      cases stage with
      | inside component => exact h.reach p component
      | below component => exact h.descend p fun _ _ => rfl
      | directories => exact h.descend p fun _ q => h.place_isDirectory q

/-- **A pattern finds the same on both disks.** -/
theorem expand (h : SameOutline disk disk') (p : Pattern) :
    Files.expand disk' p = Files.expand disk p := by
  have hstart : ∀ path, Place.ofPath disk' path = Place.ofPath disk path := by
    intro path
    rw [Place.ofPath, Place.ofPath, h.sameTree.locate?]
  have hfound : expandFrom disk' = expandFrom disk := by
    funext start ss
    simp only [expandFrom, h.follow]
  have hmay : ∀ f : Finding, f.mayBeDirectory disk'
      = f.mayBeDirectory disk := by
    intro f
    cases f with
    | unreadable dir cause => rfl
    | place p => exact h.place_isDirectory p
  simp only [Files.expand, hstart, hfound, hmay]

/-- **What files hold is nothing to a search.** -/
theorem discover (h : SameOutline disk disk') (patterns : List String) :
    Files.discover disk' patterns = Files.discover disk patterns := by
  have hfiles : filesOf disk' = filesOf disk := by
    funext pattern
    simp only [filesOf, h.expand, h.isDirectory]
  simp only [Files.discover, hfiles]

end Disk.SameOutline

end SoloScenario.Files
