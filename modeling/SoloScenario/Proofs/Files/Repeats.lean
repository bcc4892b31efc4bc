import SoloScenario.Files.Discovery
import SoloScenario.Proofs.Files.Paths

/-!
# Files that are found again

Of the paths with the same parts only the first is kept (`firstSeen`), so
each is kept once, and all parts are kept that were found
(`mem_parts_firstSeen`).  Paths with the same parts lead to the same
location if they lead anywhere (`locate?_eq_of_parts`), so it does not
matter which of them is kept, unless one of them is too long.
-/

namespace SoloScenario.Files

/-! ## The first of each group -/

/-- What is kept of a list keeps its order. -/
theorem firstSeen_sublist (seen : List (List String)) (ps : List Path) :
    (firstSeen seen ps).Sublist ps := by
  fun_induction firstSeen seen ps with
  | case1 => exact .slnil
  | case2 seen p ps _ ih => exact .cons p ih
  | case3 seen p ps _ ih => exact .cons_cons p ih

/-- **All parts are kept that were found and not seen before.** -/
theorem mem_parts_firstSeen (seen : List (List String)) (ps : List Path)
    (x : List String) : x ∈ (firstSeen seen ps).map Path.parts
      ↔ x ∈ ps.map Path.parts ∧ x ∉ seen := by
  fun_induction firstSeen seen ps with
  | case1 => simp
  | case2 seen p ps hseen ih =>
      rw [ih, List.map_cons, List.mem_cons]
      constructor
      · exact fun h => ⟨.inr h.1, h.2⟩
      · rintro ⟨rfl | h, hnot⟩
        · exact absurd hseen hnot
        · exact ⟨h, hnot⟩
  | case3 seen p ps hseen ih =>
      rw [List.map_cons, List.mem_cons, ih, List.map_cons, List.mem_cons]
      by_cases hx : x = p.parts
      · subst hx
        simpa using hseen
      · simp [hx]

/-- **No two of the paths that are kept have the same parts.** -/
theorem nodup_parts_firstSeen (seen : List (List String))
    (ps : List Path) : ((firstSeen seen ps).map Path.parts).Nodup := by
  fun_induction firstSeen seen ps with
  | case1 => exact List.nodup_nil
  | case2 seen p ps _ ih => exact ih
  | case3 seen p ps _ ih =>
      refine List.nodup_cons.mpr ⟨fun hmem => ?_, ih⟩
      exact ((mem_parts_firstSeen _ ps _).mp hmem).2 List.mem_cons_self

/-- Discovery succeeds if every pattern has its files, and keeps the first of
each. -/
theorem discover_eq_ok {disk : Disk} {patterns : List String}
    {sources : List Path} : discover disk patterns = .ok sources
      ↔ ∃ found, patterns.mapM (filesOf disk) = .ok found
        ∧ sources = firstSeen [] found.flatten := by
  rw [discover]
  cases patterns.mapM (filesOf disk) <;>
    simp [bind, Except.bind, pure, Except.pure, eq_comm]

/-- **No file is discovered twice.** -/
theorem nodup_parts_of_discover {disk : Disk} {patterns : List String}
    {sources : List Path} (h : discover disk patterns = .ok sources) :
    (sources.map Path.parts).Nodup := by
  obtain ⟨found, -, rfl⟩ := discover_eq_ok.mp h
  exact nodup_parts_firstSeen [] _

/-! ## Paths with the same parts -/

namespace Path

/-- A path is one from the root if its first piece is empty. -/
theorem head?_pieces {p : Path} (hp : p ≠ "") :
    (pieces p).head? = some "" ↔ p.toList.head? = some '/' := by
  obtain ⟨c, s, hs⟩ := List.exists_cons_of_ne_nil (toList_ne_nil hp)
  obtain ⟨first, later, hpieces⟩ :=
    List.exists_cons_of_ne_nil (Text.pieces_ne_nil '/' s)
  rw [pieces, hs, Text.pieces, hpieces]
  by_cases hc : c = '/'
  · simp [hc]
  · simp [hc]

/-- The parts of a path are its first piece and all others that mean something.
-/
theorem parts_eq {p : Path} {first : String} {later : List String}
    (h : pieces p = first :: later) :
    p.parts = first :: later.filter fun q => q != "" && q != "." := by
  rw [parts, h]

/-- The first part is the first piece. -/
theorem head?_parts (p : Path) : p.parts.head? = (pieces p).head? := by
  obtain ⟨first, later, h⟩ := List.exists_cons_of_ne_nil (pieces_ne_nil p)
  rw [parts_eq h, h]
  rfl

end Path

namespace Disk

variable {disk : Disk}

/-- Dots and empty names can be left out of a way that leads somewhere. -/
theorem follow?_filter {l l' : Location} {names : List String}
    (h : disk.follow? l names = some l') :
    disk.follow? l (names.filter fun q => q != "" && q != ".")
      = some l' := by
  induction names generalizing l with
  | nil => exact h
  | cons name names ih =>
      have hdir := hasDirectory_of_follow? (List.cons_ne_nil _ _) h
      rw [follow?, if_pos hdir] at h
      rw [List.filter_cons]
      by_cases hdots : name = "" ∨ name = "."
      · have hdropped : (name != "" && name != ".") = false := by
          rcases hdots with rfl | rfl <;> rfl
        rw [if_pos hdots] at h
        rw [hdropped]
        exact ih h
      · have hkept : (name != "" && name != ".") = true := by
          simpa using hdots
        rw [if_neg hdots] at h
        rw [hkept, if_pos rfl, follow?, if_pos hdir, if_neg hdots]
        split at h
        · next hup =>
            rw [if_pos hup]
            exact ih h
        · next hup =>
            rw [if_neg hup]
            exact ih h

/-- What the pieces lead to is what the parts lead to. -/
theorem follow?_parts {l l' : Location} {p : Path}
    (h : disk.follow? l p.pieces = some l') :
    disk.follow? l p.parts = some l' := by
  obtain ⟨first, later, hp⟩ :=
    List.exists_cons_of_ne_nil (Path.pieces_ne_nil p)
  rw [hp, ← List.singleton_append, follow?_append] at h
  obtain ⟨middle, hfirst, hlater⟩ := Option.bind_eq_some_iff.mp h
  rw [Path.parts_eq hp, ← List.singleton_append, follow?_append, hfirst]
  exact follow?_filter hlater

/-- Only a path that can be used leads somewhere. -/
theorem isUsable_of_locate? {p : Path} {l : Location}
    (h : disk.locate? p = some l) : p.isUsable = true := by
  cases huse : p.isUsable with
  | true => rfl
  | false => simp [locate?_eq, huse] at h

/-- **Paths with the same parts lead to the same location,** if they lead
anywhere. -/
theorem locate?_eq_of_parts {p q : Path} {l l' : Location}
    (hparts : p.parts = q.parts) (hp : disk.locate? p = some l)
    (hq : disk.locate? q = some l') : l = l' := by
  have huse := isUsable_of_locate? hp
  have huse' := isUsable_of_locate? hq
  have hpne := (isUsable_iff.mp huse).1
  have hqne := (isUsable_iff.mp huse').1
  have hstart : disk.start p = disk.start q := by
    have hhead := congrArg (·.head? = some "") hparts
    simp only [Path.head?_parts, Path.head?_pieces hpne,
      Path.head?_pieces hqne] at hhead
    simp only [start, hhead]
  have hfollow : disk.follow? (disk.start q) p.pieces = some l := by
    rwa [locate?_eq, if_pos huse, hstart] at hp
  have hfollow' : disk.follow? (disk.start q) q.pieces = some l' := by
    rwa [locate?_eq, if_pos huse'] at hq
  have hl := follow?_parts hfollow
  rw [hparts, follow?_parts hfollow'] at hl
  exact (Option.some.inj hl).symm

end Disk

end SoloScenario.Files
