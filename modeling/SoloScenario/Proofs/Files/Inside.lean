import SoloScenario.Proofs.Files.Repeats

/-!
# Names inside a directory

A name that is put behind the path of a directory is one part more
(`Path.parts_join`), and where the path leads, it leads to that name in
the directory itself (`Disk.locate?_inside`).  The empty path names no
directory; a name behind it is one in the directory one stands in
(`Disk.base?`).
-/

namespace SoloScenario.Files

namespace Path

/-- Behind a slash come the pieces that count. -/
theorem parts_append_slash (p t : Path) : (p ++ "/" ++ t).parts
    = p.parts ++ t.pieces.filter fun q => q != "" && q != "." := by
  obtain ⟨first, later, hp⟩ := List.exists_cons_of_ne_nil (pieces_ne_nil p)
  have hpieces : pieces (p ++ "/" ++ t) = first :: (later ++ pieces t) := by
    rw [pieces_append_slash, hp, List.cons_append]
  rw [parts_eq hpieces, parts_eq hp, List.filter_append, List.cons_append]

/-- A path without a slash is one component. -/
theorem parts_of_no_slash {p : Path} (h : '/' ∉ p.toList) :
    p.parts = [p] := by
  rw [parts_eq (pieces_of_no_slash h), List.filter_nil]

/-- A slash at the end adds nothing. -/
theorem parts_slash (p : Path) : parts (p ++ "/") = p.parts := by
  have h := parts_append_slash p ""
  rw [String.append_empty] at h
  exact h.trans (List.append_nil _)

/-- A name behind a slash is one component more. -/
theorem parts_append_slash_name (p : Path) {name : String}
    (h : IsName name) : (p ++ "/" ++ name).parts = p.parts ++ [name] := by
  have hkept : (pieces name).filter (fun q => q != "" && q != ".")
      = [name] := by
    simp [pieces_of_no_slash h.no_slash, h.ne_empty, h.ne_dot]
  rw [parts_append_slash, hkept]

/-- **A name is one part more.** -/
theorem parts_join {p : Path} (hp : p ≠ "") {name : String}
    (h : IsName name) : (join p name).parts = p.parts ++ [name] := by
  rcases join_cases p name hp with ⟨hlast, hj⟩ | hj
  · obtain ⟨q, rfl⟩ : ∃ q : Path, p = q ++ "/" := by
      obtain ⟨s, hs⟩ := List.getLast?_eq_some_iff.mp hlast
      refine ⟨String.ofList s, ?_⟩
      rw [← String.toList_inj]
      simpa [String.toList_append] using hs
    rw [hj, parts_append_slash_name _ h, parts_slash]
  · rw [hj, parts_append_slash_name p h]

end Path

namespace Disk

variable {disk : Disk}

/-- Where files come to stand that are written into a directory.  No
directory at all stands for the one that relative paths start from. -/
def base? (disk : Disk) (directory : Path) : Option Location :=
  if directory = "" then some disk.workingDirectory
  else disk.locate? directory

/-- A name behind a directory is looked up in it. -/
theorem locate?_join_name {directory : Path} {name : String}
    (hname : IsName name)
    (hlong : (Path.join directory name).isTooLong = false) :
    disk.locate? (Path.join directory name)
      = (disk.base? directory).bind (disk.follow? · [name]) := by
  have hpieces := Path.pieces_of_no_slash hname.no_slash
  by_cases hdir : directory = ""
  · subst hdir
    have hjoin : Path.join "" name = name := by
      simp [Path.join]
    have hhead : name.toList.head? ≠ some '/' := fun hslash =>
      hname.no_slash (List.mem_of_mem_head? hslash)
    rw [hjoin] at hlong ⊢
    rw [locate?_eq, if_pos (isUsable_iff.mpr ⟨hname.ne_empty, hlong⟩),
      start, if_neg hhead, hpieces, base?, if_pos rfl, Option.bind_some]
  · rw [locate?_join hdir hlong, hpieces, base?, if_neg hdir]

/-- **A name behind a path leads into the directory,** if it leads
anywhere. -/
theorem locate?_inside {directory : Path} {name : String}
    (hname : IsName name) {l : Location}
    (hl : disk.locate? (Path.join directory name) = some l) :
    ∃ base, disk.base? directory = some base
      ∧ disk.hasDirectory base = true ∧ l = base ++ [name] := by
  have hlong := (isUsable_iff.mp (isUsable_of_locate? hl)).2
  rw [locate?_join_name hname hlong] at hl
  obtain ⟨base, hbase, hfollow⟩ := Option.bind_eq_some_iff.mp hl
  rw [follow?_name hname] at hfollow
  split at hfollow
  · next hdir =>
      exact ⟨base, hbase, hdir, (Option.some.inj hfollow).symm⟩
  · exact absurd hfollow (by simp)

end Disk

end SoloScenario.Files
