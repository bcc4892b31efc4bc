import SoloScenario.Files.Disk
import SoloScenario.Proofs.Text.BlankLines

/-!
# Following a path that was put together

A path that is put behind another one is followed from where that leads
(`locate?_join`, `locate?_child`).  This holds with a slash at the end of
the first path as well, since an empty piece stays where it is, and for
the paths that `child` leaves out because they only mean the working
directory.
-/

namespace SoloScenario.Files

/-- A text that can be the name of a node. -/
structure IsName (name : String) : Prop where
  ne_empty : name ≠ ""
  ne_dot : name ≠ "."
  ne_dots : name ≠ ".."
  no_slash : '/' ∉ name.toList

namespace Path

/-- A path has a piece, even if it is empty. -/
theorem pieces_ne_nil (p : Path) : pieces p ≠ [] := by
  simpa [pieces] using Text.pieces_ne_nil '/' p.toList

/-- A path without a slash is one piece. -/
theorem pieces_of_no_slash {p : Path} (h : '/' ∉ p.toList) :
    pieces p = [p] := by
  simp [pieces, Text.pieces_of_not_mem h]

/-- A path that is not empty has a character. -/
theorem toList_ne_nil {p : Path} (h : p ≠ "") : p.toList ≠ [] := by
  simpa using h

/-- The pieces of a path behind a slash. -/
theorem pieces_append_slash (p t : Path) :
    pieces (p ++ "/" ++ t) = pieces p ++ pieces t := by
  obtain ⟨before, last, hp, happend⟩ := Text.pieces_append '/' p.toList
  have hslash := happend _ _ _ (Text.pieces_separator '/' t.toList)
  simp [pieces, String.toList_append, hp, hslash]

/-- The pieces of a path behind one that ends in a slash.  The empty piece
behind that slash is gone. -/
theorem pieces_append_of_slash {p : Path} (h : p.toList.getLast? = some '/')
    (t : Path) : ∃ before, pieces p = before ++ [""]
      ∧ pieces (p ++ t) = before ++ pieces t := by
  obtain ⟨s, hs⟩ : ∃ s, p.toList = s ++ ['/'] :=
    List.getLast?_eq_some_iff.mp h
  have hp : p = String.ofList s ++ "/" := by
    rw [← String.toList_inj]
    simpa [String.toList_append] using hs
  refine ⟨pieces (String.ofList s), ?_, ?_⟩
  · have hend := pieces_append_slash (String.ofList s) ""
    rw [String.append_empty] at hend
    rw [hp, hend]
    rfl
  · rw [hp, pieces_append_slash]

/-- A slash is put in between, unless there is one at the end. -/
theorem join_cases (p t : Path) (h : p ≠ "") :
    (p.toList.getLast? = some '/' ∧ join p t = p ++ t)
    ∨ join p t = p ++ "/" ++ t := by
  have hempty : (p == "") = false := by simpa using h
  by_cases hlast : p.toList.getLast? = some '/'
  · exact .inl ⟨hlast, by simp [join, hlast]⟩
  · exact .inr (by simp [join, hlast, hempty])

/-- A path is no longer than what it becomes with another one behind it. -/
theorem size_le_join {p : Path} (h : p ≠ "") (t : Path) :
    p.utf8ByteSize ≤ (join p t).utf8ByteSize := by
  rcases join_cases p t h with ⟨-, hj⟩ | hj <;>
    simp only [hj, String.utf8ByteSize_append] <;> omega

/-- What is put behind a path is no longer than what becomes of both. -/
theorem size_le_join_right (p t : Path) :
    t.utf8ByteSize ≤ (join p t).utf8ByteSize := by
  rw [join]
  split <;> simp only [String.utf8ByteSize_append] <;> omega

/-- How long a path becomes depends on the length of what is put behind
it. -/
theorem utf8ByteSize_join (p : Path) {t t' : Path}
    (h : t'.utf8ByteSize = t.utf8ByteSize) :
    (join p t').utf8ByteSize = (join p t).utf8ByteSize := by
  rw [join, join]
  split <;> simp only [String.utf8ByteSize_append, h]

/-- If the whole path can be followed, so can its front. -/
theorem not_tooLong_of_join {p t : Path} (h : p ≠ "")
    (hlong : (join p t).isTooLong = false) : p.isTooLong = false := by
  have hle := size_le_join h t
  simp only [isTooLong, decide_eq_false_iff_not, Nat.not_lt] at hlong ⊢
  omega

/-- With something put behind it a path is not empty. -/
theorem join_ne_empty {p : Path} (h : p ≠ "") (t : Path) : join p t ≠ "" := by
  intro hj
  have hle := size_le_join h t
  rw [hj] at hle
  have hzero : p.utf8ByteSize = 0 := by simpa using hle
  exact h (by simpa using hzero)

/-- What is put behind a path does not change its first character. -/
theorem head?_append {p : Path} (h : p ≠ "") (t : String) :
    (p ++ t).toList.head? = p.toList.head? := by
  obtain ⟨c, s, hs⟩ := List.exists_cons_of_ne_nil (toList_ne_nil h)
  rw [String.toList_append, hs]
  rfl

/-- Nor does a slash in between. -/
theorem head?_join {p : Path} (h : p ≠ "") (t : Path) :
    (join p t).toList.head? = p.toList.head? := by
  rcases join_cases p t h with ⟨-, hj⟩ | hj
  · rw [hj, head?_append h]
  · rw [hj, String.append_assoc, head?_append h]

/-! ## The directory one stands in -/

/-- The pieces of what adds nothing are empty or a dot, and stay so behind
a dot. -/
theorem pieces_addsNothing {s : List Char} (h : addsNothing s = true) :
    (∃ ps, Text.pieces '/' s = [] :: ps ∧ ∀ q ∈ ps, q = [] ∨ q = ['.'])
    ∧ ∀ q ∈ Text.pieces '/' ('.' :: s), q = [] ∨ q = ['.'] := by
  have hdot : ∀ {s : List Char} {ps : List (List Char)},
      Text.pieces '/' s = [] :: ps → (∀ q ∈ ps, q = [] ∨ q = ['.']) →
      ∀ q ∈ Text.pieces '/' ('.' :: s), q = [] ∨ q = ['.'] := by
    intro s ps hs hps q hq
    rw [Text.pieces, hs] at hq
    rcases List.mem_cons.mp (by simpa using hq) with rfl | hq
    · exact .inr rfl
    · exact hps q hq
  fun_induction addsNothing s with
  | case1 => exact ⟨⟨[], rfl, by simp⟩, @hdot [] [] rfl (by simp)⟩
  | case2 s ih =>
      have hs := Text.pieces_separator '/' ('.' :: s)
      exact ⟨⟨_, hs, (ih h).2⟩, hdot hs (ih h).2⟩
  | case3 s hne ih =>
      obtain ⟨⟨ps, hps, hall⟩, -⟩ := ih h
      have hs := Text.pieces_separator '/' s
      have hall' : ∀ q ∈ Text.pieces '/' s, q = [] ∨ q = ['.'] := by
        rw [hps]
        intro q hq
        rcases List.mem_cons.mp hq with rfl | hq
        · exact .inl rfl
        · exact hall q hq
      exact ⟨⟨_, hs, hall'⟩, hdot hs hall'⟩
  | case4 => exact absurd h (by simp)

/-- A path that means the directory one stands in has no other pieces than
dots and empty ones. -/
theorem pieces_of_isHere {p : Path} (h : p.isHere = true) :
    p.toList.head? = some '.' ∧ ∀ q ∈ pieces p, q = "" ∨ q = "." := by
  rw [isHere] at h
  split at h
  · next s hs =>
      refine ⟨by rw [hs]; rfl, fun q hq => ?_⟩
      rw [pieces, hs] at hq
      obtain ⟨r, hr, rfl⟩ := List.mem_map.mp hq
      rcases (pieces_addsNothing h).2 r hr with rfl | rfl
      · exact .inl rfl
      · exact .inr rfl
  · exact absurd h (by simp)

end Path

namespace Disk

variable {disk : Disk}

/-! ## Following names -/

/-- Names are followed one after the other. -/
theorem follow?_append (l : Location) (xs ys : List String) :
    disk.follow? l (xs ++ ys) = (disk.follow? l xs).bind (disk.follow? · ys)
    := by
  induction xs generalizing l with
  | nil => rfl
  | cons x xs ih =>
      rw [List.cons_append, follow?, follow?]
      simp only [ih]
      split
      · split
        · rfl
        · split <;> rfl
      · rfl

/-- Only a directory can be left. -/
theorem hasDirectory_of_follow? {l l' : Location} {xs : List String}
    (hxs : xs ≠ []) (h : disk.follow? l xs = some l') :
    disk.hasDirectory l = true := by
  obtain ⟨x, rest, rfl⟩ := List.exists_cons_of_ne_nil hxs
  rw [follow?] at h
  split at h
  · assumption
  · exact absurd h (by simp)

/-- Dots and empty names stay where they are. -/
theorem follow?_dotted {l : Location} {xs : List String} (hxs : xs ≠ [])
    (h : ∀ x ∈ xs, x = "" ∨ x = ".") :
    disk.follow? l xs = if disk.hasDirectory l then some l else none := by
  induction xs with
  | nil => exact absurd rfl hxs
  | cons x xs ih =>
      rw [follow?, if_pos (h x List.mem_cons_self)]
      cases xs with
      | nil => rfl
      | cons y ys =>
          rw [ih (by simp) fun z hz => h z (List.mem_cons_of_mem _ hz)]
          split <;> rfl

/-- A name is followed from a directory only. -/
theorem follow?_name {l : Location} {name : String} (h : IsName name) :
    disk.follow? l [name]
      = if disk.hasDirectory l then some (l ++ [name]) else none := by
  have hdot : ¬ (name = "" ∨ name = ".") :=
    not_or.mpr ⟨h.ne_empty, h.ne_dot⟩
  simp only [follow?, if_neg hdot, if_neg h.ne_dots]

/-- A piece that is empty changes nothing in front of others. -/
theorem follow?_empty_cons (l : Location) {xs : List String} (h : xs ≠ []) :
    disk.follow? l ("" :: xs) = disk.follow? l xs := by
  obtain ⟨x, rest, rfl⟩ := List.exists_cons_of_ne_nil h
  rw [follow?]
  split
  · simp
  · next hl => rw [follow?, if_neg hl]

/-- A path behind another one is followed behind it. -/
theorem follow?_join (l : Location) {p : Path} (hp : p ≠ "") (t : Path) :
    disk.follow? l (Path.join p t).pieces
      = (disk.follow? l p.pieces).bind (disk.follow? · t.pieces) := by
  rcases Path.join_cases p t hp with ⟨hlast, hj⟩ | hj
  · obtain ⟨before, hpieces, happend⟩ :=
      Path.pieces_append_of_slash hlast t
    rw [hj, happend, hpieces, follow?_append, follow?_append,
      Option.bind_assoc]
    congr 1
    funext l'
    rw [← follow?_append, List.singleton_append,
      follow?_empty_cons l' (Path.pieces_ne_nil t)]
  · rw [hj, Path.pieces_append_slash, follow?_append]

/-! ## Where a path leads -/

/-- Where the first name of a path is looked for. -/
def start (disk : Disk) (p : Path) : Location :=
  if p.toList.head? = some '/' then [] else disk.workingDirectory

/-- A path that can be used is followed from its start. -/
theorem locate?_eq (p : Path) : disk.locate? p
    = if p.isUsable then disk.follow? (disk.start p) p.pieces else none := by
  rw [locate?, start]
  cases p.isUsable with
  | false => rfl
  | true =>
      by_cases hroot : p.toList.head? = some '/'
      · rw [if_pos hroot, if_pos hroot]
        rfl
      · rw [if_neg hroot, if_neg hroot]
        rfl

/-- A path can be used if it is not empty and not too long. -/
theorem isUsable_iff {p : Path} :
    p.isUsable = true ↔ p ≠ "" ∧ p.isTooLong = false := by
  simp [Path.isUsable]

/-- **A path behind another one is followed from where that leads.** -/
theorem locate?_join {p : Path} (hp : p ≠ "") {t : Path}
    (hlong : (Path.join p t).isTooLong = false) :
    disk.locate? (Path.join p t)
      = (disk.locate? p).bind (disk.follow? · t.pieces) := by
  have hjoin : (Path.join p t).isUsable = true :=
    isUsable_iff.mpr ⟨Path.join_ne_empty hp t, hlong⟩
  have huse : p.isUsable = true :=
    isUsable_iff.mpr ⟨hp, Path.not_tooLong_of_join hp hlong⟩
  rw [locate?_eq, locate?_eq, if_pos hjoin, if_pos huse, start,
    Path.head?_join hp, follow?_join _ hp t, start]

/-- A path that means the directory one stands in leads there. -/
theorem locate?_of_isHere {p : Path} (h : p.isHere = true)
    (hlong : p.isTooLong = false) : disk.locate? p
      = if disk.hasDirectory disk.workingDirectory
        then some disk.workingDirectory else none := by
  obtain ⟨hhead, hpieces⟩ := Path.pieces_of_isHere h
  have hp : p ≠ "" := by
    rintro rfl
    simp at hhead
  have hstart : disk.start p = disk.workingDirectory := by
    simp [start, hhead]
  rw [locate?_eq, if_pos (isUsable_iff.mpr ⟨hp, hlong⟩), hstart,
    follow?_dotted (Path.pieces_ne_nil p) hpieces]

/-- **So is one behind a directory that need not be mentioned.** -/
theorem locate?_child {p : Path} (hp : p ≠ "")
    (hplong : p.isTooLong = false) {t : Path}
    (ht : t.toList.head? ≠ some '/')
    (hempty : p.isHere = true → t ≠ "")
    (hlong : (Path.child p t).isTooLong = false) :
    disk.locate? (Path.child p t)
      = (disk.locate? p).bind (disk.follow? · t.pieces) := by
  by_cases h : p.isHere = true
  · rw [Path.child, if_pos h] at hlong ⊢
    have huse : t.isUsable = true := isUsable_iff.mpr ⟨hempty h, hlong⟩
    rw [locate?_of_isHere h hplong, locate?_eq, if_pos huse, start, if_neg ht]
    -- Both sides need the working directory to be one.
    by_cases hd : disk.hasDirectory disk.workingDirectory = true
    · rw [if_pos hd]
      rfl
    · rw [if_neg hd, Option.bind_none]
      refine Option.eq_none_iff_forall_ne_some.mpr fun l hl => ?_
      exact hd (hasDirectory_of_follow? (Path.pieces_ne_nil t) hl)
  · rw [Path.child, if_neg h] at hlong ⊢
    exact locate?_join hp hlong

end Disk

end SoloScenario.Files
