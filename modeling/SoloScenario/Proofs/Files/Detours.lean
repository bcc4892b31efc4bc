import SoloScenario.Proofs.Files.Inside
import SoloScenario.Proofs.Files.Search

/-!
# Patterns with dots

A dot in a pattern leads nowhere else, but it stays in the paths that are
found (`filesOf_dotted`).  So a file can be found by as long a path as one
likes, among others by one that is too long to be read, though all of them
have the same parts (`parts_dotted`).
-/

namespace SoloScenario.Files

namespace Path

/-- A directory with dots behind it. -/
def dotted (directory : Path) : Nat → Path
  | 0 => directory
  | k + 1 => dotted directory k ++ "/" ++ "."

variable {directory : Path}

/-- Its pieces are the directory and the dots. -/
theorem pieces_dotted (h : '/' ∉ directory.toList) (k : Nat) :
    pieces (dotted directory k) = directory :: List.replicate k "." := by
  induction k with
  | zero => exact pieces_of_no_slash h
  | succ k ih =>
      rw [dotted, pieces_append_slash, ih, List.replicate_succ']
      rfl

/-- **Dots do not change the parts of a path.** -/
theorem parts_dotted (h : '/' ∉ directory.toList) {name : String}
    (hname : IsName name) (k : Nat) :
    (dotted directory k ++ "/" ++ name).parts = [directory, name] := by
  have hdots : (dotted directory k).parts = [directory] := by
    induction k with
    | zero => exact parts_of_no_slash h
    | succ k ih =>
        rw [dotted, parts_append_slash, ih]
        rfl
  rw [parts_append_slash_name _ hname, hdots]
  rfl

/-- Each dot makes it longer by two bytes. -/
theorem utf8ByteSize_dotted (directory : Path) (k : Nat) :
    (dotted directory k).utf8ByteSize
      = directory.utf8ByteSize + 2 * k := by
  have hslash : "/".utf8ByteSize = 1 := by decide
  have hdot : ".".utf8ByteSize = 1 := by decide
  induction k with
  | zero => rfl
  | succ k ih =>
      rw [dotted, String.utf8ByteSize_append, String.utf8ByteSize_append,
        ih, hslash, hdot]
      omega

/-- With fewer dots it is no longer. -/
theorem not_tooLong_dotted {j k : Nat} (hle : j ≤ k)
    (h : (dotted directory k).isTooLong = false) :
    (dotted directory j).isTooLong = false := by
  simp only [isTooLong, utf8ByteSize_dotted, decide_eq_false_iff_not] at h ⊢
  omega

/-- It is not empty if the directory is not. -/
theorem dotted_ne_empty (h : directory ≠ "") (k : Nat) :
    dotted directory k ≠ "" := by
  cases k with
  | zero => exact h
  | succ k => simp [dotted]

/-- A name is put behind the dots. -/
theorem child_dotted (h : IsName directory) (k : Nat) (name : String) :
    child (dotted directory k) name = dotted directory k ++ "/" ++ name := by
  have hpieces := pieces_dotted h.no_slash k
  have hhere : (dotted directory k).isHere ≠ true := by
    intro hhere
    have hdots := (pieces_of_isHere hhere).2 directory (by simp [hpieces])
    exact absurd hdots (not_or.mpr ⟨h.ne_empty, h.ne_dot⟩)
  rw [child, if_neg hhere]
  rcases join_cases (dotted directory k) name
      (dotted_ne_empty h.ne_empty k) with ⟨hlast, -⟩ | hjoin
  · -- Behind a slash at the end there would be an empty piece.
    obtain ⟨before, hbefore, -⟩ := pieces_append_of_slash hlast name
    have hmem : "" ∈ pieces (dotted directory k) := by simp [hbefore]
    rw [hpieces] at hmem
    rcases List.mem_cons.mp hmem with hempty | hempty
    · exact absurd hempty.symm h.ne_empty
    · exact absurd (List.eq_of_mem_replicate hempty) (by decide)
  · exact hjoin

end Path

namespace Pattern

/-! ## Reading a pattern with dots -/

/-- A text without wildcards. -/
def IsPlain (s : List Char) : Prop :=
  ∀ c ∈ s, c ≠ '*' ∧ c ≠ '?' ∧ c ≠ '['

/-- Whether a text is plain is decided character by character. -/
instance (s : List Char) : Decidable (IsPlain s) :=
  List.decidableBAll (fun c => c ≠ '*' ∧ c ≠ '?' ∧ c ≠ '[') s

/-- A character that means nothing special stands for itself. -/
theorem tokens_cons_plain {c : Char} (hstar : c ≠ '*') (hmark : c ≠ '?')
    (hbracket : c ≠ '[') (position : Nat) (before : Option Char)
    (s : List Char) : tokens position before (c :: s)
      = (tokens (position + 1) (some c) s).map (.literal c :: ·) := by
  rw [tokens.eq_def]
  simp only [hstar, hmark, hbracket, if_false]

/-- Characters that are no wildcards are read as themselves. -/
theorem tokens_plain {s : List Char} (h : IsPlain s) (t : List Char)
    (position : Nat) (before : Option Char) : ∃ position' before',
      tokens position before (s ++ t)
        = (tokens position' before' t).map (s.map Token.literal ++ ·) := by
  induction s generalizing position before with
  | nil =>
      refine ⟨position, before, ?_⟩
      rw [List.nil_append]
      cases tokens position before t <;> rfl
  | cons c s ih =>
      obtain ⟨⟨hstar, hmark, hbracket⟩, hs⟩ := List.forall_mem_cons.mp h
      obtain ⟨position', before', hrest⟩ := ih hs (position + 1) (some c)
      refine ⟨position', before', ?_⟩
      rw [List.cons_append, tokens_cons_plain hstar hmark hbracket, hrest]
      cases tokens position' before' t <;> rfl

/-- **A plain text is read letter by letter.** -/
theorem tokens_of_plain {s : List Char} (h : IsPlain s) :
    tokens 0 none s = .ok (s.map Token.literal) := by
  obtain ⟨position, before, hs⟩ := tokens_plain h [] 0 none
  rw [List.append_nil, tokens.eq_def position] at hs
  rw [hs]
  exact congrArg Except.ok (List.append_nil _)

/-- A star by itself stands for any text. -/
theorem tokens_star (position : Nat) (before : Option Char) :
    tokens position before ['*'] = .ok [.anyRun] := by
  rw [tokens.eq_def]
  simp [tokens, Except.map]

/-- Letters that stand for themselves spell their text. -/
theorem literalText?_map (s : List Char) :
    literalText? (s.map Token.literal) = some (String.ofList s) := by
  refine congrArg (Option.map String.ofList) (?_ : _ = some s)
  induction s with
  | nil => rfl
  | cons c s ih =>
      rw [List.map_cons, List.mapM_cons, ih]
      rfl

/-- Without `**` nothing is put together. -/
theorem collapse_of_no_depth {components : List (List Token)}
    (h : ∀ c ∈ components, isAnyDepth c = false) :
    collapse components = components := by
  fun_induction collapse components with
  | case1 a b rest hdepth ih => simp [h a] at hdepth
  | case2 a b rest hdepth ih =>
      rw [ih fun c hc => h c (List.mem_cons_of_mem _ hc)]
  | case3 => rfl

end Pattern

/-- Without `**` each component is a stage of its own. -/
theorem stages_of_no_depth {components : List (List Pattern.Token)}
    (h : ∀ c ∈ components, Pattern.isAnyDepth c = false) :
    stages components = components.map Stage.inside := by
  fun_induction stages components with
  | case1 => rfl
  | case2 c hdepth => simp [h c] at hdepth
  | case3 c hdepth => rfl
  | case4 c next rest hdepth ih => simp [h c] at hdepth
  | case5 c next rest hdepth ih =>
      rw [ih fun d hd => h d (List.mem_cons_of_mem _ hd)]
      rfl

/-- The components of a directory with dots and a star behind it. -/
def dottedComponents (directory : Path) (k : Nat) :
    List (List Pattern.Token) :=
  directory.toList.map .literal
    :: (List.replicate k [.literal '.'] ++ [[.anyRun]])

/-- None of its components goes down to any depth. -/
theorem no_depth_dotted (directory : Path) (k : Nat) :
    ∀ c ∈ dottedComponents directory k, Pattern.isAnyDepth c = false := by
  intro c hc
  have hcases : c = directory.toList.map .literal ∨ c = [.literal '.']
      ∨ c = [.anyRun] := by
    rcases List.mem_cons.mp hc with hc | hc
    · exact .inl hc
    rcases List.mem_append.mp hc with hc | hc
    · exact .inr (.inl (List.eq_of_mem_replicate hc))
    · exact .inr (.inr (List.mem_singleton.mp hc))
  rcases hcases with rfl | rfl | rfl
  · cases directory.toList with
    | nil => rfl
    | cons c s => rfl
  · rfl
  · rfl

/-- What succeeds once succeeds as often as it is repeated. -/
theorem mapM_replicate {α β ε : Type} {f : α → Except ε β} {x : α} {y : β}
    (h : f x = .ok y) (k : Nat) :
    (List.replicate k x).mapM f = .ok (List.replicate k y) := by
  induction k with
  | zero => rfl
  | succ k ih =>
      rw [List.replicate_succ, List.replicate_succ]
      exact mapM_cons_eq_ok.mpr ⟨y, _, h, ih, rfl⟩

/-- Neither the directory nor the dots and slashes are wildcards. -/
theorem isPlain_dotted {directory : Path}
    (h : Pattern.IsPlain directory.toList) (k : Nat) :
    Pattern.IsPlain (Path.dotted directory k ++ "/").toList := by
  have hslash : ∀ p : Path, Pattern.IsPlain p.toList →
      Pattern.IsPlain (p ++ "/").toList := by
    intro p hp c hc
    rw [String.toList_append] at hc
    rcases List.mem_append.mp hc with hc | hc
    · exact hp c hc
    · obtain rfl : c = '/' := by simpa using hc
      decide
  have hdots : Pattern.IsPlain (Path.dotted directory k).toList := by
    induction k with
    | zero => exact h
    | succ k ih =>
        intro c hc
        rw [Path.dotted, String.toList_append] at hc
        rcases List.mem_append.mp hc with hc | hc
        · exact hslash _ ih c hc
        · obtain rfl : c = '.' := by simpa using hc
          decide
  exact hslash _ hdots

/-- The components of such a pattern are the directory, the dots and the star.
-/
theorem componentTexts_dotted {directory : Path}
    (h : '/' ∉ directory.toList) (k : Nat) :
    Pattern.componentTexts (Path.dotted directory k ++ "/" ++ "*").toList
      = directory.toList :: (List.replicate k ['.'] ++ [['*']]) := by
  have hpieces : Text.pieces '/'
      (Path.dotted directory k ++ "/" ++ "*").toList
        = directory.toList :: (List.replicate k ['.'] ++ [['*']]) := by
    have htexts := Path.pieces_append_slash (Path.dotted directory k) "*"
    rw [Path.pieces_dotted h, Path.pieces] at htexts
    have hlists := congrArg (List.map String.toList) htexts
    rw [List.map_map] at hlists
    simpa [Function.comp_def, Path.pieces, Text.pieces] using hlists
  rw [Pattern.componentTexts, hpieces]
  have hlast : (directory.toList
      :: (List.replicate k ['.'] ++ [['*']])).getLast? ≠ some [] := by
    rw [← List.cons_append, List.getLast?_concat]
    simp
  cases k with
  | zero => exact if_neg hlast
  | succ k => exact if_neg hlast

/-- A pattern with dots is read component by component. -/
theorem ofText_dotted {directory : Path} (h : IsName directory)
    (hplain : Pattern.IsPlain directory.toList) (k : Nat) :
    Pattern.ofText (Path.dotted directory k ++ "/" ++ "*")
      = .ok ⟨false, dottedComponents directory k, false⟩ := by
  have hwhole : Pattern.tokens 0 none
      (Path.dotted directory k ++ "/" ++ "*").toList
        = .ok ((Path.dotted directory k ++ "/").toList.map .literal
          ++ [.anyRun]) := by
    obtain ⟨position, before, hall⟩ :=
      Pattern.tokens_plain (isPlain_dotted hplain k) ['*'] 0 none
    rw [Pattern.tokens_star] at hall
    rw [String.toList_append]
    exact hall
  have hhead : ((Path.dotted directory k ++ "/" ++ "*").toList.head?
      == some '/') = false := by
    have hpieces := Path.pieces_append_slash (Path.dotted directory k) "*"
    rw [Path.pieces_dotted h.no_slash, List.cons_append] at hpieces
    simpa using Path.head?_of_pieces hpieces h.ne_empty
  have hlast : ((Path.dotted directory k ++ "/" ++ "*").toList.getLast?
      == some '/') = false := by
    rw [String.toList_append, List.getLast?_append]
    rfl
  have hdots : (List.replicate k ['.']).mapM (Pattern.tokens 0 none)
      = .ok (List.replicate k [.literal '.']) :=
    mapM_replicate (Pattern.tokens_of_plain (by simp [Pattern.IsPlain])) k
  have hcomponents : (directory.toList
      :: (List.replicate k ['.'] ++ [['*']])).mapM (Pattern.tokens 0 none)
        = .ok (dottedComponents directory k) := by
    rw [List.mapM_cons, List.mapM_append, hdots,
      Pattern.tokens_of_plain hplain, List.mapM_cons, Pattern.tokens_star]
    rfl
  simp only [Pattern.ofText, hwhole, hhead, hlast, bind, Except.bind,
    Bool.false_eq_true, if_false, componentTexts_dotted h.no_slash,
    hcomponents, pure, Except.pure,
    Pattern.collapse_of_no_depth (no_depth_dotted directory k)]

/-! ## Searching with dots -/

variable {disk : Disk} {directory : Path} {l : Location}

/-- Stages are gone through one after the other. -/
theorem expandFrom_append (start : List Finding) (ss ts : List Stage) :
    expandFrom disk start (ss ++ ts)
      = expandFrom disk (expandFrom disk start ss) ts :=
  List.foldl_append

/-- A single finding that leads to a single one makes a list of one. -/
theorem expandFrom_singleton {f g : Finding} {stage : Stage}
    (h : stage.follow disk f = [g]) : expandFrom disk [f] [stage] = [g] := by
  rw [expandFrom, List.foldl_cons, List.foldl_nil, List.flatMap_cons, h]
  rfl

/-- **Dots stay in the directory, and are put behind its path.** -/
theorem expandFrom_dots (h : IsName directory)
    (hdir : disk.hasDirectory l = true) {k : Nat}
    (hlong : (Path.dotted directory k).isTooLong = false) :
    expandFrom disk [.place ⟨directory, some l⟩]
        (List.replicate k (.inside [.literal '.']))
      = [.place ⟨Path.dotted directory k, some l⟩] := by
  induction k with
  | zero => rfl
  | succ k ih =>
      have hchild := Path.child_dotted h k "."
      have huse : (Path.dotted directory (k + 1)).isUsable = true :=
        Disk.isUsable_iff.mpr ⟨Path.dotted_ne_empty h.ne_empty _, hlong⟩
      have hfollow : disk.follow? l ["."] = some l := by
        simp [Disk.follow?, hdir]
      have hstep : Stage.follow disk (.inside [.literal '.'])
          (.place ⟨Path.dotted directory k, some l⟩)
            = [.place ⟨Path.dotted directory (k + 1), some l⟩] := by
        have hliteral : Pattern.literalText? [.literal '.'] = some "." :=
          Pattern.literalText?_map ['.']
        simp only [Stage.follow, Place.reach, hliteral, Place.lookUp, hchild]
        rw [← Path.dotted, if_pos huse]
        simp [Place.isDirectory, hdir, hfollow]
      rw [List.replicate_succ', expandFrom_append,
        ih (Path.not_tooLong_dotted (Nat.le_succ k) hlong)]
      exact expandFrom_singleton hstep

/-- A directory is found from the one that one stands in. -/
theorem follow_name (h : IsName directory)
    (hlong : directory.isTooLong = false)
    (hhome : disk.hasDirectory disk.workingDirectory = true)
    (hdir : disk.hasDirectory (disk.workingDirectory ++ [directory]) = true) :
    Stage.follow disk (.inside (directory.toList.map .literal))
        (.place (Place.ofPath disk "."))
      = [.place ⟨directory, some (disk.workingDirectory ++ [directory])⟩] := by
  have hstart : Place.ofPath disk "."
      = ⟨".", some disk.workingDirectory⟩ := by
    rw [Place.ofPath, disk.locate?_of_isHere (p := ".") rfl (by decide),
      if_pos hhome]
  have hliteral :
      Pattern.literalText? (directory.toList.map .literal)
        = some directory := by
    rw [Pattern.literalText?_map, String.ofList_toList]
  have hspecial : ¬ (directory = "." ∨ directory = "..") :=
    not_or.mpr ⟨h.ne_dot, h.ne_dots⟩
  have hchild : Path.child "." directory = directory := if_pos rfl
  have huse : directory.isUsable = true :=
    Disk.isUsable_iff.mpr ⟨h.ne_empty, hlong⟩
  rw [hstart]
  simp only [Stage.follow, Place.reach, hliteral, if_neg hspecial,
    Place.lookUp, hchild, huse, if_true, Option.bind_some,
    Disk.follow?_name h, hhome]
  simp [Place.exists?, Disk.node?_of_hasDirectory hdir]

/-- A star stands for every name in a directory. -/
theorem reach_star {p : Place} (hl : p.location = some l)
    (hdir : disk.hasDirectory l = true) (hlong : p.path.isTooLong = false) :
    p.reach disk [.anyRun] = (disk.names l).map fun name =>
      .place ⟨p.path.child name, some (l ++ [name])⟩ := by
  have hliteral : Pattern.literalText? [.anyRun] = none := rfl
  have hfits : ∀ name : String,
      Pattern.fits [.anyRun] name.toList = true := by
    intro name
    have hends : ∀ s : List Char, [] ∈ Pattern.suffixes s := by
      intro s
      induction s with
      | nil => exact List.mem_singleton.mpr rfl
      | cons c s ih => exact List.mem_cons_of_mem _ ih
    exact List.contains_iff_mem.mpr (hends name.toList)
  have hall : (disk.names l).filter (fun name : String =>
      Pattern.fits [.anyRun] name.toList) = disk.names l :=
    List.filter_eq_self.mpr fun name _ => hfits name
  rw [Place.reach, hliteral]
  simp only [Place.fittingChildren, Place.enter, hl, Option.filter, hdir,
    hlong, hall, if_true]
  rfl

/-- **A pattern with dots finds what the one without them finds,** under a
path with the dots. -/
theorem filesOf_dotted (h : IsName directory)
    (hplain : Pattern.IsPlain directory.toList)
    (hhome : disk.hasDirectory disk.workingDirectory = true)
    (hdir : disk.hasDirectory (disk.workingDirectory ++ [directory]) = true)
    {name : String}
    (hnames : disk.names (disk.workingDirectory ++ [directory]) = [name])
    {k : Nat} (hlong : (Path.dotted directory k).isTooLong = false) :
    filesOf disk (Path.dotted directory k ++ "/" ++ "*")
      = .ok ([Path.dotted directory k ++ "/" ++ name].filter
        (!disk.isDirectory ·)) := by
  have hstages : stages (dottedComponents directory k)
      = [.inside (directory.toList.map .literal)]
        ++ (List.replicate k (.inside [.literal '.'])
        ++ [.inside [.anyRun]]) := by
    rw [stages_of_no_depth (no_depth_dotted directory k), dottedComponents,
      List.map_cons, List.map_append, List.map_replicate]
    rfl
  have hfirst := expandFrom_singleton (follow_name h
    (Path.not_tooLong_dotted (Nat.zero_le k) hlong) hhome hdir)
  have hlast : Stage.follow disk (.inside [.anyRun]) (.place
      ⟨Path.dotted directory k, some (disk.workingDirectory ++ [directory])⟩)
        = [.place ⟨Path.dotted directory k ++ "/" ++ name,
          some (disk.workingDirectory ++ [directory] ++ [name])⟩] := by
    rw [Stage.follow, reach_star rfl hdir hlong, hnames, List.map_singleton,
      Path.child_dotted h]
  have hfound : expand disk ⟨false, dottedComponents directory k, false⟩
      = [.place ⟨Path.dotted directory k ++ "/" ++ name,
        some (disk.workingDirectory ++ [directory] ++ [name])⟩] := by
    simp only [expand, Bool.false_eq_true, if_false]
    rw [hstages, expandFrom_append, hfirst, expandFrom_append,
      expandFrom_dots h hdir hlong, expandFrom_singleton hlast]
  rw [filesOf, ofText_dotted h hplain k]
  simp only [Except.mapError, bind, Except.bind, hfound]
  rfl

end SoloScenario.Files
