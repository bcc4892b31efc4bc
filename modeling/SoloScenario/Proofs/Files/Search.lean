import Mathlib
import SoloScenario.Files.Discovery
import SoloScenario.Proofs.Files.Repeats
import SoloScenario.Proofs.Files.Writing

/-!
# A search finds what is there

On a disk that is a tree of directories (`Disk.WellFormed`) a place that a
search comes to is where its path leads, and there is something there
(`Place.Sound`).  The only exception is a path that is too long to be
followed; such a place may still be known from a listing.

* `Place.Sound.reach`, `Place.Sound.descend` — what a component, or the way
  down, leads to from a sound place is sound;
* `expand_sound` — so is all that a pattern matches;
* `isFile_of_discover` — what is discovered is a file, or its path is too
  long.
-/

namespace SoloScenario.Files

/-- A list succeeds if its first item does and the others do. -/
theorem mapM_cons_eq_ok {α β ε : Type} {f : α → Except ε β} {x : α}
    {xs : List α} {ys : List β} : (x :: xs).mapM f = .ok ys
      ↔ ∃ y later, f x = .ok y ∧ xs.mapM f = .ok later ∧ ys = y :: later
    := by
  rw [List.mapM_cons]
  cases f x with
  | error e => simp [bind, Except.bind]
  | ok y =>
      cases xs.mapM f <;>
        simp [bind, Except.bind, pure, Except.pure, eq_comm]

/-- What is found for a list comes from one of its members. -/
theorem exists_of_mapM {α β ε : Type} {f : α → Except ε β} {xs : List α}
    {ys : List β} (h : xs.mapM f = .ok ys) :
    ∀ y ∈ ys, ∃ x ∈ xs, f x = .ok y := by
  induction xs generalizing ys with
  | nil =>
      obtain rfl : [] = ys := Except.ok.inj h
      simp
  | cons x xs ih =>
      obtain ⟨y, later, hy, hlater, rfl⟩ := mapM_cons_eq_ok.mp h
      intro z hz
      rcases List.mem_cons.mp hz with rfl | hz
      · exact ⟨x, List.mem_cons_self, hy⟩
      · obtain ⟨w, hw, hfw⟩ := ih hlater z hz
        exact ⟨w, List.mem_cons_of_mem _ hw, hfw⟩

/-! ## Trees of directories -/

namespace Disk

/-- The disk is a tree: what the nodes are called are names, every node is
in a directory, and one stands in a directory. -/
structure WellFormed (disk : Disk) : Prop where
  names : ∀ entry ∈ disk.nodes, ∀ name ∈ entry.1, IsName name
  parents : ∀ entry ∈ disk.nodes, disk.hasDirectory entry.1.dropLast = true
  home : disk.hasDirectory disk.workingDirectory = true

/-- Whether a text is a name is decided by looking at it. -/
instance (name : String) : Decidable (IsName name) :=
  decidable_of_iff
    (name ≠ "" ∧ name ≠ "." ∧ name ≠ ".." ∧ '/' ∉ name.toList)
    ⟨fun h => ⟨h.1, h.2.1, h.2.2.1, h.2.2.2⟩,
      fun h => ⟨h.ne_empty, h.ne_dot, h.ne_dots, h.no_slash⟩⟩

/-- Whether a disk is well-formed is decided by looking at its nodes. -/
instance (disk : Disk) : Decidable disk.WellFormed :=
  decidable_of_iff
    ((∀ entry ∈ disk.nodes, ∀ name ∈ entry.1, IsName name)
      ∧ (∀ entry ∈ disk.nodes, disk.hasDirectory entry.1.dropLast = true)
      ∧ disk.hasDirectory disk.workingDirectory = true)
    ⟨fun h => ⟨h.1, h.2.1, h.2.2⟩, fun h => ⟨h.names, h.parents, h.home⟩⟩

variable {disk : Disk}

/-- There is something at the location of a node. -/
theorem isSome_node? {entry : Location × Node} (h : entry ∈ disk.nodes) :
    (disk.node? entry.1).isSome = true := by
  rw [node?]
  split
  · rfl
  · rw [Option.isSome_map, List.find?_isSome]
    exact ⟨entry, h, by simp⟩

/-- What is at a location is one of the nodes, but for the root. -/
theorem mem_nodes_of_node? {l : Location} {n : Node} (hl : l ≠ [])
    (h : disk.node? l = some n) : (l, n) ∈ disk.nodes := by
  have hempty : l.isEmpty = false := by simpa using hl
  rw [node?, hempty, if_neg (by simp), Option.map_eq_some_iff] at h
  obtain ⟨⟨k, m⟩, hfind, rfl⟩ := h
  have hk : k = l := by simpa using List.find?_some hfind
  rw [← hk]
  exact List.mem_of_find?_eq_some hfind

/-- A directory is a node of its own. -/
theorem node?_of_hasDirectory {l : Location}
    (h : disk.hasDirectory l = true) : disk.node? l = some .directory := by
  rw [hasDirectory] at h
  cases hn : disk.node? l with
  | none => simp [hn] at h
  | some n => cases n <;> simp [hn, Node.isDirectory] at h ⊢

/-- A name in a directory belongs to a node there. -/
theorem mem_names {l : Location} {name : String}
    (h : name ∈ disk.names l) : ∃ n, (l ++ [name], n) ∈ disk.nodes := by
  obtain ⟨⟨l', n⟩, hmem, heq⟩ :=
    List.mem_filterMap.mp (List.mem_mergeSort.mp h)
  dsimp only at heq
  split at heq
  · next hl =>
      obtain ⟨before, rfl⟩ := List.getLast?_eq_some_iff.mp heq
      rw [List.dropLast_concat] at hl
      exact ⟨n, hl.2 ▸ hmem⟩
  · exact absurd heq (by simp)

/-- So do the names that lead further down. -/
theorem mem_below {l : Location} {names : List String}
    (h : names ∈ disk.below l) :
    names ≠ [] ∧ ∃ n, (l ++ names, n) ∈ disk.nodes := by
  obtain ⟨⟨l', n⟩, hmem, heq⟩ :=
    List.mem_filterMap.mp (List.mem_mergeSort.mp h)
  dsimp only at heq
  split at heq
  · next hl =>
      obtain ⟨hstart, hlen⟩ := hl
      obtain ⟨rest, rfl⟩ := List.isPrefixOf_iff_prefix.mp hstart
      rw [List.drop_left, Option.some.injEq] at heq
      subst heq
      refine ⟨?_, n, hmem⟩
      rintro rfl
      simp at hlen
  · exact absurd heq (by simp)

namespace WellFormed

/-- One can go up from where there is something. -/
theorem hasDirectory_dropLast (h : disk.WellFormed) {l : Location}
    (hn : (disk.node? l).isSome = true) :
    disk.hasDirectory l.dropLast = true := by
  by_cases hl : l = []
  · subst hl
    rfl
  · obtain ⟨n, hn⟩ := Option.isSome_iff_exists.mp hn
    exact h.parents _ (mem_nodes_of_node? hl hn)

/-- All that is on the way to something is a directory. -/
theorem hasDirectory_append (h : disk.WellFormed) {l rest : Location}
    (hn : (disk.node? (l ++ rest)).isSome = true) (hrest : rest ≠ []) :
    disk.hasDirectory l = true := by
  -- From the end up, a name at a time.
  induction hlen : rest.length generalizing rest with
  | zero => exact absurd (List.length_eq_zero_iff.mp hlen) hrest
  | succ k ih =>
      have hup := h.hasDirectory_dropLast hn
      rw [List.dropLast_append_of_ne_nil hrest] at hup
      by_cases hlast : rest.dropLast = []
      · rwa [hlast, List.append_nil] at hup
      · refine ih ?_ hlast (by simp [hlen])
        rw [node?_of_hasDirectory hup]
        rfl

/-- One can go down to where there is something, name by name. -/
theorem follow?_names (h : disk.WellFormed) {l names : Location}
    (hnames : ∀ name ∈ names, IsName name)
    (hn : (disk.node? (l ++ names)).isSome = true) :
    disk.follow? l names = some (l ++ names) := by
  induction names generalizing l with
  | nil => simp [Disk.follow?]
  | cons name names ih =>
      have hdir := h.hasDirectory_append hn (List.cons_ne_nil name names)
      have hrest := ih (l := l ++ [name])
        (fun x hx => hnames x (List.mem_cons_of_mem _ hx)) (by simpa using hn)
      have hfirst : disk.follow? l [name] = _ :=
        follow?_name (hnames name List.mem_cons_self)
      rw [if_pos hdir] at hfirst
      calc disk.follow? l (name :: names)
          = (disk.follow? l [name]).bind (disk.follow? · names) :=
            follow?_append l [name] names
        _ = disk.follow? (l ++ [name]) names := by rw [hfirst]; rfl
        _ = some (l ++ name :: names) := by simpa using hrest

end WellFormed

end Disk

namespace Path

/-- The path has no other pieces than dots and empty ones. -/
def IsDotted (p : Path) : Prop :=
  ∀ q ∈ pieces p, q = "" ∨ q = "."

/-- If a path means the directory one stands in, so does what stands behind a
slash in it. -/
theorem IsDotted.of_join {p t : Path} (hp : p ≠ "")
    (h : (join p t).IsDotted) : t.IsDotted := by
  intro q hq
  refine h q ?_
  rcases join_cases p t hp with ⟨hlast, hj⟩ | hj
  · obtain ⟨before, -, happend⟩ := pieces_append_of_slash hlast t
    rw [hj, happend]
    exact List.mem_append_right _ hq
  · rw [hj, pieces_append_slash]
    exact List.mem_append_right _ hq

/-- So does what stands behind it where a directory is not mentioned. -/
theorem IsDotted.of_child {p t : Path} (hp : p ≠ "")
    (h : (child p t).IsDotted) : t.IsDotted := by
  rw [child] at h
  split at h
  · exact h
  · exact h.of_join hp

/-- A path in a directory is not empty. -/
theorem child_ne_empty {p : Path} (hp : p ≠ "") {t : Path}
    (ht : p.isHere = true → t ≠ "") : child p t ≠ "" := by
  rw [child]
  split
  · next hhere => exact ht hhere
  · exact join_ne_empty hp t

/-- Names that are put together come apart again. -/
theorem pieces_intercalate {names : List String} (hne : names ≠ [])
    (h : ∀ name ∈ names, '/' ∉ name.toList) :
    pieces (String.intercalate "/" names) = names := by
  have hpieces : Text.pieces '/'
      (Text.joinPieces '/' (names.map String.toList))
        = names.map String.toList :=
    Text.pieces_joinPieces (by simpa using hne) (by simpa using h)
  rw [pieces, String.toList_intercalate]
  exact (congrArg (List.map String.ofList) hpieces).trans (by simp)

/-- A path whose first piece is not empty is not one from the root. -/
theorem head?_of_pieces {p : Path} {first : String} {later : List String}
    (h : pieces p = first :: later) (hne : first ≠ "") :
    p.toList.head? ≠ some '/' := by
  intro hhead
  obtain ⟨s, hs⟩ := List.head?_eq_some_iff.mp hhead
  rw [pieces, hs, Text.pieces_separator, List.map_cons] at h
  exact hne (List.cons.inj h).1.symm

end Path

namespace Pattern

/-- The text of tokens that stand for themselves is made of them. -/
theorem mem_of_literalText {ts : List Token} {name : String}
    (h : literalText? ts = some name) {c : Char} (hc : c ∈ name.toList) :
    .literal c ∈ ts := by
  rw [literalText?] at h
  obtain ⟨cs, hcs, rfl⟩ := Option.map_eq_some_iff.mp h
  rw [String.toList_ofList] at hc
  clear h
  induction ts generalizing cs with
  | nil =>
      obtain rfl : [] = cs := Option.some.inj hcs
      exact absurd hc List.not_mem_nil
  | cons t ts ih =>
      rw [List.mapM_cons] at hcs
      obtain ⟨d, hd, hcs⟩ := Option.bind_eq_some_iff.mp hcs
      obtain ⟨ds, hds, hcs⟩ := Option.bind_eq_some_iff.mp hcs
      obtain rfl : d :: ds = cs := Option.some.inj hcs
      rcases List.mem_cons.mp hc with rfl | hc
      · split at hd
        · obtain rfl := Option.some.inj hd
          exact List.mem_cons_self
        · exact absurd hd (by simp)
      · exact List.mem_cons_of_mem _ (ih ds hds hc)

/-- A bracket is not a character, and takes its text off the front. -/
theorem bracket?_spec {s rest : List Char} {t : Token}
    (h : bracket? s = some (t, rest)) :
    (∀ c, t ≠ .literal c) ∧ ∀ c ∈ rest, c ∈ s := by
  have hlist : ∀ {s list rest : List Char},
      bracketList? s = some (list, rest) → ∀ c ∈ rest, c ∈ s := by
    intro s list rest h c hc
    cases s with
    | nil => simp [bracketList?] at h
    | cons d s =>
        rw [bracketList?] at h
        split at h
        · obtain ⟨-, rfl⟩ := Prod.mk.inj (Option.some.inj h)
          have hdrop := (List.dropWhile_suffix (l := s) (· ≠ ']')).subset
          exact List.mem_cons_of_mem _ (hdrop (List.mem_of_mem_drop hc))
        · exact absurd h (by simp)
  unfold bracket? at h
  split at h <;>
    obtain ⟨⟨list, r⟩, hl, he⟩ := Option.map_eq_some_iff.mp h <;>
    obtain ⟨rfl, rfl⟩ := Prod.mk.inj he
  · exact ⟨by simp, fun c hc => List.mem_cons_of_mem _ (hlist hl c hc)⟩
  · exact ⟨by simp, hlist hl⟩

/-- A character that stands for itself is one of the text. -/
theorem mem_of_tokens {position : Nat} {before : Option Char}
    {s : List Char} {ts : List Token}
    (h : tokens position before s = .ok ts) {c : Char}
    (hc : .literal c ∈ ts) : c ∈ s := by
  -- A token in front of others that are read off a later part.
  have hcons : ∀ {t : Token} {later : Except SyntaxError (List Token)}
      {ts : List Token}, later.map (t :: ·) = .ok ts → .literal c ∈ ts →
      t = .literal c ∨ ∃ us, later = .ok us ∧ .literal c ∈ us := by
    intro t later ts h hc
    cases later with
    | error e => exact absurd h (by simp [Except.map])
    | ok us =>
        obtain rfl : t :: us = ts := Except.ok.inj h
        rcases List.mem_cons.mp hc with h | h
        · exact .inl h.symm
        · exact .inr ⟨us, rfl, h⟩
  fun_induction tokens position before s generalizing ts with
  | case1 =>
      obtain rfl := Except.ok.inj h
      exact absurd hc List.not_mem_nil
  | case4 =>
      obtain rfl := Except.ok.inj h
      simp at hc
  | case2 | case3 | case6 | case9 => exact absurd h (by simp)
  | case5 _ _ _ rest _ ih | case7 _ _ rest _ _ ih | case8 _ _ rest _ ih =>
      rcases hcons h hc with h | ⟨us, hus, hc⟩
      · exact absurd h (by simp)
      · simp [ih hus hc]
  | case10 _ _ _ t rest hbracket =>
      rename_i ih
      obtain ⟨hnot, hrest⟩ := bracket?_spec hbracket
      rcases hcons h hc with h | ⟨us, hus, hc⟩
      · exact absurd h (hnot c)
      · exact List.mem_cons_of_mem _ (hrest c (ih hus hc))
  | case11 _ _ d _ _ _ _ ih =>
      rcases hcons h hc with h | ⟨us, hus, hc⟩
      · exact List.mem_cons.mpr (.inl (Token.literal.inj h).symm)
      · exact List.mem_cons_of_mem _ (ih hus hc)

/-- Collapsing makes no new components. -/
theorem mem_of_mem_collapse {components : List (List Token)} :
    ∀ component ∈ collapse components, component ∈ components := by
  fun_induction collapse components with
  | case1 a b rest _ ih =>
      exact fun c hc => List.mem_cons_of_mem _ (ih c hc)
  | case2 a b rest _ ih =>
      intro c hc
      rcases List.mem_cons.mp hc with rfl | hc
      · exact List.mem_cons_self
      · exact List.mem_cons_of_mem _ (ih c hc)
  | case3 => exact fun _ hc => hc

/-- A component of a text holds no slash. -/
theorem no_slash_componentTexts {s t : List Char}
    (h : t ∈ componentTexts s) : '/' ∉ t := by
  have hpieces := Text.not_mem_of_mem_pieces '/' s
  rw [componentTexts] at h
  split at h
  · simp_all
  · next p hp =>
      rw [hp] at hpieces
      exact hpieces t h
  · next ps _ _ =>
      split at h
      · exact hpieces t (List.dropLast_subset _ h)
      · exact hpieces t h

/-- **No component stands for a text with a slash.** -/
theorem no_slash_ofText {text : String} {p : Pattern}
    (h : ofText text = .ok p) :
    ∀ component ∈ p.components, .literal '/' ∉ component := by
  simp only [ofText, bind, Except.bind, pure, Except.pure] at h
  split at h
  · exact absurd h (by simp)
  · split at h
    · exact absurd h (by simp)
    · next components hcomponents =>
        obtain rfl := Except.ok.inj h
        intro component hmem hslash
        obtain ⟨t, ht, htokens⟩ :=
          exists_of_mapM hcomponents _ (mem_of_mem_collapse _ hmem)
        exact no_slash_componentTexts ht (mem_of_tokens htokens hslash)

end Pattern

/-! ## Sound places -/

/-- A place is where its path leads, and there is something there.  If the
path is too long to lead anywhere, the place may be known from a listing,
but not if the path means the working directory. -/
structure Place.Sound (disk : Disk) (p : Place) : Prop where
  ne_empty : p.path ≠ ""
  located : p.path.isTooLong = false → ∃ l, p.location = some l
    ∧ disk.locate? p.path = some l ∧ (disk.node? l).isSome = true
  lost : p.path.isTooLong = true → p.path.IsDotted → p.location = none

namespace Place.Sound

variable {disk : Disk} {p : Place}

/-- A sound place that is known and means the working directory has a path
that can be followed. -/
theorem not_tooLong_of_isHere (h : p.Sound disk) {l : Location}
    (hl : p.location = some l) (hhere : p.path.isHere = true) :
    p.path.isTooLong = false := by
  cases hlong : p.path.isTooLong with
  | false => rfl
  | true =>
      have hnone := h.lost hlong (Path.pieces_of_isHere hhere).2
      rw [hl] at hnone
      exact absurd hnone (by simp)

/-- A path behind that of a known place is followed from there. -/
theorem locate?_child (h : p.Sound disk) {l : Location}
    (hl : p.location = some l) {t : Path} (ht : t.toList.head? ≠ some '/')
    (hempty : p.path.isHere = true → t ≠ "")
    (hlong : (p.path.child t).isTooLong = false) :
    disk.locate? (p.path.child t) = disk.follow? l t.pieces := by
  have hplong : p.path.isTooLong = false := by
    by_cases hhere : p.path.isHere = true
    · exact h.not_tooLong_of_isHere hl hhere
    · rw [Path.child, if_neg hhere] at hlong
      exact Path.not_tooLong_of_join h.ne_empty hlong
  obtain ⟨l', hl', hlocate, -⟩ := h.located hplong
  obtain rfl : l = l' := Option.some.inj (hl.symm.trans hl')
  rw [Disk.locate?_child h.ne_empty hplong ht hempty hlong, hlocate]
  rfl

/-- So is a path that is joined to it with a slash. -/
theorem locate?_join (h : p.Sound disk) {l : Location}
    (hl : p.location = some l) {t : Path}
    (hlong : (p.path.join t).isTooLong = false) :
    disk.locate? (p.path.join t) = disk.follow? l t.pieces := by
  have hplong := Path.not_tooLong_of_join h.ne_empty hlong
  obtain ⟨l', hl', hlocate, -⟩ := h.located hplong
  obtain rfl : l = l' := Option.some.inj (hl.symm.trans hl')
  rw [Disk.locate?_join h.ne_empty hlong, hlocate]
  rfl

/-! ### Looking up a name -/

/-- What a name leads to is a sound place, if its path is followed from the
place and there is something. -/
theorem lookUp {l l' : Location} (hl : p.location = some l)
    {name : String} {path : Path} (hne : path ≠ "")
    (hlocate : path.isTooLong = false →
      disk.locate? path = disk.follow? l [name])
    (hfollow : disk.follow? l [name] = some l')
    (hsome : (disk.node? l').isSome = true) :
    (p.lookUp disk name path).Sound disk where
  ne_empty := hne
  located hlong := by
    have huse : path.isUsable = true := Disk.isUsable_iff.mpr ⟨hne, hlong⟩
    refine ⟨l', ?_, (hlocate hlong).trans hfollow, hsome⟩
    simp [Place.lookUp, huse, hl, hfollow]
  lost hlong _ := by
    simp [Place.lookUp, Path.isUsable, show path.isTooLong = true from hlong]

/-- A directory is left by `.` and `..` for something that is there. -/
theorem follow?_special (hwell : disk.WellFormed) {l : Location}
    (hdir : disk.hasDirectory l = true) {name : String}
    (hname : name = "." ∨ name = "..") : ∃ l',
      disk.follow? l [name] = some l' ∧ (disk.node? l').isSome = true := by
  have hsome : (disk.node? l).isSome = true := by
    rw [Disk.node?_of_hasDirectory hdir]
    rfl
  rcases hname with rfl | rfl
  · exact ⟨l, by simp [Disk.follow?, hdir], hsome⟩
  · have hup := hwell.hasDirectory_dropLast hsome
    refine ⟨l.dropLast, by simp [Disk.follow?, hdir], ?_⟩
    rw [Disk.node?_of_hasDirectory hup]
    rfl

/-- **A name without wildcards leads to sound places.** -/
theorem reach_name (hwell : disk.WellFormed) (h : p.Sound disk)
    {component : List Pattern.Token} {name : String}
    (hliteral : Pattern.literalText? component = some name)
    (hslash : '/' ∉ name.toList) {q : Place}
    (hq : .place q ∈ p.reach disk component) : q.Sound disk := by
  have hlocate : ∀ {l}, p.location = some l →
      (p.path.isHere = true → name ≠ "") →
      (p.path.child name).isTooLong = false →
      disk.locate? (p.path.child name) = disk.follow? l [name] := by
    intro l hl hempty hlong
    have hchild := h.locate?_child hl
      (fun hhead => hslash (List.mem_of_head? hhead)) hempty hlong
    rwa [Path.pieces_of_no_slash hslash] at hchild
  rw [Place.reach, hliteral] at hq
  dsimp only at hq
  by_cases hspecial : name = "." ∨ name = ".."
  · rw [if_pos hspecial] at hq
    have hname : name ≠ "" := by
      rcases hspecial with rfl | rfl <;> decide
    split at hq
    · next hdir =>
        obtain rfl := Finding.place.inj (List.mem_singleton.mp hq)
        obtain ⟨l, hl, hdir⟩ := (Option.any_eq_true _ _).mp hdir
        obtain ⟨l', hfollow, hsome⟩ := follow?_special hwell hdir hspecial
        exact lookUp hl (Path.child_ne_empty h.ne_empty fun _ => hname)
          (hlocate hl fun _ => hname) hfollow hsome
    · exact absurd hq List.not_mem_nil
  · rw [if_neg hspecial] at hq
    split at hq
    · next hthere =>
        obtain rfl := Finding.place.inj (List.mem_singleton.mp hq)
        obtain ⟨l', hl', hsome⟩ := (Option.any_eq_true _ _).mp hthere
        obtain ⟨huse, l, hl, hfollow⟩ :
            (p.path.child name).isUsable = true
              ∧ ∃ l, p.location = some l
                ∧ disk.follow? l [name] = some l' := by
          simpa [Place.lookUp, Option.bind_eq_some_iff] using hl'
        have hne := (Disk.isUsable_iff.mp huse).1
        have hname : p.path.isHere = true → name ≠ "" := by
          intro hhere
          rwa [Path.child, if_pos hhere] at hne
        exact lookUp hl hne (hlocate hl hname) hfollow hsome
    · exact absurd hq List.not_mem_nil

/-! ### Reading the names in a directory -/

/-- Only a directory that can be read is entered. -/
theorem of_mem_enter {inside : Location → List Finding} {q : Place}
    (hq : .place q ∈ p.enter disk inside) : ∃ l, p.location = some l
      ∧ disk.hasDirectory l = true ∧ .place q ∈ inside l := by
  rw [Place.enter] at hq
  split at hq
  · exact absurd hq List.not_mem_nil
  · next l hl =>
      obtain ⟨hl, hdir⟩ := Option.filter_eq_some_iff.mp hl
      refine ⟨l, hl, hdir, ?_⟩
      split at hq
      · exact absurd (List.mem_singleton.mp hq) (by simp)
      · exact hq

/-- The way down to what a directory holds leads to a sound place. -/
theorem under (hwell : disk.WellFormed) (h : p.Sound disk) {l : Location}
    (hl : p.location = some l) {names : List String} (hne : names ≠ [])
    {n : Node} (hmem : (l ++ names, n) ∈ disk.nodes) :
    Place.Sound disk ⟨p.path.under names, some (l ++ names)⟩ := by
  have hall : ∀ name ∈ names, IsName name := fun name hname =>
    hwell.names _ hmem name (List.mem_append_right l hname)
  have hpieces := Path.pieces_intercalate hne fun name hname =>
    (hall name hname).no_slash
  obtain ⟨first, later, rfl⟩ := List.exists_cons_of_ne_nil hne
  have hfirst := hall first List.mem_cons_self
  have hempty : String.intercalate "/" (first :: later) ≠ "" := by
    intro hnil
    have hsingle : first :: later = [""] := by rw [← hpieces, hnil]; rfl
    exact hfirst.ne_empty (List.cons.inj hsingle).1
  have hsome := Disk.isSome_node? hmem
  refine ⟨Path.child_ne_empty h.ne_empty fun _ => hempty, fun hlong => ?_,
    fun _ hdots => ?_⟩
  · refine ⟨_, rfl, ?_, hsome⟩
    have hlocate := h.locate?_child hl (Path.head?_of_pieces hpieces
      hfirst.ne_empty) (fun _ => hempty) hlong
    rw [hpieces, hwell.follow?_names hall hsome] at hlocate
    exact hlocate
  · have hdot := hdots.of_child h.ne_empty first (by simp [hpieces])
    exact absurd hdot (not_or.mpr ⟨hfirst.ne_empty, hfirst.ne_dot⟩)

/-- **Names that fit a component lead to sound places.** -/
theorem fittingChildren (hwell : disk.WellFormed) (h : p.Sound disk)
    {component : List Pattern.Token} {q : Place}
    (hq : .place q ∈ p.fittingChildren disk component) : q.Sound disk := by
  obtain ⟨l, hl, hdir, hq⟩ := of_mem_enter hq
  rcases List.mem_append.mp hq with hq | hq
  · obtain ⟨name, hname, hq⟩ := List.mem_map.mp hq
    obtain rfl := Finding.place.inj hq
    have hspecial : name = "." ∨ name = ".." := by
      split at hname
      · have hlisted := (List.mem_filter.mp hname).1
        simpa [or_comm] using hlisted
      · exact absurd hname List.not_mem_nil
    have hpieces : Path.pieces name = [name] := by
      rcases hspecial with rfl | rfl <;> rfl
    obtain ⟨l', hfollow, hsome⟩ := follow?_special hwell hdir hspecial
    refine lookUp hl (Path.join_ne_empty h.ne_empty name) (fun hlong => ?_)
      hfollow hsome
    rw [h.locate?_join hl hlong, hpieces]
  · obtain ⟨name, hname, hq⟩ := List.mem_map.mp hq
    obtain rfl := Finding.place.inj hq
    obtain ⟨n, hmem⟩ := Disk.mem_names (List.mem_filter.mp hname).1
    exact h.under hwell hl (List.cons_ne_nil name []) hmem

/-- **So do the ways down.** -/
theorem descend (hwell : disk.WellFormed) (h : p.Sound disk)
    {wanted : String → Place → Bool} {q : Place}
    (hq : .place q ∈ p.descend disk wanted) : q.Sound disk := by
  obtain ⟨l, hl, -, hq⟩ := of_mem_enter hq
  obtain ⟨names, hnames, hq⟩ := List.mem_flatMap.mp hq
  obtain ⟨hne, n, hmem⟩ := Disk.mem_below hnames
  split at hq
  · exact absurd hq List.not_mem_nil
  · rcases List.mem_append.mp hq with hq | hq
    · split at hq
      · obtain rfl := Finding.place.inj (List.mem_singleton.mp hq)
        exact h.under hwell hl hne hmem
      · exact absurd hq List.not_mem_nil
    · obtain ⟨-, -, -, hq⟩ := of_mem_enter hq
      exact absurd hq List.not_mem_nil

/-- **One component leads from a sound place to sound ones.** -/
theorem reach (hwell : disk.WellFormed) (h : p.Sound disk)
    {component : List Pattern.Token}
    (hslash : .literal '/' ∉ component) {q : Place}
    (hq : .place q ∈ p.reach disk component) : q.Sound disk := by
  cases hliteral : Pattern.literalText? component with
  | none =>
      rw [Place.reach, hliteral] at hq
      exact h.fittingChildren hwell hq
  | some name =>
      refine h.reach_name hwell hliteral (fun hmem => hslash ?_) hq
      exact Pattern.mem_of_literalText hliteral hmem

end Place.Sound

/-! ## The stages of a search -/

/-- A finding that is a place is a sound one. -/
def Finding.Sound (disk : Disk) (f : Finding) : Prop :=
  ∀ p, f = .place p → p.Sound disk

/-- The components of a stage are components of a path. -/
def Stage.IsPlain : Stage → Prop
  | .inside component => .literal '/' ∉ component
  | .below _ | .directories => True

variable {disk : Disk}

/-- **One stage leads from sound findings to sound ones.** -/
theorem Stage.follow_sound (hwell : disk.WellFormed) {stage : Stage}
    (hplain : stage.IsPlain) {f : Finding} (h : f.Sound disk) :
    ∀ g ∈ stage.follow disk f, g.Sound disk := by
  rintro g hg q rfl
  cases f with
  | unreadable dir cause => exact absurd (List.mem_singleton.mp hg) (by simp)
  | place p =>
      simp only [Stage.follow] at hg
      cases stage with
      | inside component => exact (h p rfl).reach hwell hplain hg
      | below component => exact (h p rfl).descend hwell hg
      | directories => exact (h p rfl).descend hwell hg

/-- **So do several, by induction on the stages.** -/
theorem expandFrom_sound (hwell : disk.WellFormed) {ss : List Stage}
    (hplain : ∀ stage ∈ ss, stage.IsPlain) {start : List Finding}
    (h : ∀ f ∈ start, f.Sound disk) :
    ∀ f ∈ expandFrom disk start ss, f.Sound disk := by
  rw [expandFrom]
  induction ss generalizing start with
  | nil => exact h
  | cons stage ss ih =>
      rw [List.foldl_cons]
      refine ih (fun s hs => hplain s (List.mem_cons_of_mem _ hs)) ?_
      intro g hg
      obtain ⟨f, hf, hg⟩ := List.mem_flatMap.mp (List.mem_eraseDups.mp hg)
      exact stage.follow_sound hwell (hplain stage List.mem_cons_self)
        (h f hf) g hg

/-- The stages of components of a path. -/
theorem isPlain_of_mem_stages {components : List (List Pattern.Token)}
    (h : ∀ component ∈ components, .literal '/' ∉ component) :
    ∀ stage ∈ stages components, stage.IsPlain := by
  fun_induction stages components with
  | case1 => simp
  | case2 => simp [Stage.IsPlain]
  | case3 c hdepth => simpa [Stage.IsPlain] using h
  | case4 c next rest hdepth ih =>
      have hrest := ih fun d hd => h d (by simp [hd])
      simpa [Stage.IsPlain] using hrest
  | case5 c next rest hdepth ih =>
      have hrest := ih fun d hd => h d (List.mem_cons_of_mem _ hd)
      simpa [Stage.IsPlain, h c List.mem_cons_self] using hrest

/-- A path that can be followed to something is a sound place. -/
theorem Place.Sound.ofPath {path : Path} {l : Location} (hne : path ≠ "")
    (hlong : path.isTooLong = false) (hl : disk.locate? path = some l)
    (hsome : (disk.node? l).isSome = true) :
    (Place.ofPath disk path).Sound disk :=
  ⟨hne, fun _ => ⟨l, hl, hl, hsome⟩,
    fun h => absurd (hlong.symm.trans h) (by simp)⟩

/-- A search starts from the root or the directory one stands in. -/
theorem sound_start (hwell : disk.WellFormed) (fromRoot : Bool) :
    (Place.ofPath disk (if fromRoot then "/" else ".")).Sound disk := by
  cases fromRoot with
  | true => exact .ofPath (l := []) (by simp) (by decide) (by rfl) (by rfl)
  | false =>
      have hdots := disk.locate?_of_isHere (p := ".") rfl (by decide)
      rw [if_pos hwell.home] at hdots
      refine .ofPath (by simp) (by decide) hdots ?_
      rw [Disk.node?_of_hasDirectory hwell.home]
      rfl

/-- **What a pattern matches are sound places.** -/
theorem expand_sound (hwell : disk.WellFormed) {text : String}
    {p : Pattern} (hp : Pattern.ofText text = .ok p) :
    ∀ f ∈ expand disk p, f.Sound disk := by
  have hstart : ∀ f ∈ [Finding.place (Place.ofPath disk
      (if p.fromRoot then "/" else "."))], f.Sound disk := by
    intro f hf q hq
    obtain rfl := Finding.place.inj ((List.mem_singleton.mp hf).symm.trans hq)
    exact sound_start hwell p.fromRoot
  have hfound := expandFrom_sound hwell
    (isPlain_of_mem_stages (Pattern.no_slash_ofText hp)) hstart
  intro f hf
  rw [expand] at hf
  split at hf
  · exact hfound f (List.mem_filter.mp hf).1
  · exact hfound f hf

/-! ## What is discovered -/

/-- An error that is reworded was an error before. -/
theorem mapError_eq_ok {ε ε' α : Type} {f : ε → ε'} {x : Except ε α} {a : α}
    (h : x.mapError f = .ok a) : x = .ok a := by
  cases x with
  | error e => exact absurd h (by simp [Except.mapError])
  | ok b => exact congrArg _ (Except.ok.inj h)

/-- There is a file where a sound place is no directory. -/
theorem Place.Sound.isFile {q : Place} (h : q.Sound disk)
    (hdir : disk.isDirectory q.path = false) :
    disk.isFile q.path = true ∨ q.path.isTooLong = true := by
  cases hlong : q.path.isTooLong with
  | true => exact .inr rfl
  | false =>
      obtain ⟨l, -, hl, hsome⟩ := h.located hlong
      obtain ⟨n, hn⟩ := Option.isSome_iff_exists.mp hsome
      refine .inl ?_
      rw [Disk.isDirectory, Disk.find?, hl, Option.bind_some, hn] at hdir
      rw [Disk.isFile, Disk.find?, hl, Option.bind_some, hn]
      simpa using hdir

/-- What is listed for a pattern is a file, unless its path is too long. -/
theorem isFile_of_filesOf (hwell : disk.WellFormed) {pattern : String}
    {paths : List Path} (h : filesOf disk pattern = .ok paths) :
    ∀ path ∈ paths, disk.isFile path = true ∨ path.isTooLong = true := by
  simp only [filesOf, bind, Except.bind, pure, Except.pure] at h
  split at h
  · exact absurd h (by simp)
  · next p hp =>
      split at h
      · exact absurd h (by simp)
      · next found hfound =>
          obtain rfl := Except.ok.inj h
          intro path hpath
          obtain ⟨hmem, hdir⟩ := List.mem_filter.mp hpath
          obtain ⟨f, hf, hfpath⟩ := exists_of_mapM hfound path hmem
          cases f with
          | unreadable dir cause =>
              exact absurd hfpath (by simp [Finding.pathFor])
          | place q =>
              obtain rfl : q.path = path := Except.ok.inj hfpath
              have hsound := expand_sound hwell (mapError_eq_ok hp) _ hf q rfl
              exact hsound.isFile (by simpa using hdir)

/-- **What is discovered is a file, unless its path is too long.** -/
theorem isFile_of_discover (hwell : disk.WellFormed)
    {patterns : List String} {sources : List Path}
    (h : discover disk patterns = .ok sources) :
    ∀ path ∈ sources, disk.isFile path = true ∨ path.isTooLong = true := by
  obtain ⟨found, hfound, rfl⟩ := discover_eq_ok.mp h
  intro path hpath
  have hlisted := (firstSeen_sublist [] found.flatten).subset hpath
  obtain ⟨paths, hpaths, hmem⟩ := List.mem_flatten.mp hlisted
  obtain ⟨pattern, -, hpattern⟩ := exists_of_mapM hfound paths hpaths
  exact isFile_of_filesOf hwell hpattern path hmem

end SoloScenario.Files
