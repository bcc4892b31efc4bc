import Mathlib
import SoloScenario.Proofs.Files.Search

/-!
# What is discovered is an ordered union

A search matches a list of paths to a pattern, or finds the pattern invalid
(`glob`).  Several patterns together find the union of their lists, without
the directories and without repetitions, in the order of the patterns and
of their lists (`OrderedUnion`).  This needs that no search meets a
directory which cannot be read (`Legible`).

* `firstSeen_append` — files that come later are kept unless they were
  found before;
* `OrderedUnion.unique` — the order and the members leave no choice;
* `discover_ordered_union` — the main statement, with what it says of
  patterns that are put together or repeated.
-/

namespace SoloScenario.Files

/-! ## The first of each group, list by list -/

/-- What was seen before is left out of what would be kept. -/
theorem firstSeen_eq_filter {seen before : List (List String)}
    (hsub : before ⊆ seen) (ps : List Path) :
    firstSeen seen ps
      = (firstSeen before ps).filter fun p => p.parts ∉ seen := by
  induction ps generalizing seen before with
  | nil => rfl
  | cons p ps ih =>
      rw [firstSeen, firstSeen]
      by_cases hbefore : p.parts ∈ before
      · rw [if_pos (hsub hbefore), if_pos hbefore]
        exact ih hsub
      · rw [if_neg hbefore]
        by_cases hseen : p.parts ∈ seen
        · rw [if_pos hseen, List.filter_cons_of_neg (by simpa using hseen)]
          exact ih (List.cons_subset.mpr ⟨hseen, hsub⟩)
        · rw [if_neg hseen, List.filter_cons_of_pos (by simpa using hseen),
            ih (List.cons_subset_cons p.parts hsub)]
          refine congrArg _ (List.filter_congr fun q hq => ?_)
          -- The parts of the first path are not met again.
          have hnew := (mem_parts_firstSeen _ ps q.parts).mp
            (List.mem_map_of_mem hq)
          have hne := (not_or.mp (mt List.mem_cons.mpr hnew.2)).1
          simp [hne]

/-- Only what was seen counts, not how often or in which order. -/
theorem firstSeen_congr {seen seen' : List (List String)}
    (h : ∀ k, k ∈ seen ↔ k ∈ seen') (ps : List Path) :
    firstSeen seen ps = firstSeen seen' ps := by
  rw [firstSeen_eq_filter (List.nil_subset seen),
    firstSeen_eq_filter (List.nil_subset seen')]
  simp only [h]

/-- Behind other paths, what was seen before and what was kept of these is left
out. -/
theorem firstSeen_append_seen (seen : List (List String))
    (ps qs : List Path) : firstSeen seen (ps ++ qs)
      = firstSeen seen ps ++ firstSeen (ps.map Path.parts ++ seen) qs := by
  induction ps generalizing seen with
  | nil => rfl
  | cons p ps ih =>
      rw [List.cons_append, firstSeen, firstSeen]
      split
      · next hseen =>
          rw [ih]
          refine congrArg _ (firstSeen_congr (fun k => ?_) qs)
          have hold : k = p.parts → k ∈ seen := fun h => h ▸ hseen
          simp only [List.map_cons, List.mem_append, List.mem_cons]
          tauto
      · rw [ih, List.cons_append]
        refine congrArg _ (congrArg _ (firstSeen_congr (fun k => ?_) qs))
        simp only [List.map_cons, List.mem_append, List.mem_cons]
        tauto

/-- **Of the files that come later, those are kept that are new.** -/
theorem firstSeen_append (ps qs : List Path) :
    firstSeen [] (ps ++ qs) = firstSeen [] ps
      ++ (firstSeen [] qs).filter fun q =>
        q.parts ∉ (firstSeen [] ps).map Path.parts := by
  have hsame : ∀ k, k ∈ ps.map Path.parts ++ []
      ↔ k ∈ (firstSeen [] ps).map Path.parts := fun k => by
    simp [mem_parts_firstSeen]
  rw [firstSeen_append_seen, firstSeen_congr hsame]
  exact congrArg _ (firstSeen_eq_filter (List.nil_subset _) qs)

/-- Files that were all found before change nothing. -/
theorem firstSeen_append_covered {ps qs : List Path}
    (hcovered : ∀ q ∈ qs, q.parts ∈ ps.map Path.parts) (rs : List Path) :
    firstSeen [] (ps ++ (qs ++ rs)) = firstSeen [] (ps ++ rs) := by
  have hnone : firstSeen (ps.map Path.parts ++ []) qs = [] := by
    refine List.eq_nil_iff_forall_not_mem.mpr fun q hq => ?_
    have hnew := (mem_parts_firstSeen _ qs _).mp (List.mem_map_of_mem hq)
    have hmem := hcovered q ((firstSeen_sublist _ qs).subset hq)
    exact hnew.2 (List.mem_append_left [] hmem)
  rw [firstSeen_append_seen, firstSeen_append_seen, firstSeen_append_seen,
    hnone, List.nil_append]
  refine congrArg _ (firstSeen_congr (fun k => ?_) rs)
  rw [List.mem_append, or_iff_right_iff_imp]
  intro hk
  obtain ⟨q, hq, rfl⟩ := List.mem_map.mp hk
  exact List.mem_append_left [] (hcovered q hq)

/-! ## Ordered unions -/

/-- The place in a list where the parts of a path are met first. -/
def firstPlace (ps : List Path) (x : Path) : Nat :=
  ps.findIdx fun p => p.parts = x.parts

/-- The first of some lists in which the parts of a path are met. -/
def firstList (lists : List (List Path)) (x : Path) : Nat :=
  lists.findIdx fun ps => (ps.map Path.parts).contains x.parts

/-- The list in which the parts of a path are met first, and the place in
it; the list counts for more than the place. -/
def rank (lists : List (List Path)) (x : Path) : Nat ×ₗ Nat :=
  toLex (firstList lists x,
    firstPlace (lists.getD (firstList lists x) []) x)

/-- The paths of some lists, each once, by the first list that has it and
then by the order of that list.  Paths with the same parts are one, which
is spelled as it is met first. -/
structure OrderedUnion (lists : List (List Path)) (xs : List Path) :
    Prop where
  distinct : (xs.map Path.parts).Nodup
  listed : ∀ x ∈ xs, ∃ ps, lists[(ofLex (rank lists x)).1]? = some ps
    ∧ ps[(ofLex (rank lists x)).2]? = some x
  complete : ∀ ps ∈ lists, ∀ p ∈ ps, p.parts ∈ xs.map Path.parts
  ordered : xs.Pairwise fun x y => rank lists x < rank lists y

/-- The rank of a path depends on its parts only. -/
theorem rank_eq_of_parts {lists : List (List Path)} {x y : Path}
    (h : x.parts = y.parts) : rank lists x = rank lists y := by
  simp only [rank, firstList, firstPlace, h]

/-- Two ordered unions have the same members. -/
theorem OrderedUnion.subset {lists : List (List Path)} {xs ys : List Path}
    (hx : OrderedUnion lists xs) (hy : OrderedUnion lists ys) : xs ⊆ ys := by
  intro x hmem
  obtain ⟨ps, hps, hplace⟩ := hx.listed x hmem
  obtain ⟨y, hymem, hparts⟩ := List.mem_map.mp
    (hy.complete ps (List.mem_of_getElem? hps) x
      (List.mem_of_getElem? hplace))
  obtain ⟨qs, hqs, hplace'⟩ := hy.listed y hymem
  rw [rank_eq_of_parts hparts] at hqs hplace'
  obtain rfl : ps = qs := Option.some.inj (hps.symm.trans hqs)
  obtain rfl : x = y := Option.some.inj (hplace.symm.trans hplace')
  exact hymem

/-- **There is one ordered union.** -/
theorem OrderedUnion.unique {lists : List (List Path)} {xs ys : List Path}
    (hx : OrderedUnion lists xs) (hy : OrderedUnion lists ys) : xs = ys := by
  have hperm : xs.Perm ys :=
    (List.perm_ext_iff_of_nodup hx.distinct.of_map hy.distinct.of_map).mpr
      fun x => ⟨fun h => hx.subset hy h, fun h => hy.subset hx h⟩
  exact hperm.eq_of_pairwise
    (fun x y _ _ hxy hyx => absurd hyx (lt_asymm hxy)) hx.ordered hy.ordered

section FirstPlace

variable {seen : List (List String)} {ps : List Path} {x : Path}

/-- A path behind another one has a later place. -/
theorem firstPlace_cons_of_ne {p : Path} (h : p.parts ≠ x.parts) :
    firstPlace (p :: ps) x = firstPlace ps x + 1 := by
  simp [firstPlace, List.findIdx_cons, h]

/-- A path is at its own place. -/
theorem firstPlace_cons_self : firstPlace (x :: ps) x = 0 := by
  simp [firstPlace, List.findIdx_cons]

/-- What is kept has not been seen before. -/
theorem ne_of_mem_firstSeen {p : Path}
    (hx : x ∈ firstSeen seen ps) (hp : p.parts ∈ seen) :
    p.parts ≠ x.parts := by
  have hnew := (mem_parts_firstSeen seen ps x.parts).mp
    (List.mem_map_of_mem hx)
  exact fun h => hnew.2 (h ▸ hp)

/-- A path that is kept is spelled as it is met first. -/
theorem getElem?_firstPlace (hx : x ∈ firstSeen seen ps) :
    ps[firstPlace ps x]? = some x := by
  fun_induction firstSeen seen ps with
  | case1 => exact absurd hx List.not_mem_nil
  | case2 seen p ps hseen ih =>
      rw [firstPlace_cons_of_ne (ne_of_mem_firstSeen hx hseen),
        List.getElem?_cons_succ]
      exact ih hx
  | case3 seen p ps hseen ih =>
      rcases List.mem_cons.mp hx with rfl | hx
      · rw [firstPlace_cons_self, List.getElem?_cons_zero]
      · rw [firstPlace_cons_of_ne
            (ne_of_mem_firstSeen hx List.mem_cons_self),
          List.getElem?_cons_succ]
        exact ih hx

/-- What is kept of a list keeps its order. -/
theorem pairwise_firstPlace (seen : List (List String)) (ps : List Path) :
    (firstSeen seen ps).Pairwise fun x y =>
      firstPlace ps x < firstPlace ps y := by
  fun_induction firstSeen seen ps with
  | case1 => exact .nil
  | case2 seen p ps hseen ih =>
      refine ih.imp_of_mem fun hx hy hlt => ?_
      rw [firstPlace_cons_of_ne (ne_of_mem_firstSeen hx hseen),
        firstPlace_cons_of_ne (ne_of_mem_firstSeen hy hseen)]
      exact Nat.succ_lt_succ hlt
  | case3 seen p ps hseen ih =>
      have hlater : ∀ x ∈ firstSeen (p.parts :: seen) ps,
          firstPlace (p :: ps) x = firstPlace ps x + 1 := fun x hx =>
        firstPlace_cons_of_ne (ne_of_mem_firstSeen hx List.mem_cons_self)
      refine List.pairwise_cons.mpr ⟨fun y hy => ?_, ?_⟩
      · rw [firstPlace_cons_self, hlater y hy]
        exact Nat.succ_pos _
      · refine ih.imp_of_mem fun hx hy hlt => ?_
        rw [hlater _ hx, hlater _ hy]
        exact Nat.succ_lt_succ hlt

end FirstPlace

section Rank

variable {ps : List Path} {lists : List (List Path)} {x : Path}

/-- In the first list that has it, a path is ranked by its place. -/
theorem rank_cons_of_mem (h : x.parts ∈ ps.map Path.parts) :
    rank (ps :: lists) x = toLex (0, firstPlace ps x) := by
  simp only [rank, firstList, List.findIdx_cons, List.contains_eq_mem, h,
    decide_true, cond_true, List.getD_cons_zero]

/-- Behind a list that does not have it, its list has a higher number. -/
theorem rank_cons_of_not_mem (h : x.parts ∉ ps.map Path.parts) :
    rank (ps :: lists) x
      = toLex ((ofLex (rank lists x)).1 + 1, (ofLex (rank lists x)).2) := by
  simp only [rank, firstList, List.findIdx_cons, List.contains_eq_mem, h,
    decide_false, cond_false, List.getD_cons_succ, ofLex_toLex]

/-- What is new to those kept of a list is new to the list. -/
theorem not_mem_of_new
    (h : decide (x.parts ∉ (firstSeen [] ps).map Path.parts) = true) :
    x.parts ∉ ps.map Path.parts := fun hmem =>
  of_decide_eq_true h
    ((mem_parts_firstSeen [] ps _).mpr ⟨hmem, List.not_mem_nil⟩)

end Rank

/-- **What is kept of some lists is their ordered union.** -/
theorem orderedUnion_firstSeen (lists : List (List Path)) :
    OrderedUnion lists (firstSeen [] lists.flatten) := by
  refine ⟨nodup_parts_firstSeen [] _, ?listed,
    fun ps hps p hp => ?complete, ?ordered⟩
  case complete =>
    refine (mem_parts_firstSeen [] _ _).mpr ⟨?_, List.not_mem_nil⟩
    exact List.mem_map_of_mem (List.mem_flatten.mpr ⟨ps, hps, hp⟩)
  case listed =>
    induction lists with
    | nil => simp [firstSeen]
    | cons ps lists ih =>
        intro x hx
        rw [List.flatten_cons, firstSeen_append] at hx
        rcases List.mem_append.mp hx with hx | hx
        · have hmem := (firstSeen_sublist [] ps).subset hx
          rw [rank_cons_of_mem (List.mem_map_of_mem hmem)]
          exact ⟨ps, rfl, getElem?_firstPlace hx⟩
        · obtain ⟨hx, hnew⟩ := List.mem_filter.mp hx
          rw [rank_cons_of_not_mem (not_mem_of_new hnew)]
          simpa using ih x hx
  case ordered =>
    induction lists with
    | nil => exact .nil
    | cons ps lists ih =>
        rw [List.flatten_cons, firstSeen_append]
        have hhere : ∀ x ∈ firstSeen [] ps, rank (ps :: lists) x
            = toLex (0, firstPlace ps x) := fun x hx =>
          rank_cons_of_mem
            (List.mem_map_of_mem ((firstSeen_sublist [] ps).subset hx))
        have hlater : ∀ x ∈ (firstSeen [] lists.flatten).filter
            (fun q => q.parts ∉ (firstSeen [] ps).map Path.parts),
            rank (ps :: lists) x = toLex ((ofLex (rank lists x)).1 + 1,
              (ofLex (rank lists x)).2) := fun x hx =>
          rank_cons_of_not_mem (not_mem_of_new (List.mem_filter.mp hx).2)
        refine List.pairwise_append.mpr ⟨?_, ?_, fun x hx y hy => ?_⟩
        · refine (pairwise_firstPlace [] ps).imp_of_mem fun hx hy hlt => ?_
          rw [hhere _ hx, hhere _ hy, Prod.Lex.toLex_lt_toLex]
          exact .inr ⟨rfl, hlt⟩
        · refine (ih.filter _).imp_of_mem fun hx hy hlt => ?_
          rw [hlater _ hx, hlater _ hy, Prod.Lex.toLex_lt_toLex]
          rw [Prod.Lex.lt_iff] at hlt
          exact hlt.imp Nat.succ_lt_succ (And.imp_left (congrArg (· + 1)))
        · rw [hhere x hx, hlater y hy, Prod.Lex.toLex_lt_toLex]
          exact .inl (Nat.succ_pos _)

/-! ## Patterns -/

/-- The path of a place. -/
def Finding.path? : Finding → Option Path
  | .place p => some p.path
  | .unreadable _ _ => none

/-- The paths that a pattern matches, directories among them, or why it is
invalid. -/
def glob (disk : Disk) (pattern : String) :
    Except Pattern.SyntaxError (List Path) :=
  (Pattern.ofText pattern).map fun p =>
    (expand disk p).filterMap Finding.path?

/-- The search for a pattern meets no directory that cannot be read. -/
def Legible (disk : Disk) (pattern : String) : Prop :=
  ∀ p, Pattern.ofText pattern = .ok p →
    ∀ dir cause, .unreadable dir cause ∉ expand disk p

/-- A pattern that is not invalid. -/
def IsValid (disk : Disk) (pattern : String) : Prop :=
  ∃ paths, glob disk pattern = .ok paths

/-- What a pattern matches and is not a directory. -/
def matchedFiles (disk : Disk) (pattern : String) : List Path :=
  ((glob disk pattern).toOption.getD []).filter (!disk.isDirectory ·)

variable {disk : Disk} {ps qs rs : List String} {p q : String}

/-- Findings that can be read have their paths listed. -/
theorem mapM_pathFor (pattern : String) {found : List Finding}
    (h : ∀ dir cause, .unreadable dir cause ∉ found) :
    found.mapM (Finding.pathFor pattern)
      = .ok (found.filterMap Finding.path?) := by
  induction found with
  | nil => rfl
  | cons f found ih =>
      have hrest := ih fun dir cause hmem =>
        h dir cause (List.mem_cons_of_mem f hmem)
      cases f with
      | unreadable dir cause => exact absurd List.mem_cons_self (h dir cause)
      | place q => exact mapM_cons_eq_ok.mpr ⟨q.path, _, rfl, hrest, rfl⟩

/-- A pattern whose search can be made lists its files, or is invalid. -/
theorem filesOf_eq (h : Legible disk p) : filesOf disk p
    = ((glob disk p).mapError (.invalid p)).map
      (List.filter (!disk.isDirectory ·)) := by
  cases hp : Pattern.ofText p with
  | error e => simp only [filesOf, glob, hp]; rfl
  | ok pattern =>
      have hpaths := mapM_pathFor p (h pattern hp)
      simp only [filesOf, glob, hp, Except.mapError, bind, Except.bind,
        hpaths]
      rfl

/-- A valid pattern whose directories can be read has the files that it
matches. -/
theorem filesOf_of_valid (h : Legible disk p) (hp : IsValid disk p) :
    filesOf disk p = .ok (matchedFiles disk p) := by
  obtain ⟨paths, hpaths⟩ := hp
  rw [filesOf_eq h, matchedFiles, hpaths]
  rfl

/-- An invalid pattern has none. -/
theorem filesOf_of_invalid (h : Legible disk p) {e : Pattern.SyntaxError}
    (hp : glob disk p = .error e) :
    filesOf disk p = .error (.invalid p e) := by
  rw [filesOf_eq h, hp]
  rfl

/-! ## Discovery -/

/-- Discovering keeps the first of each file that the patterns have. -/
theorem discover_eq (disk : Disk) (ps : List String) : discover disk ps
    = (ps.mapM (filesOf disk)).map fun found =>
      firstSeen [] found.flatten := by
  rw [discover]
  cases ps.mapM (filesOf disk) <;> rfl

/-- What succeeds for each item succeeds for the list. -/
theorem mapM_eq_ok {α β ε : Type} {f : α → Except ε β} {g : α → β}
    {xs : List α} (h : ∀ x ∈ xs, f x = .ok (g x)) :
    xs.mapM f = .ok (xs.map g) := by
  induction xs with
  | nil => rfl
  | cons x xs ih =>
      obtain ⟨hx, hxs⟩ := List.forall_mem_cons.mp h
      exact mapM_cons_eq_ok.mpr ⟨_, _, hx, ih hxs, rfl⟩

/-- A list that is gone through in two parts. -/
theorem mapM_append_eq {α β ε : Type} (f : α → Except ε β)
    (xs ys : List α) : (xs ++ ys).mapM f
      = (xs.mapM f).bind fun as => (ys.mapM f).map (as ++ ·) := by
  rw [List.mapM_append]
  rfl

/-- Valid patterns find the files that they match. -/
theorem discover_of_valid
    (h : ∀ p ∈ ps, Legible disk p ∧ IsValid disk p) : discover disk ps
      = .ok (firstSeen [] (ps.map (matchedFiles disk)).flatten) := by
  rw [discover_eq,
    mapM_eq_ok fun p hp => filesOf_of_valid (h p hp).1 (h p hp).2]
  rfl

/-- The first invalid pattern is what discovery fails with. -/
theorem discover_of_invalid (h : ∀ q ∈ ps ++ p :: rs, Legible disk q)
    (hvalid : ∀ q ∈ ps, IsValid disk q) {e : Pattern.SyntaxError}
    (hp : glob disk p = .error e) :
    discover disk (ps ++ p :: rs) = .error (.invalid p e) := by
  obtain ⟨hps, hrest⟩ := List.forall_mem_append.mp h
  have hfront := mapM_eq_ok fun q hq =>
    filesOf_of_valid (hps q hq) (hvalid q hq)
  rw [discover_eq, mapM_append_eq, hfront, List.mapM_cons,
    filesOf_of_invalid (hrest p List.mem_cons_self) hp]
  rfl

/-- Either all patterns are valid, or one of them is the first that is
not. -/
theorem valid_or_first_invalid (disk : Disk) (ps : List String) :
    (∀ p ∈ ps, IsValid disk p) ∨ ∃ before p after e,
      ps = before ++ p :: after ∧ (∀ q ∈ before, IsValid disk q)
        ∧ glob disk p = .error e := by
  induction ps with
  | nil => exact .inl (by simp)
  | cons p ps ih =>
      cases hp : glob disk p with
      | error e => exact .inr ⟨[], p, ps, e, rfl, by simp, hp⟩
      | ok paths =>
          refine ih.imp (fun h => List.forall_mem_cons.mpr ⟨⟨paths, hp⟩, h⟩)
            fun ⟨before, q, after, e, hsplit, hbefore, hq⟩ => ?_
          exact ⟨p :: before, q, after, e, by rw [hsplit]; rfl,
            List.forall_mem_cons.mpr ⟨⟨paths, hp⟩, hbefore⟩, hq⟩

/-- Discovery fails exactly if some pattern is invalid. -/
theorem discover_fails_iff (h : ∀ p ∈ ps, Legible disk p) :
    (∃ e, discover disk ps = .error e) ↔ ∃ p ∈ ps, ¬ IsValid disk p := by
  constructor
  · rintro ⟨e, he⟩
    by_contra hnone
    push Not at hnone
    have hfound := discover_of_valid fun p hp => ⟨h p hp, hnone p hp⟩
    exact absurd (he.symm.trans hfound) (by simp)
  · rintro ⟨p, hp, hinvalid⟩
    rcases valid_or_first_invalid disk ps with
      hvalid | ⟨before, q, after, e, rfl, hbefore, hq⟩
    · exact absurd (hvalid p hp) hinvalid
    · exact ⟨_, discover_of_invalid h hbefore hq⟩

/-- Valid patterns find the ordered union of their files. -/
theorem discover_orderedUnion
    (h : ∀ p ∈ ps, Legible disk p ∧ IsValid disk p) :
    ∃ sources, discover disk ps = .ok sources
      ∧ ∀ xs, OrderedUnion (ps.map (matchedFiles disk)) xs
        ↔ xs = sources := by
  refine ⟨_, discover_of_valid h, fun xs => ⟨?_, ?_⟩⟩
  · exact fun hxs => hxs.unique (orderedUnion_firstSeen _)
  · rintro rfl
    exact orderedUnion_firstSeen _

/-- **The files of more patterns are those of the first ones, then those of the
others that are new.** -/
theorem discover_append
    (h : ∀ p ∈ ps ++ qs, Legible disk p ∧ IsValid disk p) :
    ∃ xs ys, discover disk ps = .ok xs ∧ discover disk qs = .ok ys
      ∧ discover disk (ps ++ qs)
        = .ok (xs ++ ys.filter fun y => y.parts ∉ xs.map Path.parts) := by
  obtain ⟨hps, hqs⟩ := List.forall_mem_append.mp h
  refine ⟨_, _, discover_of_valid hps, discover_of_valid hqs, ?_⟩
  rw [discover_of_valid h, List.map_append, List.flatten_append,
    firstSeen_append]

/-- A pattern that finds nothing new changes nothing. -/
theorem discover_append_covered {paths : List Path}
    (hq : filesOf disk q = .ok paths)
    (hcovered : ∀ found, ps.mapM (filesOf disk) = .ok found →
      ∀ x ∈ paths, x.parts ∈ found.flatten.map Path.parts) :
    discover disk (ps ++ q :: rs) = discover disk (ps ++ rs) := by
  rw [discover_eq, discover_eq, mapM_append_eq, mapM_append_eq,
    List.mapM_cons, hq]
  cases hfront : ps.mapM (filesOf disk) with
  | error e => rfl
  | ok found =>
      cases rs.mapM (filesOf disk) with
      | error e => rfl
      | ok later =>
          have hsame := firstSeen_append_covered (hcovered found hfront)
            later.flatten
          rw [← List.flatten_append, ← List.flatten_cons,
            ← List.flatten_append] at hsame
          exact congrArg Except.ok hsame

/-- A pattern whose files others match changes nothing behind them. -/
theorem discover_append_matched
    (h : ∀ p ∈ q :: ps, Legible disk p ∧ IsValid disk p)
    (hcovered : ∀ x ∈ matchedFiles disk q, ∃ p ∈ ps,
      x.parts ∈ (matchedFiles disk p).map Path.parts) :
    discover disk (ps ++ q :: rs) = discover disk (ps ++ rs) := by
  obtain ⟨hq, hps⟩ := List.forall_mem_cons.mp h
  refine discover_append_covered (filesOf_of_valid hq.1 hq.2)
    fun found hfound x hx => ?_
  obtain rfl : ps.map (matchedFiles disk) = found :=
    Except.ok.inj ((mapM_eq_ok fun p hp =>
      filesOf_of_valid (hps p hp).1 (hps p hp).2).symm.trans hfound)
  obtain ⟨p, hp, hmem⟩ := hcovered x hx
  obtain ⟨y, hy, hparts⟩ := List.mem_map.mp hmem
  rw [← hparts]
  exact List.mem_map_of_mem
    (List.mem_flatten.mpr ⟨_, List.mem_map_of_mem hp, hy⟩)

/-- A pattern that has been searched for before changes nothing. -/
theorem discover_append_repeated (hp : p ∈ ps) :
    discover disk (ps ++ p :: rs) = discover disk (ps ++ rs) := by
  have hfiles : ∀ found, ps.mapM (filesOf disk) = .ok found →
      ∃ paths ∈ found, filesOf disk p = .ok paths := by
    intro found hfound
    induction ps generalizing found with
    | nil => exact absurd hp List.not_mem_nil
    | cons q ps ih =>
        obtain ⟨paths, later, hq, hlater, rfl⟩ := mapM_cons_eq_ok.mp hfound
        rcases List.mem_cons.mp hp with rfl | hp
        · exact ⟨paths, List.mem_cons_self, hq⟩
        · obtain ⟨paths', hmem, hpaths⟩ := ih hp later hlater
          exact ⟨paths', List.mem_cons_of_mem _ hmem, hpaths⟩
  cases hpaths : filesOf disk p with
  | ok paths =>
      refine discover_append_covered hpaths fun found hfound x hx => ?_
      obtain ⟨paths', hmem, hpaths'⟩ := hfiles found hfound
      obtain rfl := Except.ok.inj (hpaths.symm.trans hpaths')
      exact List.mem_map_of_mem (List.mem_flatten.mpr ⟨paths, hmem, hx⟩)
  | error e =>
      have hfails : ∃ e, ps.mapM (filesOf disk) = .error e := by
        cases hfront : ps.mapM (filesOf disk) with
        | error e => exact ⟨e, rfl⟩
        | ok found =>
            obtain ⟨paths, -, hok⟩ := hfiles found hfront
            exact absurd (hpaths.symm.trans hok) (by simp)
      obtain ⟨e, hfails⟩ := hfails
      rw [discover_eq, discover_eq, mapM_append_eq, mapM_append_eq, hfails]
      rfl

/-- **What is discovered is an ordered union.**  Let every pattern be one
whose search meets no directory that cannot be read.

* Discovery fails if and only if a pattern is invalid, and with the first
  that is.
* If all are valid it finds the ordered union of the files that they match,
  and nothing else would be one.
* Patterns that are put together find what the first of them find, and
  then what the others find that is new.
* A pattern changes nothing behind others that match all of its files, and
  none does where it is repeated. -/
theorem discover_ordered_union (disk : Disk) :
    (∀ ps, (∀ p ∈ ps, Legible disk p) →
      ((∃ e, discover disk ps = .error e) ↔ ∃ p ∈ ps, ¬ IsValid disk p)
      ∧ (∀ before p after, ps = before ++ p :: after →
        (∀ q ∈ before, IsValid disk q) → ∀ e, glob disk p = .error e →
          discover disk ps = .error (.invalid p e))
      ∧ ((∀ p ∈ ps, IsValid disk p) → ∃ sources,
        discover disk ps = .ok sources
          ∧ ∀ xs, OrderedUnion (ps.map (matchedFiles disk)) xs
            ↔ xs = sources))
    ∧ (∀ ps qs, (∀ p ∈ ps ++ qs, Legible disk p ∧ IsValid disk p) →
      ∃ xs ys, discover disk ps = .ok xs ∧ discover disk qs = .ok ys
        ∧ discover disk (ps ++ qs)
          = .ok (xs ++ ys.filter fun y => y.parts ∉ xs.map Path.parts))
    ∧ (∀ ps q rs, (∀ p ∈ q :: ps, Legible disk p ∧ IsValid disk p) →
      (∀ x ∈ matchedFiles disk q, ∃ p ∈ ps,
        x.parts ∈ (matchedFiles disk p).map Path.parts) →
      discover disk (ps ++ q :: rs) = discover disk (ps ++ rs))
    ∧ (∀ ps p rs, p ∈ ps →
      discover disk (ps ++ p :: rs) = discover disk (ps ++ rs)) := by
  refine ⟨fun ps h => ⟨discover_fails_iff h, ?_, fun hvalid => ?_⟩,
    fun ps qs => discover_append, fun ps q rs => discover_append_matched,
    fun ps p rs => discover_append_repeated⟩
  · rintro before p after rfl hbefore e hp
    exact discover_of_invalid h hbefore hp
  · exact discover_orderedUnion fun p hp => ⟨h p hp, hvalid p hp⟩

namespace Overlap

/-- A disk with two files and a directory. -/
def sample : Disk where
  nodes := [(["b"], .file ⟨#[]⟩), (["a"], .file ⟨#[]⟩), (["d"], .directory)]
  workingDirectory := []

/-- A pattern that only finds places meets no directory that it cannot read. -/
theorem legible_of_expand {disk : Disk} {text : String} {p : Pattern}
    (places : List Place) (hp : Pattern.ofText text = .ok p)
    (hfound : expand disk p = places.map .place) : Legible disk text := by
  intro p' hp' dir cause hmem
  obtain rfl := Except.ok.inj (hp.symm.trans hp')
  rw [hfound] at hmem
  simp at hmem

/-- A pattern that is read is valid. -/
theorem valid_of_ofText {disk : Disk} {text : String} {p : Pattern}
    (hp : Pattern.ofText text = .ok p) : IsValid disk text :=
  ⟨_, congrArg (Except.map _) hp⟩

/-- A star is read as one component. -/
theorem ofText_star :
    Pattern.ofText "*" = .ok ⟨false, [[.anyRun]], false⟩ := by cbv

/-- A path behind a dot is read as two components. -/
theorem ofText_b : Pattern.ofText "./b"
    = .ok ⟨false, [[.literal '.'], [.literal 'b']], false⟩ := by cbv

/-- An open bracket is no pattern. -/
theorem ofText_open : Pattern.ofText "[" = .error ⟨0, .openRange⟩ := by cbv

/-- The star can be searched for in the sample. -/
theorem legible_star : Legible sample "*" :=
  legible_of_expand [⟨"a", some ["a"]⟩, ⟨"b", some ["b"]⟩,
    ⟨"d", some ["d"]⟩] ofText_star (by cbv)

/-- So can the path behind a dot. -/
theorem legible_b : Legible sample "./b" :=
  legible_of_expand [⟨"b", some ["b"]⟩] ofText_b (by cbv)

/-- Nothing is searched for an open bracket. -/
theorem legible_open : Legible sample "[" := fun _ hp =>
  absurd (ofText_open.symm.trans hp) (by simp)

end Overlap

open Overlap in
/-- The file that the first pattern names comes first, the other one
second, and the directory not at all; the pattern that is invalid fails
the whole; and the file that is matched by a wildcard is not found again
under its name. -/
theorem discover_ordered_union_sample :
    (∀ p ∈ ["./b", "*", "["], Legible sample p)
      ∧ (∀ p ∈ ["./b", "*"], IsValid sample p)
      ∧ discover sample ["./b", "*"] = .ok ["b", "a"]
      ∧ OrderedUnion (["./b", "*"].map (matchedFiles sample)) ["b", "a"]
      ∧ discover sample ["./b", "*", "["]
        = .error (.invalid "[" ⟨0, .openRange⟩)
      ∧ discover sample (["./b"] ++ ["*"]) = .ok (["b"] ++ ["a", "b"].filter
        fun y => Path.parts y ∉ ["b"].map Path.parts)
      ∧ discover sample (["*"] ++ "./b" :: []) = discover sample ["*"]
      ∧ discover sample (["*"] ++ "*" :: []) = discover sample ["*"] := by
  have hvalid : ∀ p ∈ ["./b", "*"], IsValid sample p := by
    simp [valid_of_ofText ofText_b, valid_of_ofText ofText_star]
  have hlegible : ∀ p ∈ ["./b", "*", "["], Legible sample p := by
    simp [legible_b, legible_star, legible_open]
  have hboth : ∀ p ∈ ["./b", "*"], Legible sample p ∧ IsValid sample p :=
    fun p hp => ⟨hlegible p (List.mem_append_left ["["] hp), hvalid p hp⟩
  have htwo : discover sample ["./b", "*"] = .ok ["b", "a"] := by cbv
  have hb : discover sample ["./b"] = .ok ["b"] := by cbv
  have hstar : discover sample ["*"] = .ok ["a", "b"] := by cbv
  have hfiles : matchedFiles sample "./b" = ["b"]
      ∧ matchedFiles sample "*" = ["a", "b"] := by
    constructor <;> cbv
  obtain ⟨hunion, hparts, hcovered, hrepeated⟩ :=
    discover_ordered_union sample
  obtain ⟨-, -, hfound⟩ := hunion ["./b", "*"] fun p hp => (hboth p hp).1
  obtain ⟨sources, hsources, hexact⟩ := hfound hvalid
  obtain rfl := Except.ok.inj (htwo.symm.trans hsources)
  obtain ⟨-, hfails, -⟩ := hunion ["./b", "*", "["] hlegible
  obtain ⟨xs, ys, hxs, hys, happend⟩ := hparts ["./b"] ["*"] hboth
  obtain rfl := Except.ok.inj (hb.symm.trans hxs)
  obtain rfl := Except.ok.inj (hstar.symm.trans hys)
  refine ⟨hlegible, hvalid, htwo, (hexact _).mpr rfl,
    hfails ["./b", "*"] "[" [] rfl hvalid _ (by rw [glob, ofText_open]; rfl),
    happend, hcovered ["*"] "./b" [] hboth ?_, hrepeated ["*"] "*" [] ?_⟩
  · simp [hfiles]
  · exact List.mem_singleton.mpr rfl

end SoloScenario.Files
