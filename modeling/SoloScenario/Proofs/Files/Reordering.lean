import SoloScenario.Proofs.Files.Search

/-!
# Patterns in another order

The order of the patterns settles in which order files are found, and
which of several paths with the same parts is kept.  It settles neither
whether there is an error nor which parts are found (`discover_perm`).

Paths with the same parts are read alike, unless the way one of them is
written makes it too long.  `EvenlySpelled` says that the paths found for
patterns are all too long or none, as far as they have the same parts.
-/

namespace SoloScenario.Files

/-! ## Lists in another order -/

/-- What is found for a list in another order is the same, but for its
order. -/
theorem mapM_perm {α β ε : Type} {f : α → Except ε β} {xs xs' : List α}
    (hperm : xs.Perm xs') {ys : List β} (h : xs.mapM f = .ok ys) :
    ∃ ys', xs'.mapM f = .ok ys' ∧ ys.Perm ys' := by
  induction hperm generalizing ys with
  | nil => exact ⟨ys, h, .refl ys⟩
  | cons x _ ih =>
      obtain ⟨y, later, hy, hlater, rfl⟩ := mapM_cons_eq_ok.mp h
      obtain ⟨later', hlater', hp⟩ := ih hlater
      exact ⟨y :: later', mapM_cons_eq_ok.mpr ⟨y, later', hy, hlater', rfl⟩,
        hp.cons y⟩
  | swap x z xs =>
      obtain ⟨y, rest, hy, hrest, rfl⟩ := mapM_cons_eq_ok.mp h
      obtain ⟨w, later, hw, hlater, rfl⟩ := mapM_cons_eq_ok.mp hrest
      have hrest' := mapM_cons_eq_ok.mpr ⟨y, later, hy, hlater, rfl⟩
      exact ⟨w :: y :: later, mapM_cons_eq_ok.mpr ⟨w, _, hw, hrest', rfl⟩,
        .swap w y later⟩
  | trans _ _ ih ih' =>
      obtain ⟨middle, hmiddle, hp⟩ := ih h
      obtain ⟨ys', hys', hp'⟩ := ih' hmiddle
      exact ⟨ys', hys', hp.trans hp'⟩

/-- Lists with the same keys in another order have the same values in
another order, if the keys settle the values. -/
theorem map_perm_of_keys {α κ β : Type} {key : α → κ} {value : α → β}
    {xs ys : List α} (hkeys : (xs.map key).Perm (ys.map key))
    (h : ∀ x ∈ xs, ∀ y ∈ ys, key x = key y → value x = value y) :
    (xs.map value).Perm (ys.map value) := by
  induction xs generalizing ys with
  | nil =>
      obtain rfl : ys = [] := by simpa using hkeys.symm.eq_nil
      exact .refl _
  | cons x xs ih =>
      -- The partner of the first one is taken out of the other list.
      have hmem : key x ∈ ys.map key :=
        hkeys.subset List.mem_cons_self
      obtain ⟨y, hy, hkey⟩ := List.mem_map.mp hmem
      obtain ⟨front, back, rfl⟩ := List.append_of_mem hy
      have hvalue := h x List.mem_cons_self y hy hkey.symm
      have hrest : (xs.map key).Perm ((front ++ back).map key) := by
        have hmoved := hkeys.trans (List.perm_middle.map key)
        rw [List.map_cons, List.map_cons, hkey] at hmoved
        exact hmoved.cons_inv
      have hlater := ih hrest fun x hx y hy =>
        h x (List.mem_cons_of_mem _ hx) y
          (List.perm_middle.symm.subset (List.mem_cons_of_mem _ hy))
      calc (x :: xs).map value
          = value y :: xs.map value := by rw [List.map_cons, hvalue]
        List.Perm _ (value y :: (front ++ back).map value) :=
          hlater.cons _
        List.Perm _ ((front ++ y :: back).map value) :=
          (List.perm_middle.map value).symm

/-! ## Files found in another order -/

/-- Paths found for patterns that have the same parts are both too long or
neither is. -/
def EvenlySpelled (disk : Disk) (patterns : List String) : Prop :=
  ∀ found, patterns.mapM (filesOf disk) = .ok found →
    ∀ p ∈ found.flatten, ∀ q ∈ found.flatten,
      p.parts = q.parts → p.isTooLong = q.isTooLong

variable {disk : Disk}

/-- The order of the patterns does not matter to it. -/
theorem EvenlySpelled.perm {patterns patterns' : List String}
    (h : EvenlySpelled disk patterns)
    (hperm : patterns.Perm patterns') : EvenlySpelled disk patterns' := by
  intro found' hfound' p hp q hq
  obtain ⟨found, hfound, hsame⟩ := mapM_perm hperm.symm hfound'
  have hflat := hsame.flatten
  exact h found hfound p (hflat.subset hp) q (hflat.subset hq)

/-- **The same parts are found in any order of the patterns.** -/
theorem discover_perm {patterns patterns' : List String}
    (hperm : patterns.Perm patterns') {sources : List Path}
    (h : discover disk patterns = .ok sources) :
    ∃ sources', discover disk patterns' = .ok sources'
      ∧ (sources.map Path.parts).Perm (sources'.map Path.parts)
      ∧ (EvenlySpelled disk patterns → ∀ p ∈ sources, ∀ q ∈ sources',
        p.parts = q.parts → p.isTooLong = q.isTooLong) := by
  obtain ⟨found, hfound, rfl⟩ := discover_eq_ok.mp h
  obtain ⟨found', hfound', hsame⟩ := mapM_perm hperm hfound
  have hflat := hsame.flatten
  refine ⟨_, discover_eq_ok.mpr ⟨found', hfound', rfl⟩, ?_, ?_⟩
  · refine (List.perm_ext_iff_of_nodup (nodup_parts_firstSeen [] _)
      (nodup_parts_firstSeen [] _)).mpr fun x => ?_
    rw [mem_parts_firstSeen, mem_parts_firstSeen,
      (hflat.map Path.parts).mem_iff]
  · intro heven p hp q hq
    exact heven found hfound p ((firstSeen_sublist [] _).subset hp) q
      (hflat.symm.subset ((firstSeen_sublist [] _).subset hq))

/-- **Files with the same parts are read alike,** if both of their paths
are too long or neither is. -/
theorem read_eq_of_parts {p q : Path} (hparts : p.parts = q.parts)
    (hlong : p.isTooLong = q.isTooLong)
    (hp : disk.isFile p = true ∨ p.isTooLong = true)
    (hq : disk.isFile q = true ∨ q.isTooLong = true) :
    disk.read p = disk.read q := by
  by_cases h : p.isTooLong = true
  · rw [Disk.read, Disk.read, if_pos h, if_pos (hlong ▸ h)]
  · obtain ⟨l, _, hl, -⟩ := Disk.isFile_iff.mp (hp.resolve_right h)
    obtain ⟨l', _, hl', -⟩ :=
      Disk.isFile_iff.mp (hq.resolve_right (hlong ▸ h))
    obtain rfl := Disk.locate?_eq_of_parts hparts hl hl'
    have hfind : disk.find? p = disk.find? q := by
      rw [Disk.find?, Disk.find?, hl, hl']
    rw [Disk.read, Disk.read, hlong, hfind]

end SoloScenario.Files
