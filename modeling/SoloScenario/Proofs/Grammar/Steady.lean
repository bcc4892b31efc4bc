import SoloScenario.Grammar.Keyword
import SoloScenario.Proofs.Grammar.Respelling

/-!
# Readers that do not mind how breaks are spelled

`Alike R p p'` says that two readers do the same on two spellings of a
text: both take the same or both decline, what they give is related by
`R`, and one dooms its text if the other does.  How far they got may
differ.  A reader that is like itself is `Steady`.

* `Alike.bind`, `steady_orElse`, `steady_many`, `steady_chain` — readers
  that are put together from steady ones are steady;
* `steady_literal`, `steady_keyword`, `steady_lineText`,
  `steady_heading` — so are those for words and lines, if the words have
  no breaks in them.
-/

namespace SoloScenario.Grammar

open Reader Text

/-- Two readers do the same on two spellings of a text. -/
def Alike {α β : Type} (R : α → β → Prop) (p : Reader α) (p' : Reader β) :
    Prop :=
  ∀ ⦃s s'⦄, Respelled s s' →
    (p' s').trace.doomed = (p s).trace.doomed
      ∧ Option.Rel (fun x x' => R x.1 x'.1 ∧ Cut s s' x.2 x'.2)
        (p s).outcome (p' s').outcome

/-- A reader that does not mind how breaks are spelled. -/
def Steady {α : Type} (p : Reader α) : Prop :=
  Alike Eq p p

/-! ## Single readers -/

section

variable {α : Type}

/-- Giving an answer does not look at the text. -/
theorem steady_give (a : α) : Steady (give a) := fun _ _ h =>
  ⟨rfl, .some ⟨rfl, .here h⟩⟩

/-- Looking ahead sees two spellings of one text. -/
theorem alike_ahead : Alike Respelled ahead ahead := fun _ _ h =>
  ⟨rfl, .some ⟨h, .here h⟩⟩

/-- Declining does not look at the text. -/
theorem steady_decline : Steady (decline : Reader α) := fun _ _ _ =>
  ⟨rfl, .none⟩

/-- Nor does being doomed. -/
theorem steady_doom : Steady (doom : Reader α) := fun _ _ _ =>
  ⟨rfl, .none⟩

/-- Skipping is steady if what it skips is. -/
theorem steady_skip {f : List Char → List Char} (hf : Skips f) :
    Steady (skip f) := fun _ _ h =>
  ⟨rfl, .some ⟨rfl, hf h⟩⟩

/-- So is passing. -/
theorem steady_pass {f : List Char → Option (List Char)} (hf : Passes f) :
    Steady (Reader.pass f) := fun _ _ h =>
  ⟨rfl, rel_map (hf h) fun _ _ hcut => ⟨rfl, hcut⟩⟩

/-- So is asking for a stop that does not mind breaks. -/
theorem steady_unlessAt {stop : List Char → Bool}
    (hstop : ∀ {s s'}, Respelled s s' → stop s' = stop s) :
    Steady (unlessAt stop) := by
  intro s s' h
  refine ⟨rfl, ?_⟩
  unfold unlessAt
  rw [hstop h]
  cases stop s with
  | true => exact .none
  | false => exact .some ⟨rfl, .here h⟩

end

/-! ## Readers put together -/

section

variable {α β γ δ : Type} {R : α → β → Prop} {S : γ → δ → Prop}
  {p : Reader α} {p' : Reader β} {f : α → Reader γ} {f' : β → Reader δ}

/-- **Two readers in a row do the same as two others in a row.** -/
theorem Alike.bind (hp : Alike R p p')
    (hf : ∀ a a', R a a' → Alike S (f a) (f' a')) :
    Alike S (p >>= f) (p' >>= f') := by
  intro s s' h
  obtain ⟨hdoomed, hrel⟩ := hp h
  show (andThen p' f' s').trace.doomed = (andThen p f s).trace.doomed
    ∧ Option.Rel _ (andThen p f s).outcome (andThen p' f' s').outcome
  unfold andThen
  rcases cases_of_rel hrel with
    ⟨hs, hs'⟩ | ⟨⟨a, r⟩, ⟨a', r'⟩, hs, hs', ha, hcut⟩
  · simp only [hs, hs']
    exact ⟨hdoomed, .none⟩
  · simp only [hs, hs']
    obtain ⟨hlater, hrel'⟩ := hf a a' ha hcut.behind
    refine ⟨by simp only [Trace.join, hdoomed, hlater], ?_⟩
    exact rel_imp hrel' fun _ _ hb => ⟨hb.1, hcut.trans hb.2⟩

/-- **Readers in a row are steady,** if each is. -/
theorem Steady.bind {q : α → Reader γ} (hp : Steady p)
    (hq : ∀ a, Steady (q a)) : Steady (p >>= q) :=
  Alike.bind hp fun a _ ha => ha ▸ hq a

/-- So is a choice of two. -/
theorem steady_orElse {q : Reader α} (hp : Steady p) (hq : Steady q) :
    Steady (p <|> q) := by
  intro s s' h
  obtain ⟨hdoomed, hrel⟩ := hp h
  obtain ⟨hdoomed', hrel'⟩ := hq h
  show (Reader.orElse p q s').trace.doomed
      = (Reader.orElse p q s).trace.doomed
    ∧ Option.Rel _ (Reader.orElse p q s).outcome
      (Reader.orElse p q s').outcome
  unfold Reader.orElse
  rcases cases_of_rel hrel with ⟨hs, hs'⟩ | ⟨x, x', hs, hs', hx⟩
  · simp only [hs, hs']
    exact ⟨by simp only [Trace.join, hdoomed, hdoomed'], hrel'⟩
  · simp only [hs, hs']
    exact ⟨hdoomed, .some hx⟩

/-- What is given may be seen through a weaker relation. -/
theorem Alike.imp {T : α → β → Prop} (hp : Alike R p p')
    (h : ∀ a a', R a a' → T a a') : Alike T p p' := by
  intro s s' hs
  obtain ⟨hdoomed, hrel⟩ := hp hs
  exact ⟨hdoomed, rel_imp hrel fun _ _ hx => ⟨h _ _ hx.1, hx.2⟩⟩

/-- Readers that are alike stay so where they may be missing. -/
theorem Alike.optional (hp : Alike R p p') :
    Alike (Option.Rel R) (Reader.optional p) (Reader.optional p') := by
  intro s s' h
  obtain ⟨hdoomed, hrel⟩ := hp h
  unfold Reader.optional
  rcases cases_of_rel hrel with
    ⟨hs, hs'⟩ | ⟨⟨a, r⟩, ⟨a', r'⟩, hs, hs', ha, hcut⟩
  · simp only [hs, hs']
    exact ⟨hdoomed, .some ⟨.none, .here h⟩⟩
  · simp only [hs, hs']
    exact ⟨hdoomed, .some ⟨.some ha, hcut⟩⟩

/-- A steady reader stays so where it may be missing. -/
theorem steady_optional (hp : Steady p) : Steady (Reader.optional p) :=
  (Alike.optional hp).imp fun o o' h => by
    cases h with
    | none => rfl
    | some ha => rw [ha]

/-- So does one that may not follow. -/
theorem steady_notAhead (hp : Steady p) : Steady (notAhead p) :=
  steady_unlessAt fun h => isSome_of_rel (hp h).2

/-- **What is repeated is repeated as often**: what one text gets shorter
by is nothing in both spellings or in none. -/
theorem collect_respelled (hp : Steady p) {s s' : List Char}
    (h : Respelled s s') :
    (collect p s').1 = (collect p s).1
      ∧ Cut s s' (collect p s).2.1 (collect p s').2.1
      ∧ (collect p s').2.2.doomed = (collect p s).2.2.doomed := by
  obtain ⟨hdoomed, hrel⟩ := hp h
  rw [collect, collect]
  rcases cases_of_rel hrel with
    ⟨hs, hs'⟩ | ⟨⟨a, r⟩, ⟨a', r'⟩, hs, hs', ha, hcut⟩
  · simp only [hs, hs']
    exact ⟨trivial, .here h, hdoomed⟩
  · obtain rfl : a = a' := ha
    -- Both repetitions go on, or both stop here.
    simp only [hs, hs', hcut.length_lt_iff]
    by_cases hlt : r.length < s.length
    · obtain ⟨hall, hrest, hlater⟩ := collect_respelled hp hcut.behind
      simp only [if_pos hlt, hall, Trace.join, hdoomed, hlater]
      exact ⟨trivial, hcut.trans hrest, trivial⟩
    · simp only [if_neg hlt]
      exact ⟨trivial, .here h, hdoomed⟩
termination_by s.length

/-- So does one that is repeated. -/
theorem steady_many (hp : Steady p) : Steady (many p) := by
  intro s s' h
  obtain ⟨hall, hcut, hdoomed⟩ := collect_respelled hp h
  exact ⟨hdoomed, .some ⟨hall.symm, hcut⟩⟩

/-- So does a chain with gaps in between. -/
theorem steady_chain {gap : List Char → List Char} {first later : Reader α}
    (hgap : Skips gap) (hfirst : Steady first) (hlater : Steady later) :
    Steady (chain gap first later) := by
  refine (steady_optional hfirst).bind fun found => ?_
  cases found with
  | none => exact steady_give _
  | some a =>
      refine (steady_many ?_).bind fun rest => steady_give _
      exact (steady_skip hgap).bind fun _ => hlater

end

/-! ## Words and lines -/

/-- A literal without breaks is steady. -/
theorem steady_literal {t : String} (ht : Unbroken t.toList) :
    Steady (literal t) := by
  intro s s' h
  obtain ⟨hfront, hcut⟩ := prefix_respelled ht h
  rw [String.length_toList] at hcut
  unfold literal
  rw [hfront]
  by_cases hp : t.toList.isPrefixOf s = true
  · rw [if_pos hp, if_pos hp]
    exact ⟨rfl, .some ⟨rfl, hcut hp⟩⟩
  · rw [if_neg hp, if_neg hp]
    exact ⟨rfl, .none⟩

/-- The same word is found, and it is one of those looked for. -/
theorem alike_word {words : List String} (hwords : AllUnbroken words) :
    Alike (fun w w' => w = w' ∧ w ∈ words) (word words) (word words) := by
  intro s s' h
  refine ⟨rfl, ?_⟩
  have hfind : words.find? (fun w => w.toList.isPrefixOf s')
      = words.find? fun w => w.toList.isPrefixOf s :=
    List.find?_congr fun w hw => (prefix_respelled (hwords w hw) h).1
  simp only [word, hfind]
  cases hfound : words.find? fun w => w.toList.isPrefixOf s with
  | none => exact .none
  | some w =>
      have hw : w ∈ words := List.mem_of_find?_eq_some hfound
      obtain ⟨-, hcut⟩ := prefix_respelled (hwords w hw) h
      rw [String.length_toList] at hcut
      have hfront : w.toList.isPrefixOf s = true := by
        simpa using List.find?_some hfound
      exact .some ⟨⟨rfl, hw⟩, hcut hfront⟩

/-- A keyword is one of its words in both spellings. -/
theorem alike_keyword {words : List String} (hwords : AllUnbroken words) :
    Alike (fun w w' => w = w' ∧ w ∈ words) (keyword words)
      (keyword words) :=
  Alike.bind (steady_skip skips_comments) fun _ _ _ => alike_word hwords

/-- So keywords are steady. -/
theorem steady_keyword {words : List String} (hwords : AllUnbroken words) :
    Steady (keyword words) :=
  (alike_keyword hwords).imp fun _ _ h => h.1

/-- The rest of a line has no break, so reading it is steady. -/
theorem steady_restOfLine : Steady restOfLine := by
  intro s s' h
  obtain ⟨hline, hcut⟩ := spanLine_respelled h
  simp only [restOfLine, hcut.behind.isEmpty_eq, hline, true_and]
  by_cases hempty : (spanLine s).1.isEmpty = true
  · rw [if_pos hempty, if_pos hempty]
    exact .none
  · rw [if_neg hempty, if_neg hempty]
    exact .some ⟨hline.symm, hcut⟩

/-- So is reading the text of a line. -/
theorem steady_lineText : Steady lineText :=
  steady_restOfLine.bind fun _ => steady_give _

/-- So is reading a heading. -/
theorem steady_heading {words : List String} (hwords : AllUnbroken words) :
    Steady (heading words) := by
  refine (steady_keyword hwords).bind fun found => ?_
  refine (steady_literal (by decide)).bind fun _ => ?_
  refine (steady_skip skips_spaces).bind fun _ => ?_
  refine (steady_optional steady_lineText).bind fun name => ?_
  refine (steady_skip skips_spaces).bind fun _ => ?_
  refine (steady_pass passes_lineEnd).bind fun _ => ?_
  exact steady_give _

end SoloScenario.Grammar
