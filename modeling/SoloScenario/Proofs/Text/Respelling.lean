import SoloScenario.Text.Margin

/-!
# Texts that differ in the spelling of their line breaks

`Respelled s s'` says that `s'` is `s` with a carriage return put in front
of some of its line feeds; `s` itself has none.  Reading takes the same off
the front of both: `Cut s s' r r'` says that the rests are `r` and `r'`,
so that what has been taken is a respelling as well.

* `Skips`, `Passes` — what functions from a text to a rest do if they do
  not mind the spelling;
* `spanLine_respelled` — a line ends at the same place;
* `dedent_respelled` — without its margin a text has all its breaks
  spelled alike, whatever they were.
-/

namespace SoloScenario

/-! ## Respelled texts -/

/-- The second text is the first one with a carriage return in front of
some line feeds. -/
inductive Respelled : List Char → List Char → Prop
  | nil : Respelled [] []
  | char {c : Char} (hreturn : c ≠ '\r') (hfeed : c ≠ '\n')
      {s s' : List Char} (h : Respelled s s') : Respelled (c :: s) (c :: s')
  | feed {s s' : List Char} (h : Respelled s s') :
      Respelled ('\n' :: s) ('\n' :: s')
  | both {s s' : List Char} (h : Respelled s s') :
      Respelled ('\n' :: s) ('\r' :: '\n' :: s')

/-- The same is taken off the front of two texts, and these are the
rests. -/
inductive Cut : List Char → List Char → List Char → List Char → Prop
  | here {r r' : List Char} (h : Respelled r r') : Cut r r' r r'
  | char {c : Char} (hreturn : c ≠ '\r') (hfeed : c ≠ '\n')
      {s s' r r' : List Char} (h : Cut s s' r r') :
      Cut (c :: s) (c :: s') r r'
  | feed {s s' r r' : List Char} (h : Cut s s' r r') :
      Cut ('\n' :: s) ('\n' :: s') r r'
  | both {s s' r r' : List Char} (h : Cut s s' r r') :
      Cut ('\n' :: s) ('\r' :: '\n' :: s') r r'

/-- A text without breaks. -/
def Unbroken (w : List Char) : Prop :=
  ∀ c ∈ w, c ≠ '\r' ∧ c ≠ '\n'

/-- Whether a word has a break in it is decided by looking at its characters.
-/
instance (w : List Char) : Decidable (Unbroken w) :=
  decidable_of_iff (w.all fun c => c != '\r' && c != '\n') <| by
    simp [Unbroken]

/-- None of the words has a break in it. -/
def AllUnbroken (words : List String) : Prop :=
  ∀ w ∈ words, Unbroken w.toList

/-- Two lists of words are unbroken if each of them is. -/
theorem allUnbroken_append {ws vs : List String} :
    AllUnbroken (ws ++ vs) ↔ AllUnbroken ws ∧ AllUnbroken vs :=
  List.forall_mem_append

namespace Respelled

variable {s s' : List Char}

/-- Respelled texts put together are a respelled text. -/
theorem append {t t' : List Char} (h : Respelled s s')
    (ht : Respelled t t') : Respelled (s ++ t) (s' ++ t') := by
  induction h with
  | nil => exact ht
  | char hreturn hfeed _ ih => exact .char hreturn hfeed ih
  | feed _ ih => exact .feed ih
  | both _ ih => exact .both ih

/-- The empty text is respelled as itself only. -/
theorem eq_nil_iff (h : Respelled s s') : s = [] ↔ s' = [] := by
  cases h <;> simp

/-- Whether a text is empty does not hang on its spelling. -/
theorem isEmpty_eq (h : Respelled s s') : s'.isEmpty = s.isEmpty := by
  cases h <;> rfl

end Respelled

namespace Cut

variable {s s' r r' q q' : List Char}

/-- What is left behind a cut is respelled. -/
theorem behind (h : Cut s s' r r') : Respelled r r' := by
  induction h with
  | here h => exact h
  | char _ _ _ ih | feed _ ih | both _ ih => exact ih

/-- A cut of what is left is a cut of the text. -/
theorem trans (h : Cut s s' r r') (hq : Cut r r' q q') : Cut s s' q q' := by
  induction h with
  | here => exact hq
  | char hreturn hfeed _ ih => exact .char hreturn hfeed (ih hq)
  | feed _ ih => exact .feed (ih hq)
  | both _ ih => exact .both (ih hq)

/-- A cut adds no character. -/
theorem length_le (h : Cut s s' r r') :
    r.length ≤ s.length ∧ r'.length ≤ s'.length := by
  induction h with
  | here => exact ⟨Nat.le_refl _, Nat.le_refl _⟩
  | char _ _ _ ih | feed _ ih | both _ ih =>
      simp only [List.length_cons]
      omega

/-- **Something is taken off one text if it is taken off the other.** -/
theorem length_lt_iff (h : Cut s s' r r') :
    r'.length < s'.length ↔ r.length < s.length := by
  cases h with
  | here => simp
  | char _ _ h | feed h | both h =>
      have hle := h.length_le
      simp only [List.length_cons]
      omega

end Cut

/-! ## Functions that do not mind the spelling -/

/-- The same is skipped in both texts. -/
def Skips (f : List Char → List Char) : Prop :=
  ∀ {s s'}, Respelled s s' → Cut s s' (f s) (f s')

/-- The same is passed in both texts, if anything is. -/
def Passes (f : List Char → Option (List Char)) : Prop :=
  ∀ {s s'}, Respelled s s' → Option.Rel (Cut s s') (f s) (f s')

section

variable {α β : Type} {R : α → β → Prop} {x : Option α} {y : Option β}

/-- A relation may be replaced by a weaker one. -/
theorem rel_imp {S : α → β → Prop} (h : Option.Rel R x y)
    (himp : ∀ a b, R a b → S a b) : Option.Rel S x y := by
  cases h with
  | none => exact .none
  | some h => exact .some (himp _ _ h)

/-- Related answers stay so under maps that keep the relation. -/
theorem rel_map {γ δ : Type} {S : γ → δ → Prop} {f : α → γ} {g : β → δ}
    (h : Option.Rel R x y) (hmap : ∀ a b, R a b → S (f a) (g b)) :
    Option.Rel S (x.map f) (y.map g) := by
  cases h with
  | none => exact .none
  | some h => exact .some (hmap _ _ h)

/-- Related answers are both there or both missing. -/
theorem isSome_of_rel (h : Option.Rel R x y) : y.isSome = x.isSome := by
  cases h <;> rfl

/-- Neither is there, or both are and are related. -/
theorem cases_of_rel (h : Option.Rel R x y) : (x = none ∧ y = none)
    ∨ ∃ a b, x = some a ∧ y = some b ∧ R a b := by
  cases h with
  | none => exact .inl ⟨rfl, rfl⟩
  | some h => exact .inr ⟨_, _, rfl, rfl, h⟩

end

/-- What is passed behind a cut is passed with the cut as well. -/
theorem Cut.through {s s' r r' : List Char} {x y : Option (List Char)}
    (h : Cut s s' r r') (hr : Option.Rel (Cut r r') x y) :
    Option.Rel (Cut s s') x y :=
  rel_imp hr fun _ _ => h.trans

/-- Whether something is passed does not hang on the spelling. -/
theorem Passes.isSome {f : List Char → Option (List Char)} (hf : Passes f)
    {s s' : List Char} (h : Respelled s s') :
    (f s').isSome = (f s).isSome :=
  isSome_of_rel (hf h)

/-- What stops at breaks stops at the same place. -/
theorem dropWhile_respelled {p : Char → Bool} (hreturn : p '\r' = false)
    (hfeed : p '\n' = false) {s s' : List Char} (h : Respelled s s') :
    s'.takeWhile p = s.takeWhile p
      ∧ Cut s s' (s.dropWhile p) (s'.dropWhile p) := by
  induction h with
  | nil => exact ⟨rfl, .here .nil⟩
  | @char c hr hf s s' h ih =>
      by_cases hc : p c = true
      · simp only [List.takeWhile_cons_of_pos hc, List.dropWhile_cons_of_pos hc,
          ih.1, true_and]
        exact .char hr hf ih.2
      · simp only [List.takeWhile_cons_of_neg hc, List.dropWhile_cons_of_neg hc,
          true_and]
        exact .here (.char hr hf h)
  | feed h =>
      simp only [List.takeWhile_cons, List.dropWhile_cons, hfeed,
        Bool.false_eq_true, if_false, true_and]
      exact .here (.feed h)
  | both h =>
      simp only [List.takeWhile_cons, List.dropWhile_cons, hfeed, hreturn,
        Bool.false_eq_true, if_false, true_and]
      exact .here (.both h)

/-- A text starts with an unbroken one in both spellings or in none. -/
theorem prefix_respelled {w : List Char} (hw : Unbroken w)
    {s s' : List Char} (h : Respelled s s') :
    w.isPrefixOf s' = w.isPrefixOf s
      ∧ (w.isPrefixOf s = true → Cut s s' (s.drop w.length)
        (s'.drop w.length)) := by
  induction w generalizing s s' with
  | nil => exact ⟨by simp, fun _ => .here h⟩
  | cons c w ih =>
      obtain ⟨⟨hreturn, hfeed⟩, hw⟩ := List.forall_mem_cons.mp hw
      cases h with
      | nil => exact ⟨rfl, by simp⟩
      | @char d hr hf s s' h =>
          obtain ⟨hfront, hcut⟩ := ih hw h
          simp only [List.isPrefixOf_cons_cons, hfront, Bool.and_eq_true,
            List.length_cons, List.drop_succ_cons, true_and]
          exact fun hp => .char hr hf (hcut hp.2)
      | feed h => simp [List.isPrefixOf, beq_false_of_ne hfeed]
      | both h =>
          simp [List.isPrefixOf, beq_false_of_ne hfeed,
            beq_false_of_ne hreturn]

namespace Text

/-- There is no break in front of another character. -/
theorem atBreak?_char {c : Char} (hreturn : c ≠ '\r') (hfeed : c ≠ '\n')
    (s : List Char) : atBreak? (c :: s) = none := by
  unfold atBreak?
  split <;> simp_all

/-- A break is passed as a whole. -/
theorem passes_break : Passes atBreak? := by
  intro s s' h
  cases h with
  | nil => exact .none
  | char hreturn hfeed h =>
      rw [atBreak?_char hreturn hfeed, atBreak?_char hreturn hfeed]
      exact .none
  | feed h => exact .some (.feed (.here h))
  | both h => exact .some (.both (.here h))

/-- A line ends at the same place. -/
theorem spanLine_respelled {s s' : List Char} (h : Respelled s s') :
    (spanLine s').1 = (spanLine s).1
      ∧ Cut s s' (spanLine s).2 (spanLine s').2 := by
  induction h with
  | nil => exact ⟨rfl, .here .nil⟩
  | char hreturn hfeed _ ih =>
      simp only [spanLine, atBreak?_char hreturn hfeed, Option.isSome_none,
        Bool.false_eq_true, if_false, ih.1, true_and]
      exact .char hreturn hfeed ih.2
  | feed h => exact ⟨rfl, .here (.feed h)⟩
  | both h => exact ⟨rfl, .here (.both h)⟩

/-- The lines of a text are the same. -/
theorem lines_respelled {s s' : List Char} (h : Respelled s s') :
    lines s' = lines s := by
  induction h with
  | nil => rfl
  | @char c hreturn hfeed s s' _ ih =>
      rw [lines.eq_4 c s' hfeed fun _ hc _ => hreturn hc,
        lines.eq_4 c s hfeed fun _ hc _ => hreturn hc, ih]
  | feed _ ih | both _ ih => simp only [lines, ih]

/-- Whether a text ends in a break does not hang on its spelling. -/
theorem endsInBreak_respelled {s s' : List Char} (h : Respelled s s') :
    endsInBreak s' = endsInBreak s := by
  have hlast : s'.getLast? = s.getLast? := by
    induction h with
    | nil => rfl
    | char _ _ _ ih | feed _ ih | both _ ih =>
        simp only [List.getLast?_cons, ih, Option.getD_some]
  rw [endsInBreak, endsInBreak, hlast]

/-- Without its margin a text has all its breaks spelled alike. -/
theorem dedent_respelled {s s' : List Char} (h : Respelled s s') :
    dedent s' = dedent s := by
  simp only [dedent, lines_respelled h, endsInBreak_respelled h]

/-- Both characters of a break are blank. -/
theorem trimStart_respelled {s s' : List Char} (h : Respelled s s') :
    Respelled (trimStart s) (trimStart s') := by
  have hreturn : isBlank '\r' = true := by decide
  have hfeed : isBlank '\n' = true := by decide
  induction h with
  | nil => exact .nil
  | @char c hr hf s s' h ih =>
      by_cases hc : isBlank c = true
      · simp only [trimStart, List.dropWhile_cons_of_pos hc]
        exact ih
      · simp only [trimStart, List.dropWhile_cons_of_neg hc]
        exact .char hr hf h
  | feed _ ih =>
      simp only [trimStart, List.dropWhile_cons_of_pos hfeed]
      exact ih
  | both _ ih =>
      simp only [trimStart, List.dropWhile_cons_of_pos hfeed,
        List.dropWhile_cons_of_pos hreturn]
      exact ih

end Text

end SoloScenario
