import Mathlib
import SoloScenario.Document.Read
import SoloScenario.Feature.Render
import SoloScenario.Proofs.Feature.Stages
import SoloScenario.Proofs.Grammar.SteadyRules

/-!
# Line breaks do not change what a text holds

A text may spell its line breaks with a carriage return or without.  It
is read as the same feature either way, or refused either way, in every
dialect of the table (`Feature.read_respelled`), so that every text that
is made of the feature is the same, too.

* `Document.read_eq_ok_iff` — when a text is read as a document;
* `respelled_withReturns` — to put a carriage return in front of every
  line feed is to spell the breaks anew, if there was none before;
* `Feature.read_withReturns` — the main statement.
-/

namespace SoloScenario

open Grammar

namespace Text

/-- A text with a carriage return in front of every line feed. -/
def withReturns (text : String) : String :=
  .ofList (text.toList.flatMap fun c =>
    if c = '\n' then ['\r', '\n'] else [c])

end Text

/-- The texts that the stages of a run make of the feature that a text
holds, if it holds one. -/
def Stage.texts? (d : Dialect) (stages : List Stage) (text : String) :
    Option (List String) :=
  (Feature.read d text).toOption.map fun f =>
    (Stage.run stages [f]).map Feature.render

/-- A text with carriage returns put in differs in the spelling only. -/
theorem respelled_withReturns {text : String} (h : '\r' ∉ text.toList) :
    Respelled text.toList (Text.withReturns text).toList := by
  rw [Text.withReturns, String.toList_ofList]
  generalize text.toList = s at h
  induction s with
  | nil => exact .nil
  | cons c s ih =>
      obtain ⟨hc, hs⟩ := not_or.mp (mt List.mem_cons.mpr h)
      rw [List.flatMap_cons]
      by_cases hfeed : c = '\n'
      · subst hfeed
        exact .both (ih hs)
      · rw [if_neg hfeed]
        exact .char (Ne.symm hc) hfeed (ih hs)

namespace Document

/-- A text is read as a document if the grammar takes all of it and meets
no fault. -/
theorem read_eq_ok_iff {d : Dialect} {text : String} {doc : Document} :
    read d text = .ok doc
      ↔ (document d (withFinalBreak text.toList)).outcome = some (doc, [])
        ∧ (document d (withFinalBreak text.toList)).trace.doomed = false := by
  simp only [read]
  cases (document d (withFinalBreak text.toList)).outcome with
  | none => simp
  | some x =>
      obtain ⟨doc', rest⟩ := x
      cases rest <;>
        cases (document d (withFinalBreak text.toList)).trace.doomed <;>
          simp

/-- A break at the end is spelled alike in both texts. -/
theorem withFinalBreak_respelled {s s' : List Char} (h : Respelled s s') :
    Respelled (withFinalBreak s) (withFinalBreak s') := by
  simp only [withFinalBreak, Text.endsInBreak_respelled h]
  split
  · exact h
  · exact h.append (.feed .nil)

/-- What a text is read as does not depend on how its breaks are
spelled. -/
theorem read_respelled {d : Dialect} (hd : d.Unbroken) {text text' : String}
    (h : Respelled text.toList text'.toList) (doc : Document) :
    read d text' = .ok doc ↔ read d text = .ok doc := by
  obtain ⟨hdoomed, hrel⟩ := steady_document hd (withFinalBreak_respelled h)
  rw [read_eq_ok_iff, read_eq_ok_iff, hdoomed]
  rcases cases_of_rel hrel with
    ⟨hs, hs'⟩ | ⟨⟨a, r⟩, ⟨a', r'⟩, hs, hs', ha, hcut⟩
  · rw [hs, hs']
  · obtain rfl : a = a' := ha
    have hrest : r' = [] ↔ r = [] := hcut.behind.eq_nil_iff.symm
    rw [hs, hs', Option.some.injEq, Option.some.injEq, Prod.mk.injEq,
      Prod.mk.injEq, hrest]

end Document

namespace Feature

/-- A text is read as the tree of the document that it is read as. -/
theorem read_eq_ok_iff {d : Dialect} {text : String} {f : Feature} :
    read d text = .ok f
      ↔ ∃ doc, Document.read d text = .ok doc ∧ doc.toFeature = f := by
  rw [read]
  cases Document.read d text <;> simp [Except.map]

/-- **The feature of a text does not depend on how its breaks are
spelled**, and there is none in one spelling if there is none in the
other. -/
theorem read_respelled {d : Dialect} (hd : d ∈ Dialect.all)
    {text text' : String} (h : Respelled text.toList text'.toList)
    (f : Feature) : read d text' = .ok f ↔ read d text = .ok f := by
  rw [read_eq_ok_iff, read_eq_ok_iff]
  simp only [Document.read_respelled (Dialect.unbroken_of_mem_all d hd) h]

/-- The texts that are made of the feature are the same as well. -/
theorem texts?_respelled {d : Dialect} (hd : d ∈ Dialect.all)
    {text text' : String} (h : Respelled text.toList text'.toList)
    (stages : List Stage) :
    Stage.texts? d stages text' = Stage.texts? d stages text := by
  have hsome : ∀ (x : Except Text.Position Feature) f,
      x.toOption = some f ↔ x = .ok f := by
    intro x f
    cases x <;> simp [Except.toOption]
  have hread : (read d text').toOption = (read d text).toOption := by
    refine Option.ext fun f => ?_
    rw [hsome, hsome, read_respelled hd h]
  rw [Stage.texts?, hread, Stage.texts?]

/-- **Carriage returns in front of the line feeds change nothing.**  A
text that had none is read as the same feature with them, in every dialect
of the table, or is refused with them as well; and whatever is split off
the feature and kept by the filters, its text is the same. -/
theorem read_withReturns {d : Dialect} (hd : d ∈ Dialect.all)
    {text : String} (htext : '\r' ∉ text.toList) :
    (∀ f, read d (Text.withReturns text) = .ok f ↔ read d text = .ok f)
      ∧ ∀ stages, Stage.texts? d stages (Text.withReturns text)
        = Stage.texts? d stages text := by
  have h := respelled_withReturns htext
  exact ⟨read_respelled hd h, texts?_respelled hd h⟩

/-- A text with tags, a doc string that is indented, and a table. -/
def LineBreaks.sample : String :=
  "@a @b\nFeature: f\n# note\nScenario: s\n  Given a\n    \"\"\"\n    x\n"
    ++ "      y\n    \"\"\"\n  When b\n    | p | q |\n    | 1 | 2 |\n"

/-- The feature that it holds. -/
def LineBreaks.sampleFeature : Feature where
  name := "f"
  tags := [⟨"@a"⟩, ⟨"@b"⟩]
  children := [.scenario ⟨"Scenario", "s", [],
    [⟨"Given ", "a", some (.docString "x\n  y")⟩,
      ⟨"When ", "b", some (.table [⟨["p", "q"]⟩, ⟨["1", "2"]⟩])⟩], none⟩]

set_option maxRecDepth 4000 in
/-- The text holds the same feature with carriage returns, and the same
text is made of it. -/
theorem read_withReturns_sample :
    Dialect.english ∈ Dialect.all ∧ '\r' ∉ LineBreaks.sample.toList
      ∧ read .english LineBreaks.sample = .ok LineBreaks.sampleFeature
      ∧ read .english (Text.withReturns LineBreaks.sample)
        = .ok LineBreaks.sampleFeature
      ∧ Stage.texts? .english [.split true]
          (Text.withReturns LineBreaks.sample)
        = Stage.texts? .english [.split true] LineBreaks.sample := by
  have hd : Dialect.english ∈ Dialect.all := by simp [Dialect.all]
  have htext : '\r' ∉ LineBreaks.sample.toList := by decide
  have hread : read .english LineBreaks.sample
      = .ok LineBreaks.sampleFeature := by cbv
  obtain ⟨hsame, htexts⟩ := read_withReturns hd htext
  exact ⟨hd, htext, hread, (hsame _).mpr hread, htexts _⟩

end Feature

end SoloScenario
