import SoloScenario.Document.Read
import SoloScenario.Proofs.Grammar.Scenarios

/-!
# Reading features back

`Feature.written` is the document that the lines of a feature say, and
`read_renderAs_of_text` the way from the text back to the tree:
`Feature.shown`, the feature with the example blocks that are written.  The
conditions of `FeatureText` are those that the grammar needs, line by line.

A feature is always written under the heading `Feature`, which few dialects
read; `Feature.renderAs` writes it under another word.
-/

namespace SoloScenario

/-- A child with the example block that is written. -/
def Child.shown : Child → Child
  | .background b => .background b
  | .scenario s => .scenario s.shown

namespace Feature

/-- What the lines of a feature say. -/
def written (f : Feature) : Document :=
  ⟨f.name, f.tags.map Tag.bare, f.background?,
    f.scenarios.map Scenario.written, []⟩

/-- A feature with the example blocks that are written. -/
def shown (f : Feature) : Feature :=
  { f with children := f.children.map Child.shown }

/-- The lines of a feature, under another word for features. -/
def linesAs (word : String) (f : Feature) : List String :=
  f.tags.map Tag.name
    ++ headingLine word f.name :: f.children.flatMap Child.lines

/-- The text of a feature, under another word for features. -/
def renderAs (word : String) (f : Feature) : String :=
  String.join ((f.linesAs word).map (· ++ "\n"))

/-- Under the word `Feature` a feature is written as it is rendered. -/
theorem renderAs_feature (f : Feature) : f.renderAs "Feature" = f.render := by
  simp [renderAs, render, linesAs, lines, headLines]

/-- What is read is what was written, where every outline has one example
block. -/
theorem shown_eq_self_iff (f : Feature) : f.shown = f
    ↔ ∀ s ∈ f.scenarios, ∀ es ∈ s.examples, es.length = 1 := by
  have hchildren : f.shown = f ↔ f.children.map Child.shown = f.children := by
    obtain ⟨name, ts, children⟩ := f
    simp [shown]
  have hchild : ∀ c : Child, c.shown = c
      ↔ ∀ s ∈ c.scenario?, ∀ es ∈ s.examples, es.length = 1 := by
    rintro (b | s)
    · simp [Child.shown, Child.scenario?]
    · simpa [Child.shown, Child.scenario?] using s.shown_eq_iff
  rw [hchildren]
  constructor
  · intro h s hs
    obtain ⟨c, hc, hcs⟩ := List.mem_filterMap.mp hs
    have hmap : f.children.map Child.shown = f.children.map id := by
      rw [h, List.map_id]
    exact (hchild c).mp (List.map_inj_left.mp hmap c hc) s hcs
  · intro h
    have hall : ∀ c ∈ f.children, c.shown = id c := by
      intro c hc
      exact (hchild c).mpr fun s hs =>
        h s (List.mem_filterMap.mpr ⟨c, hc, hs⟩)
    rw [List.map_congr_left hall, List.map_id]

end Feature

namespace Grammar

open Reader Text

/-- A feature whose lines are read back as they are: a background, if
there is one, and scenarios behind it. -/
structure FeatureText (d : Dialect) (f : Feature) : Prop where
  name : Settled f.name.toList
  tags : ∀ t ∈ f.tags, TagLine t
  order : f.children = f.background?.toList.map Child.background
    ++ f.scenarios.map Child.scenario
  background : ∀ b ∈ f.background?, BackgroundText d b
  scenarios : ∀ s ∈ f.scenarios, ScenarioText d s

/-! ## The text of a feature -/

/-- The lines of a feature's children. -/
def childrenText (f : Feature) : List Char :=
  textOf ((f.background?.map Background.lines).getD [])
    ++ textOf (f.scenarios.flatMap Scenario.lines)

/-- The lines of a feature below its tags. -/
def featureText (word : String) (f : Feature) : List Char :=
  (headingLine word f.name).toList ++ '\n' :: childrenText f

namespace FeatureText

variable {d : Dialect} {f : Feature} (h : FeatureText d f)
include h

/-- The document of a feature is read as the tree that it shows. -/
theorem toFeature_written : f.written.toFeature = f.shown := by
  have htags : (f.tags.map Tag.bare).map Tag.ofName = f.tags :=
    map_ofName_bare h.tags
  have hscenarios : (f.scenarios.map Scenario.written).map
      (Document.Scenario.inherit [] []) = f.scenarios.map Scenario.shown := by
    rw [List.map_map]
    exact List.map_congr_left fun s hs => (h.scenarios s hs).inherit_written
  have hchildren : f.shown.children = f.background?.toList.map Child.background
      ++ (f.scenarios.map Scenario.shown).map Child.scenario := by
    show f.children.map Child.shown = _
    rw [h.order, List.map_append, List.map_map, List.map_map, List.map_map]
    rfl
  have hall : f.written.allScenarios = f.scenarios.map Scenario.shown := by
    rw [Document.allScenarios]
    exact (congrArg (· ++ []) hscenarios).trans (List.append_nil _)
  rw [Document.toFeature, hall]
  show Feature.mk f.name ((f.tags.map Tag.bare).map Tag.ofName) _ = _
  rw [htags, Feature.shown]
  exact congrArg (Feature.mk f.name f.tags) hchildren.symm

/-- A feature is written as its tags and all that stands behind them. -/
theorem textOf_lines (word : String) : textOf (f.linesAs word)
    = textOf (tagLines (f.tags.map Tag.bare)) ++ featureText word f := by
  have hchildren : f.children.flatMap Child.lines
      = (f.background?.map Background.lines).getD []
        ++ f.scenarios.flatMap Scenario.lines := by
    have horder := congrArg (List.flatMap Child.lines) h.order
    rw [horder, List.flatMap_append, List.flatMap_map, List.flatMap_map]
    cases f.background? <;> simp [Child.lines]
  rw [tagLines_bare h.tags, featureText, childrenText, Feature.linesAs,
    hchildren]
  simp

variable (hd : d.Clear)
include hd

/-- What the scenarios start with ends a description and is no
background. -/
theorem scenarios_front :
    Flush (textOf (f.scenarios.flatMap Scenario.lines))
      ∧ Declines (heading d.background)
        (textOf (f.scenarios.flatMap Scenario.lines))
      ∧ Ends d.featureStops (textOf (f.scenarios.flatMap Scenario.lines)) := by
  cases hss : f.scenarios with
  | nil =>
      exact ⟨flush_nil, declines_heading flush_nil
        (noWord_nil hd.background_words), Or.inl rfl⟩
  | cons s ss =>
      have hs := h.scenarios s (by rw [hss]; exact List.mem_cons_self)
      obtain ⟨hapart, -, hbackground, hends⟩ :=
        hs.front hd (textOf (ss.flatMap Scenario.lines))
      rw [List.flatMap_cons, textOf_append]
      exact ⟨hapart.flush, hbackground,
        hends _ (List.subset_append_right _ _)⟩

/-- The first line below a feature's heading ends its description. -/
theorem children_front : Flush (childrenText f)
    ∧ Ends d.featureStops (childrenText f) := by
  cases hb : f.background? with
  | some b =>
      have hkeyword := (h.background b hb).keyword.mem
      have hmem : b.keyword ∈ d.featureStops :=
        List.mem_append_left _ (List.mem_append_left _ hkeyword)
      rw [childrenText, hb, Option.map_some, Option.getD_some,
        Background.lines, textOf_cons, List.append_assoc, List.cons_append,
        headingLine_toList]
      exact ⟨((hd.background_words _ hkeyword).apart _).flush,
        Or.inr ⟨_, List.mem_cons_of_mem _ hmem, List.prefix_append _ _⟩⟩
  | none =>
      obtain ⟨hflush, -, hends⟩ := h.scenarios_front hd
      rw [childrenText, hb]
      exact ⟨hflush, hends⟩

/-- The background is read, if there is one. -/
theorem takes_background? : Takes (optional (Grammar.background d))
    (childrenText f) f.background?
    (textOf (f.scenarios.flatMap Scenario.lines)) := by
  have hbehind := behind_scenarios hd h.scenarios
  rw [childrenText]
  cases hb : f.background? with
  | some b =>
      exact (takes_background hd (h.background b hb) hbehind.steps
        hbehind.ends).optional
  | none =>
      obtain ⟨hflush, hheading, -⟩ := h.scenarios_front hd
      exact (declines_background hflush hheading).optional

end FeatureText

/-- At the end of the text there are no rules. -/
theorem takes_rules_nil {d : Dialect} (hd : d.Clear) :
    Takes (rules d) [] [] [] := by
  have htags : Takes tags [] [] [] :=
    @takes_tags [] (by simp) [] flush_nil (by simp)
  have hrule : Declines (rule d) [] :=
    (takes_skip rfl).bind_declines <| htags.bind_declines <|
    (takes_skip rfl).bind_declines
      (declines_heading flush_nil (noWord_nil hd.rule_words)).bind
  exact (takes_skip rfl).bind hrule.chain

/-- A text that starts a line at once names no dialect. -/
theorem declines_languageLine {r : List Char} (hr : Flush r) :
    Declines languageLine r :=
  (takes_skip hr.skipBlankLines).bind_declines
    (declines_literal_of_head rfl fun c hc => (hr c hc).2.1).bind

/-- **A feature comes back as it is written**, under any word for features
that is found as it is. -/
theorem takes_document {d : Dialect} (hd : d.Clear) {f : Feature}
    (h : FeatureText d f) {word : String}
    (hword : Fits d.feature word.toList word) :
    Takes (document d) (textOf (f.linesAs word)) f.written [] := by
  obtain ⟨hchildren, hends⟩ := h.children_front hd
  have hheading : Takes (heading d.feature) (featureText word f)
      (word, f.name) (childrenText f) :=
    takes_headingLine hd.feature_words hword h.name hchildren
  have hbody : Apart (featureText word f)
      ∧ ∀ c ∈ (featureText word f).head?, c ≠ '@' := by
    have hfront := hd.feature_words word hword.mem
    rw [featureText, headingLine_toList]
    exact ⟨hfront.apart _, hfront.no_at _⟩
  have htags := takes_tags (tagText_bare h.tags) hbody.1.flush hbody.2
  have htext := flush_tagLines (f.tags.map Tag.bare) hbody.1.flush
  have hscenarios := (h.scenarios_front hd).1
  rw [h.textOf_lines]
  -- Without a language line the dialect stays the one that was given.
  refine (takes_skip htext.skipSpaces).bind <|
    (declines_languageLine htext).optional.bind ?_
  exact (takes_skip htext.skipNewlines).bind <|
    htags.bind <| hheading.bind <|
    (takes_description hchildren hends).bind <|
    (h.takes_background? hd).bind <|
    (takes_skip hscenarios.skipNewlines).bind <|
    (takes_scenarios hd h.scenarios).bind <|
    (takes_skip flush_nil.skipNewlines).bind <|
    (takes_rules_nil hd).bind <|
    (takes_skip flush_nil.skipNewlines).bind (takes_give _ [])

end Grammar

/-! ## From the text to the tree -/

open Grammar

/-- A text whose last line is ended is read as it is. -/
theorem Document.read_of_takes {d : Dialect} {text : String} {ls : List String}
    {doc : Document} (htext : text.toList = textOf ls) (hne : ls ≠ [])
    (h : Takes (document d) (textOf ls) doc []) :
    Document.read d text = .ok doc := by
  have hends : Text.endsInBreak (textOf ls) = true := by
    have hlast : ls.dropLast ++ [ls.getLast hne] = ls :=
      List.dropLast_concat_getLast hne
    rw [← hlast, textOf_append]
    simp [Text.endsInBreak]
  have hsource : withFinalBreak text.toList = textOf ls := by
    rw [withFinalBreak, htext, if_pos hends]
  simp [Document.read, hsource, h.outcome, h.spared]

/-- **The text of a feature is read as the feature shown in it.** -/
theorem Feature.read_renderAs_of_text {d : Dialect} (hd : d.Clear)
    {f : Feature} (h : FeatureText d f) {word : String}
    (hword : Fits d.feature word.toList word) :
    Feature.read d (f.renderAs word) = .ok f.shown := by
  have hne : f.linesAs word ≠ [] := by
    simp [Feature.linesAs]
  have htext : (f.renderAs word).toList = textOf (f.linesAs word) :=
    join_append_toList (f.linesAs word) "\n"
  have hread := Document.read_of_takes htext hne (takes_document hd h hword)
  rw [Feature.read, hread, ← h.toFeature_written]
  rfl

end SoloScenario
