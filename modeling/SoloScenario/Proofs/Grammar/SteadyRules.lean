import SoloScenario.Grammar.Section
import SoloScenario.Proofs.Dialect.Unbroken
import SoloScenario.Proofs.Grammar.Steady

/-!
# The rules of the grammar do not mind how breaks are spelled

One lemma for each rule, from the cells of a table up to
`steady_document`: the document is the same in both spellings, if there is
one.  What a rule looks at is never a carriage return by itself, and what
it keeps of the text is a line, a cell or a tag, which have no breaks in
them, or the body of a doc string, whose breaks are spelled anew.
-/

namespace SoloScenario.Grammar

open Reader Text

/-! ## Tables -/

/-- The text of a cell is read alike. -/
theorem steady_cellText : Steady cellText := by
  intro s s' h
  obtain ⟨hcell, hcut⟩ := spanCell_respelled h
  simp only [cellText, hcut.behind.isEmpty_eq, hcell, true_and]
  exact .some ⟨rfl, hcut⟩

/-- So is a cell. -/
theorem steady_cell : Steady cell := by
  refine (steady_literal (by decide)).bind fun _ => ?_
  refine (steady_skip skips_spaces).bind fun _ => ?_
  refine Steady.bind (steady_unlessAt fun h => ?_) fun _ => steady_cellText
  rw [h.isEmpty_eq, passes_break.isSome h]

/-- So is a row. -/
theorem steady_row : Steady row := by
  refine (steady_chain skips_spaces steady_cell steady_cell).bind
    fun cells => ?_
  refine (steady_skip skips_spaces).bind fun _ => ?_
  refine (steady_literal (by decide)).bind fun _ => ?_
  refine (steady_skip skips_spaces).bind fun _ => ?_
  exact (steady_pass passes_lineEnd).bind fun _ => steady_give _

/-- So is a table. -/
theorem steady_table : Steady table := by
  have hlater : Steady (do skip skipSpaces; row) :=
    (steady_skip skips_spaces).bind fun _ => steady_row
  refine (steady_skip skips_spaces).bind fun _ => ?_
  refine steady_row.bind fun first => ?_
  refine (steady_many hlater).bind fun later => ?_
  cases level? (first :: later) with
  | none => exact steady_doom
  | some rows => exact steady_give rows

/-! ## Doc strings -/

/-- The body of a doc string is read as two spellings of one text. -/
theorem alike_docStringBody {quote : Char} (hreturn : quote ≠ '\r')
    (hfeed : quote ≠ '\n') :
    Alike Respelled (docStringBody quote) (docStringBody quote) := by
  intro s s' h
  obtain ⟨hbody, hcut⟩ := spanBody_respelled hreturn hfeed h false
  simp only [docStringBody, hcut.behind.isEmpty_eq, true_and]
  exact .some ⟨hbody, hcut⟩

/-- What is made of it is the same. -/
theorem steady_fenced {quote : Char} (hreturn : quote ≠ '\r')
    (hfeed : quote ≠ '\n') : Steady (fenced quote) := by
  have hfence : Unbroken (String.ofList [quote, quote, quote]).toList := by
    simp [Unbroken, hreturn, hfeed]
  refine (steady_literal hfence).bind fun _ => ?_
  refine (alike_docStringBody hreturn hfeed).bind fun body body' hbody => ?_
  rw [docStringContent_respelled hbody]
  refine (steady_literal hfence).bind fun _ => ?_
  exact (steady_pass passes_lineEnd).bind fun _ => steady_give _

/-- So doc strings are read alike. -/
theorem steady_docString : Steady docString :=
  steady_orElse (steady_fenced (by decide) (by decide))
    (steady_fenced (by decide) (by decide))

/-! ## Steps -/

/-- The separator of a step is the same in both spellings. -/
theorem alike_stepAt {words : List String} (hwords : AllUnbroken words)
    {source source' : List Char} (h : Respelled source source') :
    Alike Eq (stepAt source words) (stepAt source' words) := by
  refine (alike_keyword hwords).bind fun found _ hfound => ?_
  obtain ⟨rfl, hmem⟩ := hfound
  -- The only place where the step keeps something of its source.
  rw [spelledKeyword_respelled (hwords found hmem) h]
  refine (steady_skip skips_spaces).bind fun _ => ?_
  refine steady_lineText.bind fun text => ?_
  refine (steady_skip skips_spaces).bind fun _ => ?_
  refine (steady_pass passes_lineEnd).bind fun _ => ?_
  refine (steady_skip skips_spaces).bind fun _ => ?_
  refine (steady_optional steady_docString).bind fun content => ?_
  exact (steady_optional steady_table).bind fun rows => steady_give _

/-- Steps of some words are read alike. -/
theorem steady_stepWith {words : List String} (hwords : AllUnbroken words) :
    Steady (stepWith words) :=
  alike_ahead.bind fun _ _ h => alike_stepAt hwords h

/-- So are steps that continue others. -/
theorem steady_continuation {words : List String}
    (hwords : AllUnbroken words) (first : Bool) :
    Steady (continuation first words) := by
  refine (steady_stepWith hwords).bind fun s => ?_
  cases first with
  | true => exact steady_decline
  | false => exact steady_give s

section

variable {d : Dialect} (hd : d.Unbroken)

include hd

/-- So is a step of the dialect. -/
theorem steady_step (first : Bool) : Steady (step d first) := by
  have hgiven : Steady (do skip skipComments; stepWith d.givenWords) :=
    (steady_skip skips_comments).bind fun _ => steady_stepWith hd.given
  refine steady_orElse hgiven ?_
  refine steady_orElse (steady_stepWith hd.whens) ?_
  refine steady_orElse (steady_stepWith hd.thens) ?_
  exact steady_orElse (steady_continuation hd.ands first)
    (steady_continuation hd.buts first)

/-- So are the steps of a section. -/
theorem steady_steps : Steady (steps d) :=
  steady_chain skips_spaces (steady_step hd true) (steady_step hd false)

end

/-! ## Tags and descriptions -/

/-- A tag ends at any blank, so at either character of a break. -/
theorem steady_tagName : Steady tagName := by
  intro s s' h
  obtain ⟨hname, hcut⟩ := dropWhile_respelled
    (p := fun c => !(isBlank c || c == '@')) (by decide) (by decide) h
  simp only [tagName, hname, Trace.failedAt, true_and]
  split
  · exact .none
  · exact .some ⟨rfl, hcut⟩

/-- So is a tag. -/
theorem steady_tag : Steady tag :=
  (steady_literal (by decide)).bind fun _ => steady_tagName

/-- So are tags. -/
theorem steady_tags : Steady tags := by
  refine (steady_chain skips_gap steady_tag steady_tag).bind fun found => ?_
  refine (steady_skip skips_spaces).bind fun _ => ?_
  exact (steady_skip skips_newlines).bind fun _ => steady_give _

/-- So is a line of a description. -/
theorem steady_descriptionLine {stops : List String}
    (hstops : AllUnbroken stops) : Steady (descriptionLine stops) := by
  refine (steady_skip skips_spaces).bind fun _ => ?_
  refine (steady_notAhead (steady_literal (by decide))).bind fun _ => ?_
  refine (steady_notAhead (steady_keyword hstops)).bind fun _ => ?_
  refine (steady_skip skips_spaces).bind fun _ => ?_
  exact steady_restOfLine.bind fun _ => steady_pass passes_lineEnd

/-- So is a description. -/
theorem steady_description {stops : List String}
    (hstops : AllUnbroken stops) : Steady (description stops) := by
  have hline := steady_descriptionLine hstops
  refine (steady_chain skips_spaces hline hline).bind fun _ => ?_
  exact steady_skip skips_gap

/-! ## Sections -/

section

variable {d : Dialect} (hd : d.Unbroken)

include hd

/-- So is a background. -/
theorem steady_background : Steady (background d) := by
  refine (steady_skip skips_comments).bind fun _ => ?_
  refine (steady_skip skips_spaces).bind fun _ => ?_
  refine (steady_heading hd.background).bind fun ⟨found, name⟩ => ?_
  refine (steady_description hd.scenarioStops).bind fun _ => ?_
  exact (steady_steps hd).bind fun body => steady_give _

/-- So are examples. -/
theorem steady_examples : Steady (examples d) := by
  refine (steady_skip skips_comments).bind fun _ => ?_
  refine (steady_skip skips_spaces).bind fun _ => ?_
  refine steady_tags.bind fun _ => ?_
  refine (steady_skip skips_spaces).bind fun _ => ?_
  refine (steady_heading hd.examples).bind fun _ => ?_
  refine (steady_description hd.examplesStops).bind fun _ => ?_
  exact (steady_optional steady_table).bind fun rows => steady_give _

/-- Scenarios of some words are read alike. -/
theorem steady_scenarioWith {words : List String}
    (hwords : AllUnbroken words) : Steady (scenarioWith d words) := by
  refine (steady_skip skips_comments).bind fun _ => ?_
  refine (steady_skip skips_spaces).bind fun _ => ?_
  refine steady_tags.bind fun own => ?_
  refine (steady_skip skips_spaces).bind fun _ => ?_
  refine (steady_heading hwords).bind fun ⟨found, name⟩ => ?_
  refine (steady_description hd.scenarioStops).bind fun _ => ?_
  refine (steady_steps hd).bind fun body => ?_
  exact (steady_many (steady_examples hd)).bind fun sections =>
    steady_give _

/-- So is a scenario of the dialect. -/
theorem steady_scenario : Steady (scenario d) :=
  steady_orElse (steady_scenarioWith hd hd.scenario)
    (steady_scenarioWith hd hd.outline)

/-- So are scenarios. -/
theorem steady_scenarios : Steady (scenarios d) :=
  (steady_skip skips_spaces).bind fun _ =>
    steady_chain skips_spaces (steady_scenario hd) (steady_scenario hd)

/-- So is a rule. -/
theorem steady_rule : Steady (rule d) := by
  refine (steady_skip skips_spaces).bind fun _ => ?_
  refine steady_tags.bind fun own => ?_
  refine (steady_skip skips_spaces).bind fun _ => ?_
  refine (steady_heading hd.rule).bind fun _ => ?_
  refine (steady_description hd.ruleStops).bind fun _ => ?_
  refine (steady_optional (steady_background hd)).bind fun shared => ?_
  refine (steady_skip skips_newlines).bind fun _ => ?_
  refine (steady_scenarios hd).bind fun body => ?_
  exact (steady_skip skips_newlines).bind fun _ => steady_give _

/-- So are rules. -/
theorem steady_rules : Steady (rules d) :=
  (steady_skip skips_spaces).bind fun _ =>
    steady_chain skips_spaces (steady_rule hd) (steady_rule hd)

/-- So is all that stands behind the name of a feature. -/
theorem steady_body : Steady (body d) := by
  refine (steady_skip skips_newlines).bind fun _ => ?_
  refine steady_tags.bind fun own => ?_
  refine (steady_heading hd.feature).bind fun ⟨_, name⟩ => ?_
  refine (steady_description hd.featureStops).bind fun _ => ?_
  refine (steady_optional (steady_background hd)).bind fun shared => ?_
  refine (steady_skip skips_newlines).bind fun _ => ?_
  refine (steady_scenarios hd).bind fun top => ?_
  refine (steady_skip skips_newlines).bind fun _ => ?_
  refine (steady_rules hd).bind fun groups => ?_
  exact (steady_skip skips_newlines).bind fun _ => steady_give _

end

/-! ## Documents -/

/-- The dialect that is named is the same, and it is one of the table. -/
theorem alike_languageLine :
    Alike (fun d d' => d = d' ∧ d ∈ Dialect.all) languageLine
      languageLine := by
  refine Alike.bind (steady_skip skips_blankLines) fun _ _ _ => ?_
  refine Alike.bind (steady_literal (by decide)) fun _ _ _ => ?_
  refine Alike.bind (steady_skip skips_spaces) fun _ _ _ => ?_
  refine Alike.bind (steady_literal (by decide)) fun _ _ _ => ?_
  refine Alike.bind (steady_skip skips_spaces) fun _ _ _ => ?_
  refine Alike.bind (steady_literal (by decide)) fun _ _ _ => ?_
  refine Alike.bind (steady_skip skips_spaces) fun _ _ _ => ?_
  refine Alike.bind steady_restOfLine fun code _ hcode => ?_
  subst hcode
  refine Alike.bind (steady_skip skips_spaces) fun _ _ _ => ?_
  refine Alike.bind (steady_pass passes_newline) fun _ _ _ => ?_
  cases hfound : Dialect.find? (String.ofList code) with
  | none => exact fun _ _ _ => ⟨rfl, .none⟩
  | some d =>
      have hmem : d ∈ Dialect.all := List.mem_of_find?_eq_some hfound
      exact fun _ _ h => ⟨rfl, .some ⟨⟨rfl, hmem⟩, .here h⟩⟩

/-- **A document is read the same in both spellings**, whatever dialect it
names. -/
theorem steady_document {d : Dialect} (hd : d.Unbroken) :
    Steady (document d) := by
  refine (steady_skip skips_spaces).bind fun _ => ?_
  refine alike_languageLine.optional.bind fun named named' hnamed => ?_
  cases hnamed with
  | none => exact steady_body hd
  | some h =>
      obtain ⟨rfl, hmem⟩ := h
      exact steady_body (Dialect.unbroken_of_mem_all _ hmem)

end SoloScenario.Grammar
