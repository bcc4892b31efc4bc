import SoloScenario.Proofs.TagExpr.Grammar
import SoloScenario.Proofs.TagExpr.Places

/-!
# Where the fault of a refused text is shown

Symbols are `Viable` if an accepted text begins with them.  The reader
goes on exactly as long as they are:

* `State.Reads.viable` — whatever has led to a state can be completed, by
  an operand if one is wanted and a parenthesis for every open one;
* `not_viable_of_step`, `not_viable_of_finish` — a symbol that a state
  refuses cannot be completed at all.

So a fault that is not of a token by itself is met at the first symbol
that makes the text impossible (`FirstImpossible`).  It is shown there,
or at the innermost parenthesis that is open in front of it, which
`openParens` finds by counting.  `parse_error_shown` puts this together.
-/

namespace SoloScenario.TagExpr

/-- A fault of a token by itself, whatever stands around it. -/
def Fault.ofToken : Fault → Bool
  | .unexpectedCharacter _ | .unexpectedWord _ | .missingTagName
  | .danglingEscape => true
  | _ => false

/-- A fault that is shown at an opening parenthesis. -/
def Fault.ofParen : Fault → Bool
  | .emptyParentheses | .missingParenthesis => true
  | _ => false

/-- A bad token has a fault of its own. -/
theorem BadToken.ofToken {bad : List Char} {fault : Fault}
    (h : BadToken bad fault) : fault.ofToken = true := by
  cases h <;> rfl

/-! ## Viable symbols -/

/-- An accepted text begins with these symbols. -/
def Viable (symbols : List (Option Token)) : Prop :=
  ∃ text e, TagExpr.parse text = .ok e
    ∧ symbols <+: (scan text.toList).symbols.map Prod.snd

/-- What an accepted text begins with begins with its own beginnings. -/
theorem Viable.front {xs ys : List (Option Token)} (h : Viable ys)
    (hxs : xs <+: ys) : Viable xs := by
  obtain ⟨text, e, hparse, hys⟩ := h
  exact ⟨text, e, hparse, hxs.trans hys⟩

/-- The symbols of a scan that gets to the end of its text. -/
theorem Scan.symbols_of_ok {s : Scan} {offset : Nat}
    (h : s.ending = .ok offset) :
    s.symbols.map Prod.snd = (s.tokens.map Prod.snd).map some ++ [none] := by
  simp [Scan.symbols, h, Function.comp_def]

/-- The tokens are the first symbols. -/
theorem Scan.symbols_getElem? {s : Scan} {k start : Nat} {t : Token}
    (h : s.tokens[k]? = some (start, t)) :
    s.symbols[k]? = some (start, some t) := by
  have hlt := (List.getElem?_eq_some_iff.mp h).1
  rw [Scan.symbols, List.getElem?_append_left (by simpa using hlt),
    List.getElem?_map, h]
  rfl

/-- The symbols of an accepted text are tokens with a derivation and the
end behind them. -/
theorem viable_iff {symbols : List (Option Token)} :
    Viable symbols ↔ ∃ s ts e, Lexes s ts ∧ Derives .disjunction ts e
      ∧ symbols <+: ts.map some ++ [none] := by
  constructor
  · rintro ⟨text, e, hparse, hsymbols⟩
    obtain ⟨ts, hlex, hder⟩ := parse_iff_spells.mp hparse
    obtain ⟨rfl, offset, hend⟩ := lexes_iff_yields.mp hlex
    exact ⟨_, _, e, hlex, hder, Scan.symbols_of_ok hend ▸ hsymbols⟩
  · rintro ⟨s, ts, e, hlex, hder, hsymbols⟩
    have hparse : TagExpr.parse (String.ofList s) = .ok e :=
      parse_iff_spells.mpr ⟨ts, by simpa using hlex, hder⟩
    obtain ⟨rfl, offset, hend⟩ := lexes_iff_yields.mp hlex
    refine ⟨_, e, hparse, ?_⟩
    simpa only [String.toList_ofList, Scan.symbols_of_ok hend] using hsymbols

/-- Tokens that begin a text with its end are tokens of that text. -/
theorem prefix_of_symbols {xs ts : List Token}
    (h : xs.map some <+: ts.map some ++ [none]) : xs <+: ts := by
  induction xs generalizing ts with
  | nil => exact List.nil_prefix
  | cons x xs ih =>
      cases ts with
      | nil => simp at h
      | cons t ts =>
          simp only [List.map_cons, List.cons_append, List.cons_prefix_cons,
            Option.some.injEq] at h ⊢
          exact ⟨h.1, ih h.2⟩

/-- Tokens with the end behind them are all tokens of the text. -/
theorem eq_of_symbols {xs ts : List Token}
    (h : xs.map some ++ [none] <+: ts.map some ++ [none]) : xs = ts := by
  obtain ⟨us, rfl⟩ := prefix_of_symbols ((List.prefix_append _ _).trans h)
  rw [List.map_append, List.append_assoc, List.prefix_append_right_inj] at h
  cases us with
  | nil => exact (List.append_nil xs).symm
  | cons u us => simp at h

/-! ## What has been read can be completed -/

/-- An operand is completed by closing all parentheses around it. -/
theorem OuterReads.closes {outer : List (Nat × Level)} {os : List Token}
    (h : OuterReads outer os) {l : Level} {ls us : List Token} {e : TagExpr}
    (hl : l.Reads ls) (he : Derives .primary us e) :
    ∃ value, Derives .disjunction
      (os ++ ls ++ us ++ List.replicate outer.length .closeParen) value := by
  induction h generalizing l ls us e with
  | nil => exact ⟨_, by simpa using hl.value he⟩
  | @cons offset l' outer ts us' houter hl' ih =>
      -- The innermost pair is an operand of the level around it.
      obtain ⟨value, hvalue⟩ := ih hl' (.parens (hl.value he))
      exact ⟨value, by simpa [List.replicate_succ] using hvalue⟩

/-- A text is separate if its first character is. -/
theorem separate_cons {c : Char} (htag : endsTag c = true)
    (hword : c.isAlpha = false) {s : List Char} : Separate (c :: s) :=
  ⟨by simpa [TagEnds], by simpa [WordEnds]⟩

/-- Closing parentheses may stand without a blank in between. -/
theorem lexes_closeParens (n : Nat) :
    Lexes (List.replicate n ')') (List.replicate n .closeParen) := by
  induction n with
  | zero => exact .nil
  | succ n ih => exact .closeParen ih

/-- An operand and closing parentheses, as a text that can follow any
other. -/
theorem lexes_operand_closeParens (n : Nat) :
    Lexes (' ' :: '@' :: (['a'] ++ List.replicate n ')'))
      (.tag "@a" :: List.replicate n .closeParen) := by
  refine .blank (by decide) (.tag (.plain (by decide) (by decide) .nil)
    (by simp) (fun c hc => ?_) (lexes_closeParens n))
  rw [List.eq_of_mem_replicate (List.mem_of_mem_head? hc)]
  decide

/-- **What has led to a state is viable.** -/
theorem State.Reads.viable {s : State} {ts : List Token} (hs : s.Reads ts)
    {before : List Char} (hbefore : Lexes before ts) :
    Viable (ts.map some) := by
  obtain ⟨os, ls, ps, houter, hlevel, hphase, rfl⟩ := hs
  -- A tail that completes the tokens, with the derivation of all.
  obtain ⟨tail, us, e, htail, hsep, hder⟩ : ∃ tail us e, Lexes tail us
      ∧ Separate tail ∧ Derives .disjunction (os ++ ls ++ ps ++ us) e := by
    cases hp : s.phase with
    | wanting before =>
        rw [hp] at hphase
        obtain rfl : ps = [] := hphase
        obtain ⟨e, he⟩ := houter.closes hlevel (.tag "@a")
        exact ⟨_, _, e, lexes_operand_closeParens s.outer.length,
          separate_cons (by decide) (by decide), by simpa using he⟩
    | holding operand =>
        rw [hp] at hphase
        obtain ⟨e, he⟩ := houter.closes hlevel hphase
        refine ⟨_, _, e, lexes_closeParens s.outer.length, ?_, he⟩
        cases s.outer.length with
        | zero => exact ⟨by simp [TagEnds], by simp [WordEnds]⟩
        | succ n => exact separate_cons (by decide) (by decide)
  refine viable_iff.mpr ⟨_, _, e, hbefore.append htail hsep, hder, ?_⟩
  exact ((List.prefix_append _ us).map some).trans (List.prefix_append _ _)

/-! ## What is refused cannot be completed -/

/-- A run that fails does so at one token. -/
theorem run_fails {placed : List (Nat × Token)} {s : State}
    {error : SyntaxError} (h : placed.foldlM State.step s = .error error) :
    ∃ before p behind t, placed = before ++ p :: behind
      ∧ before.foldlM State.step s = .ok t ∧ t.step p = .error error := by
  induction placed generalizing s with
  | nil => simp [pure, Except.pure] at h
  | cons p placed ih =>
      rw [List.foldlM_cons] at h
      cases hstep : s.step p with
      | error error' =>
          rw [hstep] at h
          exact ⟨[], p, placed, s, rfl, rfl, hstep.trans h⟩
      | ok next =>
          rw [hstep] at h
          obtain ⟨before, q, behind, t, rfl, hrun, hfail⟩ := ih h
          exact ⟨p :: before, q, behind, t, rfl, run_cons hstep hrun, hfail⟩

/-- **A token that is refused.**  No text goes on with it. -/
theorem not_viable_of_step {placed : List (Nat × Token)} {s : State}
    (hrun : placed.foldlM State.step State.initial = .ok s)
    {p : Nat × Token} {error : SyntaxError} (h : s.step p = .error error) :
    ¬ Viable ((placed.map Prod.snd ++ [p.2]).map some) := by
  intro hviable
  obtain ⟨text, ts, e, -, hder, hts⟩ := viable_iff.mp hviable
  obtain ⟨us, rfl⟩ := prefix_of_symbols hts
  -- The rest of that text may stand anywhere.
  have hplaced : (placed ++ p :: us.map fun t => (0, t)).map Prod.snd
      = placed.map Prod.snd ++ [p.2] ++ us := by
    simp [Function.comp_def]
  obtain ⟨level, held, hall, -⟩ := hder.reaches hplaced [] .start
  have hfail : (placed ++ p :: us.map fun t => (0, t)).foldlM State.step
      State.initial = .error error := by
    rw [List.foldlM_append, hrun]
    simp [List.foldlM_cons, h, bind, Except.bind]
  rw [show State.initial = ⟨[], .empty, .wanting .start⟩ from rfl, hall]
    at hfail
  exact absurd hfail (by simp)

/-- **An end that is refused.**  No text ends there. -/
theorem not_viable_of_finish {placed : List (Nat × Token)} {s : State}
    (hrun : placed.foldlM State.step State.initial = .ok s)
    {offset : Nat} {error : SyntaxError}
    (h : s.finish offset = .error error) :
    ¬ Viable ((placed.map Prod.snd).map some ++ [none]) := by
  intro hviable
  obtain ⟨text, ts, e, -, hder, hts⟩ := viable_iff.mp hviable
  obtain ⟨level, held, hall, -⟩ :=
    hder.reaches (eq_of_symbols hts) [] .start
  have hs : s = ⟨[], level, .holding held⟩ :=
    Except.ok.inj (hrun.symm.trans hall)
  rw [hs] at h
  simp [State.finish] at h

/-- Symbol `k` is the first one that no accepted text goes on with. -/
def FirstImpossible (symbols : List (Option Token)) (k : Nat) : Prop :=
  k < symbols.length ∧ Viable (symbols.take k)
    ∧ ¬ Viable (symbols.take (k + 1))

/-- There is only one such symbol. -/
theorem FirstImpossible.unique {symbols : List (Option Token)} {k j : Nat}
    (hk : FirstImpossible symbols k) (hj : FirstImpossible symbols j) :
    k = j := by
  have hle : ∀ {k j : Nat}, FirstImpossible symbols k →
      FirstImpossible symbols j → j ≤ k := fun {k j} hk hj =>
    Nat.not_lt.mp fun hlt => hk.2.2
      (hj.2.1.front (List.take_prefix_take_left hlt))
  exact Nat.le_antisymm (hle hj hk) (hle hk hj)

/-! ## Open parentheses -/

/-- The parentheses that are open behind one token more, the innermost
first. -/
def noteParen (opened : List Nat) : Nat × Token → List Nat
  | (start, .openParen) => start :: opened
  | (_, .closeParen) => opened.tail
  | _ => opened

/-- The bytes of the parentheses that are open behind these tokens, the
innermost first. -/
def openParens (placed : List (Nat × Token)) : List Nat :=
  placed.foldl noteParen []

/-- What is open has been open before or has been opened here. -/
theorem mem_foldl_noteParen {placed : List (Nat × Token)} {opened : List Nat}
    {o : Nat} (h : o ∈ placed.foldl noteParen opened) :
    o ∈ opened ∨ (o, Token.openParen) ∈ placed := by
  induction placed generalizing opened with
  | nil => exact .inl h
  | cons p placed ih =>
      rcases ih h with h | h
      · obtain ⟨start, t⟩ := p
        cases t with
        | openParen =>
            rcases List.mem_cons.mp h with rfl | h
            · exact .inr List.mem_cons_self
            · exact .inl h
        | closeParen => exact .inl (List.mem_of_mem_tail h)
        | tag | operator => exact .inl h
      · exact .inr (List.mem_cons_of_mem _ h)

/-- What is open has been opened. -/
theorem mem_of_mem_openParens {placed : List (Nat × Token)} {o : Nat}
    (h : o ∈ openParens placed) : (o, Token.openParen) ∈ placed := by
  simpa using mem_foldl_noteParen h

/-- A state knows which parentheses are open. -/
structure State.Knows (s : State) (opened : List Nat) : Prop where
  outer : s.outer.map Prod.fst = opened
  before : ∀ o, s.phase = .wanting (.paren o) → opened.head? = some o

/-- At the start none is open. -/
theorem State.Knows.initial : State.initial.Knows [] :=
  ⟨rfl, by simp [State.initial]⟩

/-- **Step.**  A token that is taken opens or closes what it says. -/
theorem State.Knows.step {s s' : State} {opened : List Nat}
    (hs : s.Knows opened) {p : Nat × Token} (h : s.step p = .ok s') :
    s'.Knows (noteParen opened p) := by
  obtain ⟨start, t⟩ := p
  obtain ⟨rfl, -⟩ := hs
  simp only [State.step] at h
  split at h
  · simp only [State.wantOperand] at h
    split at h
    · obtain rfl := Except.ok.inj h
      exact ⟨rfl, by simp⟩
    · obtain rfl := Except.ok.inj h
      exact ⟨rfl, by simp [noteParen]⟩
    · obtain rfl := Except.ok.inj h
      exact ⟨rfl, by simp⟩
    · simp at h
  · simp only [State.afterOperand] at h
    split at h
    · obtain rfl := Except.ok.inj h
      exact ⟨rfl, by simp⟩
    · obtain rfl := Except.ok.inj h
      exact ⟨rfl, by simp⟩
    · next heq =>
        obtain rfl := Except.ok.inj h
        exact ⟨by simp [noteParen, heq], by simp⟩
    · simp at h

/-- **Run.**  A run opens and closes what its tokens say. -/
theorem State.Knows.run {s s' : State} {opened : List Nat}
    (hs : s.Knows opened) {placed : List (Nat × Token)}
    (h : placed.foldlM State.step s = .ok s') :
    s'.Knows (placed.foldl noteParen opened) := by
  induction placed generalizing s opened with
  | nil =>
      obtain rfl : s = s' := by simpa [pure, Except.pure] using h
      exact hs
  | cons p placed ih =>
      rw [List.foldlM_cons] at h
      cases hstep : s.step p with
      | error error => simp [hstep, bind, Except.bind] at h
      | ok next =>
          rw [hstep] at h
          exact ih (hs.step hstep) h

/-! ## Where a fault is shown -/

/-- The fault is not of a token by itself, and is shown at the symbol
that starts at this byte, or at the innermost of these parentheses. -/
def ShownFor (opened : List Nat) (start : Nat) (error : SyntaxError) : Prop :=
  error.fault.ofToken = false
    ∧ if error.fault.ofParen then opened.head? = some error.offset
      else error.offset = start

/-- A token is refused at its start, or at a parenthesis. -/
theorem State.Knows.shownFor_step {s : State} {opened : List Nat}
    (hs : s.Knows opened) {p : Nat × Token} {error : SyntaxError}
    (h : s.step p = .error error) : ShownFor opened p.1 error := by
  obtain ⟨start, t⟩ := p
  simp only [State.step] at h
  split at h
  · next before hphase =>
      simp only [State.wantOperand] at h
      split at h <;> try simp at h
      subst h
      unfold State.refuse
      split
      · exact ⟨rfl, rfl⟩
      · exact ⟨rfl, hs.before _ hphase⟩
      · exact ⟨rfl, rfl⟩
  · simp only [State.afterOperand] at h
    split at h <;> try simp at h
    subst h
    unfold State.excess
    split
    · exact ⟨rfl, rfl⟩
    · next houter => exact ⟨rfl, by simp [← hs.outer, houter, Fault.ofParen]⟩

/-- An end is refused where it is, or at a parenthesis. -/
theorem State.Knows.shownFor_finish {s : State} {opened : List Nat}
    (hs : s.Knows opened) {offset : Nat} {error : SyntaxError}
    (h : s.finish offset = .error error) : ShownFor opened offset error := by
  simp only [State.finish] at h
  split at h
  · obtain rfl := Except.error.inj h
    exact ⟨rfl, rfl⟩
  · obtain rfl := Except.error.inj h
    exact ⟨rfl, rfl⟩
  · simp at h
  · next houter =>
      obtain rfl := Except.error.inj h
      exact ⟨rfl, by simp [← hs.outer, houter, Fault.ofParen]⟩

/-- Behind viable tokens there is a bad one, and the fault is its own. -/
def BlamesToken (text : List Char) (error : SyntaxError) : Prop :=
  Viable (((scan text).tokens.map Prod.snd).map some)
    ∧ ∃ before bad, text = before ++ bad
      ∧ Lexes before ((scan text).tokens.map Prod.snd)
      ∧ BadToken bad error.fault
      ∧ error.offset = shownAt (byteLength before) bad error.fault

/-- Symbol `k` is the first impossible one, and the fault is shown for
it.  The end of the text is a symbol that starts behind all bytes. -/
def BlamesPlace (text : List Char) (k : Nat) (error : SyntaxError) : Prop :=
  FirstImpossible ((scan text).symbols.map Prod.snd) k
    ∧ ∃ start symbol, (scan text).symbols[k]? = some (start, symbol)
      ∧ Stands text (((scan text).tokens.take k).map Prod.snd) start symbol
      ∧ (symbol = none → start = byteLength text)
      ∧ ShownFor (openParens ((scan text).tokens.take k)) start error

/-- Nothing stands behind the end of a text. -/
theorem Stands.start_of_finish {text : List Char} {ts : List Token}
    {start : Nat} (h : Stands text ts start none) :
    start = byteLength text := by
  obtain ⟨before, behind, rfl, rfl, -, hbegins⟩ := h
  cases hbegins
  rw [List.append_nil]

/-- The symbol behind a viable part is the first impossible one if it cannot
follow. -/
theorem firstImpossible_of_split {xs before behind : List (Option Token)}
    {x : Option Token} (hxs : xs = before ++ x :: behind)
    (hviable : Viable before) (hnot : ¬ Viable (before ++ [x])) :
    FirstImpossible xs before.length := by
  subst hxs
  refine ⟨by simp, ?_, ?_⟩
  · rwa [List.take_left]
  · rwa [List.take_append, List.take_of_length_le (Nat.le_succ _),
      Nat.add_sub_cancel_left, List.take_succ_cons, List.take_zero]

/-- The place behind a run, if the symbol there cannot follow. -/
theorem blamesPlace_of_run {text : List Char} {before : List (Nat × Token)}
    {s : State} (hrun : before.foldlM State.step State.initial = .ok s)
    {start : Nat} {symbol : Option Token}
    {behind : List (Nat × Option Token)}
    (hsymbols : (scan text).symbols
      = before.map (fun p => (p.1, some p.2)) ++ (start, symbol) :: behind)
    (htokens : (scan text).tokens.take before.length = before)
    (hnot : ¬ Viable ((before.map Prod.snd).map some ++ [symbol]))
    {error : SyntaxError} (hshown : ShownFor (openParens before) start error) :
    BlamesPlace text before.length error := by
  have hget : (scan text).symbols[before.length]? = some (start, symbol) := by
    simp [hsymbols]
  obtain ⟨front, -, -, -, hfront, -⟩ := scan_places hget
  rw [htokens] at hfront
  have hviable := (State.Reads.initial.run hrun).viable hfront
  refine ⟨?_, start, symbol, hget, scan_places hget, ?_, by rwa [htokens]⟩
  swap
  · rintro rfl
    exact (scan_places hget).start_of_finish
  have hsplit : (scan text).symbols.map Prod.snd
      = (before.map Prod.snd).map some ++ symbol :: behind.map Prod.snd := by
    simp [hsymbols, Function.comp_def]
  have h := firstImpossible_of_split hsplit hviable hnot
  simpa using h

/-- Every refused text blames a token or a place. -/
theorem blames_of_ofScan {text : List Char} {error : SyntaxError}
    (h : ofScan (scan text) = .error error) :
    BlamesToken text error ∨ ∃ k, BlamesPlace text k error := by
  simp only [ofScan, bind, Except.bind] at h
  split at h
  · next error' hrun =>
      -- A token is refused.
      obtain rfl := Except.error.inj h
      obtain ⟨before, p, behind, s, htokens, hbefore, hstep⟩ := run_fails hrun
      obtain ⟨rest, hsymbols⟩ : ∃ rest, (scan text).symbols
          = before.map (fun p => (p.1, some p.2)) ++ (p.1, some p.2) :: rest := by
        simp [Scan.symbols, htokens]
      refine .inr ⟨_, blamesPlace_of_run hbefore hsymbols
        (by simp [htokens]) ?_
        ((State.Knows.initial.run hbefore).shownFor_step hstep)⟩
      simpa using not_viable_of_step hbefore hstep
  · next s hrun =>
      split at h
      · next error' hend =>
          -- The scan has failed, behind tokens that are all taken.
          obtain rfl := Except.error.inj h
          obtain ⟨before, bad, htext, hlex, hbad, hoffset⟩ := scan_fails hend
          exact .inl ⟨(State.Reads.initial.run hrun).viable hlex,
            before, bad, htext, hlex, hbad, hoffset⟩
      · next offset hend =>
          -- The end is refused.
          have hsymbols : (scan text).symbols = (scan text).tokens.map
              (fun p => (p.1, some p.2)) ++ [(offset, none)] := by
            simp [Scan.symbols, hend]
          exact .inr ⟨_, blamesPlace_of_run hrun hsymbols
            (List.take_length ..)
            (not_viable_of_finish hrun h)
            ((State.Knows.initial.run hrun).shownFor_finish h)⟩

/-! ## Character boundaries -/

/-- A byte of a text that is in front of a character or at the end. -/
def Boundary (text : List Char) (offset : Nat) : Prop :=
  ∃ before behind, text = before ++ behind ∧ offset = byteLength before

/-- **A token is blamed in front of a character or at the end.** -/
theorem BlamesToken.boundary {text : List Char} {error : SyntaxError}
    (h : BlamesToken text error) : Boundary text error.offset := by
  obtain ⟨offset, fault⟩ := error
  obtain ⟨-, before, bad, rfl, -, hbad, hoffset⟩ := h
  dsimp only at hbad hoffset
  subst hoffset
  cases hbad with
  | character | word => exact ⟨before, _, rfl, rfl⟩
  | @name s _ =>
      exact ⟨before ++ ['@'], s, by simp,
        (byteLength_append before ['@']).symm⟩
  | escape =>
      exact ⟨_, [], (List.append_nil _).symm, (byteLength_append ..).symm⟩

/-- **So is a place.** -/
theorem BlamesPlace.boundary {text : List Char} {k : Nat}
    {error : SyntaxError} (h : BlamesPlace text k error) :
    Boundary text error.offset := by
  obtain ⟨-, start, symbol, -, ⟨before, behind, htext, hstart, -, -⟩, -, -,
    hshown⟩ := h
  split at hshown
  · -- The parenthesis is a symbol of the text itself.
    have hmem := mem_of_mem_openParens (List.mem_of_mem_head? hshown)
    obtain ⟨i, hi⟩ := List.mem_iff_getElem?.mp (List.mem_of_mem_take hmem)
    have hget : (scan text).symbols[i]?
        = some (error.offset, some .openParen) := Scan.symbols_getElem? hi
    obtain ⟨before, behind, htext, hoffset, -⟩ := scan_places hget
    exact ⟨before, behind, htext, hoffset⟩
  · exact ⟨before, behind, htext, hshown.trans hstart⟩

/-! ## The theorem -/

/-- **Where the fault of a refused text is shown.**  A fault of a token
by itself is the first bad token's, behind tokens that an accepted text
begins with: it is shown where the bad token starts, behind its `@` if a
name is missing, and at the end of the text for a backslash there.  Any
other fault is of the one symbol that makes the text impossible: it is
shown where that symbol starts, or, for parentheses that are empty or
not closed, at the innermost one that is open in front of it.  The place
is never inside a character or behind the text. -/
theorem parse_error_shown {text : String} {error : SyntaxError}
    (h : TagExpr.parse text = .error error) :
    (error.fault.ofToken = true → BlamesToken text.toList error
      ∧ (error.fault = .danglingEscape → error.offset = text.utf8ByteSize))
    ∧ (error.fault.ofToken = false → ∃ k, BlamesPlace text.toList k error
      ∧ ∀ j, FirstImpossible ((scan text.toList).symbols.map Prod.snd) j →
        j = k)
    ∧ error.offset ≤ text.utf8ByteSize
    ∧ ∃ before behind, text = before ++ behind
      ∧ error.offset = before.utf8ByteSize := by
  have hblames := blames_of_ofScan h
  refine ⟨fun htoken => ?_, fun hplace => ?_, ?_⟩
  · rcases hblames with hblames | ⟨k, -, start, symbol, -, -, -, hshown⟩
    · refine ⟨hblames, fun hescape => ?_⟩
      obtain ⟨-, before, bad, htext, -, -, hoffset⟩ := hblames
      rw [hoffset, hescape, ← byteLength_toList, htext, byteLength_append]
      rfl
    · simp [hshown.1] at htoken
  · rcases hblames with ⟨-, before, bad, -, -, hbad, -⟩ | ⟨k, hk⟩
    · simp [hbad.ofToken] at hplace
    · exact ⟨k, hk, fun j hj => hj.unique hk.1⟩
  · obtain ⟨before, behind, htext, hoffset⟩ : Boundary text.toList error.offset :=
      hblames.elim BlamesToken.boundary fun ⟨_, hk⟩ => hk.boundary
    rw [byteLength_eq] at hoffset
    have hsplit : text = String.ofList before ++ String.ofList behind := by
      rw [← String.toList_inj, String.toList_append, String.toList_ofList,
        String.toList_ofList, htext]
    refine ⟨?_, _, _, hsplit, hoffset⟩
    rw [hsplit, String.utf8ByteSize_append, hoffset]
    exact Nat.le_add_right _ _

/-- An operand that is missing inside parentheses, a parenthesis that is
never closed, and an escape that ends the text, behind a character of two
bytes each. -/
theorem parse_error_shown_behind_two_bytes :
    (∃ k, BlamesPlace "(@ä and )".toList k ⟨9, .operandExpectedAfter .and⟩)
    ∧ (∃ k, BlamesPlace "(@ä".toList k ⟨0, .missingParenthesis⟩)
    ∧ BlamesToken "@ä and @b\\".toList ⟨11, .danglingEscape⟩ := by
  have hoperand : TagExpr.parse "(@ä and )"
      = .error ⟨9, .operandExpectedAfter .and⟩ := by cbv
  have hparen : TagExpr.parse "(@ä" = .error ⟨0, .missingParenthesis⟩ := by
    cbv
  have hescape : TagExpr.parse "@ä and @b\\" = .error ⟨11, .danglingEscape⟩ := by
    cbv
  obtain ⟨i, hi, -⟩ := (parse_error_shown hoperand).2.1 rfl
  obtain ⟨j, hj, -⟩ := (parse_error_shown hparen).2.1 rfl
  exact ⟨⟨i, hi⟩, ⟨j, hj⟩, ((parse_error_shown hescape).1 rfl).1⟩

end SoloScenario.TagExpr
