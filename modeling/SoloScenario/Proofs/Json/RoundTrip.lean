import Mathlib
import SoloScenario.Json.Printer
import SoloScenario.Json.Reader

/-!
# Printed JSON is read back

A value of counts, texts, arrays and objects (`Value.Plain`), printed at
any depth, is read as itself (`read?_pretty`).  Printing and reading meet
at the tokens of the value:

* `Value.LexesBack` — the printed value is cut into its tokens, whatever
  stands behind it, as long as that does not go on with a number;
* `Value.ParsesBack` — the tokens lead the reader from a place for a value
  to the place behind it.
-/

namespace SoloScenario.Json

/-! ## Strings -/

/-- The text of a text's code points. -/
theorem toText?_ofText (s : String) : (CodePoints.ofText s).toText? = some s := by
  have hcodes : ∀ cs : List Char, (cs.map Char.toNat).mapM (fun code : Nat =>
      if h : code.isValidChar then some (Char.ofNatAux code h) else none)
        = some cs := by
    intro cs
    induction cs with
    | nil => rfl
    | cons c cs ih =>
        have hvalid : c.toNat.isValidChar := c.valid
        rw [List.map_cons, List.mapM_cons, ih, dif_pos hvalid]
        rfl
  rw [CodePoints.toText?, CodePoints.ofText, hcodes, Option.map_some,
    String.ofList_toList]

/-- Two strings with the same code points are one string. -/
theorem ofText_inj {s t : String} :
    CodePoints.ofText s = CodePoints.ofText t ↔ s = t := by
  refine ⟨fun h => ?_, fun h => h ▸ rfl⟩
  have htext := toText?_ofText s
  rw [h, toText?_ofText] at htext
  exact (Option.some.inj htext).symm

/-- A control character is read back from its number. -/
theorem string?_numericEscape {code : Nat} (h : code < 0x20) (s : List Char) :
    string? (numericEscape code ++ s)
      = (string? s).map fun (codes, rest) => (consCode code codes, rest) := by
  have hcode : ∀ code < 0x20, hexCode? (hexDigit (code / 4096 % 16))
      (hexDigit (code / 256 % 16)) (hexDigit (code / 16 % 16))
      (hexDigit (code % 16)) = some code := by decide
  simp only [numericEscape, List.cons_append, List.nil_append, string?,
    hcode code h]
  cases string? s <;> rfl

/-- An escape of one letter is read as what it stands for. -/
theorem string?_escape {e c : Char} (hu : e ≠ 'u') (he : escaped? e = some c)
    (s : List Char) : string? ('\\' :: e :: s)
      = (string? s).map fun (codes, rest) => (c.toNat :: codes, rest) := by
  rw [string?.eq_3 e s fun _ _ _ _ _ h _ => hu h, he]
  cases string? s <;> rfl

/-- A character is read back as it is written. -/
theorem string?_writtenCode (c : Char) (s : List Char) :
    string? (writtenCode c.toNat ++ s)
      = (string? s).map fun (codes, rest) => (c.toNat :: codes, rest) := by
  unfold writtenCode
  split
  · next h => exact h ▸ string?_escape (by decide) (c := '"') rfl s
  split
  · next h => exact h ▸ string?_escape (by decide) (c := '\\') rfl s
  split
  · next h => exact h ▸ string?_escape (by decide) (c := '\x08') rfl s
  split
  · next h => exact h ▸ string?_escape (by decide) (c := '\t') rfl s
  split
  · next h => exact h ▸ string?_escape (by decide) (c := '\n') rfl s
  split
  · next h => exact h ▸ string?_escape (by decide) (c := '\x0c') rfl s
  split
  · next h => exact h ▸ string?_escape (by decide) (c := '\r') rfl s
  split
  · next h =>
      have hcons : ∀ codes, consCode c.toNat codes = c.toNat :: codes := by
        intro codes
        cases codes with
        | nil => rfl
        | cons low rest => rw [consCode, if_neg (by omega)]
      simp only [string?_numericEscape h, hcons]
  · next hquote hslash _ _ _ _ _ hcontrol =>
      have hvalid : c.toNat.isValidChar := c.valid
      have hne : c ≠ '\\' := by
        rintro rfl
        exact hslash rfl
      rw [dif_pos hvalid]
      change string? (c :: s) = _
      rw [string?.eq_4 c s (fun h => hquote (congrArg Char.toNat h))
        (fun _ _ _ _ _ h _ => hne h) (fun _ _ h _ => hne h),
        if_neg (by simp [hcontrol, hne])]
      cases string? s <;> rfl

/-- What stands between the quotes of a text is read as that text. -/
theorem string?_written (s : List Char) (rest : List Char) :
    string? ((s.map Char.toNat).flatMap writtenCode ++ '"' :: rest)
      = some (s.map Char.toNat, rest) := by
  induction s with
  | nil => rfl
  | cons c s ih =>
      rw [List.map_cons, List.flatMap_cons, List.append_assoc,
        string?_writtenCode, ih]
      rfl

/-! ## Numbers -/

/-- A number that is not zero starts with another digit. -/
theorem head?_toDigits {n : Nat} (hn : n ≠ 0) :
    (Nat.toDigits 10 n).head? ≠ some '0' := by
  induction n using Nat.strongRecOn with
  | ind n ih =>
      by_cases hsmall : n < 10
      · rw [Nat.toDigits_of_lt_base hsmall]
        interval_cases n <;> simp_all
      · have hne : Nat.toDigits 10 (n / 10) ≠ [] :=
          List.length_pos_iff.mp Nat.length_toDigits_pos
        rw [Nat.toDigits_of_base_le (by decide) (by omega),
          List.head?_append_of_ne_nil _ hne]
        exact ih (n / 10) (by omega) (by omega)

/-- A number does not go on in this text. -/
def Closed (rest : List Char) : Prop :=
  ∀ c ∈ rest.head?, c.isDigit = false ∧ c ≠ '.' ∧ c ≠ 'e' ∧ c ≠ 'E'

/-- A character that no number holds closes every number in front of it. -/
theorem closed_cons {c : Char} (h : c.isDigit = false ∧ c ≠ '.' ∧ c ≠ 'e'
    ∧ c ≠ 'E') (rest : List Char) : Closed (c :: rest) := by
  simpa [Closed] using h

/-- The digits in front of a closed text are read, and nothing behind them. -/
theorem digits?_append {ds rest : List Char} (hne : ds ≠ [])
    (hds : ∀ c ∈ ds, c.isDigit = true) (h : Closed rest) :
    digits? (ds ++ rest) = some (ds, rest) := by
  have hstop : rest.takeWhile Char.isDigit = []
      ∧ rest.dropWhile Char.isDigit = rest := by
    cases rest with
    | nil => exact ⟨rfl, rfl⟩
    | cons c rest =>
        have hc : ¬ c.isDigit = true := by simp [(h c rfl).1]
        exact ⟨List.takeWhile_cons_of_neg hc, List.dropWhile_cons_of_neg hc⟩
  rw [digits?, List.takeWhile_append_of_pos hds,
    List.dropWhile_append_of_pos hds, hstop.1, hstop.2, List.append_nil]
  cases ds with
  | nil => exact absurd rfl hne
  | cons d ds => rfl

/-- The digits of a count are its whole part. -/
theorem whole?_repr (n : Nat) {rest : List Char} (h : Closed rest) :
    whole? (n.repr.toList ++ rest) = some (n.repr.toList, rest) := by
  by_cases hn : n = 0
  · subst hn
    rfl
  · have hne : n.repr.toList ≠ [] := by
      rw [Nat.toList_repr]
      exact List.length_pos_iff.mp Nat.length_toDigits_pos
    have hhead : ∀ s, n.repr.toList ++ rest ≠ '0' :: s := by
      intro s hs
      have hzero := congrArg List.head? hs
      rw [List.head?_append_of_ne_nil _ hne, Nat.toList_repr] at hzero
      exact head?_toDigits hn hzero
    rw [whole?.eq_2 _ hhead]
    refine digits?_append hne (fun c hc => ?_) h
    rw [Nat.toList_repr] at hc
    exact Nat.isDigit_of_mem_toDigits (by decide) (by decide) hc

/-- A count is read up to where it ends. -/
theorem number?_repr (n : Nat) {rest : List Char} (h : Closed rest) :
    number? (n.repr.toList ++ rest) = some (n.repr.toList, rest) := by
  have hminus : minus (n.repr.toList ++ rest)
      = ([], n.repr.toList ++ rest) := by
    rw [Nat.toList_repr]
    cases hds : Nat.toDigits 10 n with
    | nil => exact absurd hds (List.length_pos_iff.mp Nat.length_toDigits_pos)
    | cons c ds =>
        have hdigit : c.isDigit = true := Nat.isDigit_of_mem_toDigits
          (by decide) (by decide) (hds ▸ List.mem_cons_self)
        rw [List.cons_append, minus.eq_2 _ fun s hs => ?_]
        rw [(List.cons.inj hs).1] at hdigit
        exact absurd hdigit (by decide)
  have hfraction : fraction? rest = some ([], rest) := by
    rw [fraction?.eq_2 _ fun s hs => ?_]
    exact absurd rfl (h '.' (by rw [hs]; rfl)).2.1
  have hexponent : exponent? rest = some ([], rest) := by
    cases rest with
    | nil => rfl
    | cons c rest =>
        obtain ⟨-, -, he, hE⟩ := h c rfl
        rw [exponent?, if_neg (by simp [he, hE])]
  simp only [number?, hminus, whole?_repr n h, bind, Option.bind, hfraction,
    hexponent, List.nil_append, List.append_nil]
  rfl

/-! ## Tokens -/

/-- A space in front of the tokens is passed. -/
theorem tokens?_space {c : Char} (h : isSpace c = true) (s : List Char) :
    tokens? (c :: s) = tokens? s := by
  rw [tokens?, if_pos h]

/-- The token at the front is read before those behind it. -/
theorem tokens?_cons {c : Char} {s rest : List Char} {t : Token}
    (hspace : isSpace c = false) (h : token? (c :: s) = some (t, rest)) :
    tokens? (c :: s) = (tokens? rest).map (t :: ·) := by
  rw [tokens?, if_neg (by simp [hspace])]
  split
  · next hnone => rw [h] at hnone; exact absurd hnone (by simp)
  · next hsome =>
      obtain ⟨rfl, rfl⟩ := Prod.mk.inj (Option.some.inj (h.symm.trans hsome))
      rfl

/-- A bracket or a separator is a token. -/
theorem tokens?_punctuation {c : Char} {t : Token}
    (h : punctuation? c = some t) (hspace : isSpace c = false)
    (s : List Char) : tokens? (c :: s) = (tokens? s).map (t :: ·) := by
  refine tokens?_cons hspace ?_
  rw [token?, h]

/-- An indentation is passed as a whole. -/
theorem tokens?_indentation (depth : Nat) (s : List Char) :
    tokens? ((indentation depth).toList ++ s) = tokens? s := by
  have hspaces : ∀ n, tokens? (List.replicate n ' ' ++ s) = tokens? s := by
    intro n
    induction n with
    | zero => rfl
    | succ n ih =>
        rw [List.replicate_succ, List.cons_append, tokens?_space rfl, ih]
  have hlist : (indentation depth).toList ++ s
      = '\n' :: (List.replicate (2 * depth) ' ' ++ s) := by
    simp [indentation]
  rw [hlist, tokens?_space rfl, hspaces]

/-- A written text is a token. -/
theorem tokens?_writtenString (text : String) (s : List Char) :
    tokens? ((writtenString (.ofText text)).toList ++ s)
      = (tokens? s).map (.atom (.ofText text) :: ·) := by
  rw [writtenString, String.toList_ofList, List.cons_append, List.cons_append,
    List.append_assoc]
  refine tokens?_cons rfl ?_
  have hstring : string? ((CodePoints.ofText text).flatMap writtenCode
      ++ (['"'] ++ s)) = some (CodePoints.ofText text, s) :=
    string?_written text.toList s
  simp only [token?, punctuation?, atom?, hstring]
  rfl

/-- A digit is not a character of another kind. -/
theorem ne_of_isDigit {c k : Char} (hc : c.isDigit = true)
    (hk : k.isDigit = false) : c ≠ k := by
  rintro rfl
  exact absurd (hc.symm.trans hk) (by simp)

/-- What starts with a digit is a number or nothing. -/
theorem token?_digit {c : Char} (hc : c.isDigit = true) (s : List Char) :
    token? (c :: s) = (number? (c :: s)).map fun (ds, rest) =>
      (.atom (.number (String.ofList ds)), rest) := by
  have hpunctuation : punctuation? c = none := by
    simp [punctuation?, ne_of_isDigit hc]
  have hword : word? "null" (c :: s) = none ∧ word? "true" (c :: s) = none
      ∧ word? "false" (c :: s) = none := by
    have hn := (ne_of_isDigit (k := 'n') hc rfl).symm
    have ht := (ne_of_isDigit (k := 't') hc rfl).symm
    have hf := (ne_of_isDigit (k := 'f') hc rfl).symm
    refine ⟨?_, ?_, ?_⟩ <;> simp [word?, hn, ht, hf]
  rw [token?, hpunctuation]
  dsimp only
  rw [atom?.eq_2 _ fun s hs => ne_of_isDigit hc rfl (List.cons.inj hs).1,
    hword.1, hword.2.1, hword.2.2]
  simp only [Option.map_none, Option.none_or, Option.map_map]
  rfl

/-- A written count is a token. -/
theorem tokens?_repr (n : Nat) {s : List Char} (h : Closed s) :
    tokens? (n.repr.toList ++ s)
      = (tokens? s).map (.atom (.ofNat n) :: ·) := by
  have hnumber := number?_repr n h
  have htext : String.ofList n.repr.toList = n.repr := String.ofList_toList
  have hdigits : ∀ c ∈ n.repr.toList, c.isDigit = true := by
    intro c hc
    rw [Nat.toList_repr] at hc
    exact Nat.isDigit_of_mem_toDigits (by decide) (by decide) hc
  cases hds : n.repr.toList with
  | nil =>
      rw [Nat.toList_repr] at hds
      exact absurd hds (List.length_pos_iff.mp Nat.length_toDigits_pos)
  | cons c ds =>
      rw [hds] at hnumber htext
      have hc : c.isDigit = true := hdigits c (hds ▸ List.mem_cons_self)
      have htoken : token? (c :: (ds ++ s)) = some (.atom (.ofNat n), s) := by
        rw [token?_digit hc, ← List.cons_append, hnumber, Option.map_some]
        dsimp only
        rw [htext, Value.ofNat]
      exact tokens?_cons (by simp [isSpace, ne_of_isDigit hc]) htoken

/-! ## Values -/

namespace Value

/-- A value of counts, texts, arrays and objects. -/
inductive Plain : Value → Prop
  | count (n : Nat) : Plain (.ofNat n)
  | text (s : String) : Plain (.ofText s)
  | array {items : List Value} (h : ∀ v ∈ items, Plain v) :
      Plain (.array items)
  | object {members : List (String × Value)}
      (h : ∀ m ∈ members, Plain m.2) : Plain (.ofMembers members)

mutual
/-- The tokens of a value. -/
def tokens : Value → List Token
  | array [] => [.openArray, .closeArray]
  | array (v :: vs) =>
    .openArray :: (v.tokens ++ itemTokens vs ++ [.closeArray])
  | object [] => [.openObject, .closeObject]
  | object (m :: ms) =>
    .openObject :: (memberTokens m ++ laterTokens ms ++ [.closeObject])
  | v => [.atom v]

/-- The tokens of the items behind the first one. -/
def itemTokens : List Value → List Token
  | [] => []
  | v :: vs => .comma :: (v.tokens ++ itemTokens vs)

/-- The tokens of a member. -/
def memberTokens : CodePoints × Value → List Token
  | (key, v) => .atom (.string key) :: .colon :: v.tokens

/-- The tokens of the members behind the first one. -/
def laterTokens : List (CodePoints × Value) → List Token
  | [] => []
  | m :: ms => .comma :: (memberTokens m ++ laterTokens ms)
end

/-- The printed value is cut into its tokens, whatever stands behind. -/
def LexesBack (v : Value) : Prop :=
  ∀ depth rest ts, Closed rest → tokens? rest = some ts →
    tokens? ((v.pretty depth).toList ++ rest) = some (v.tokens ++ ts)

/-- An indentation starts with a line feed, so it closes every number. -/
theorem closed_indentation (depth : Nat) (rest : List Char) :
    Closed ((indentation depth).toList ++ rest) := by
  simp [indentation, Closed]

/-- **Later items are read as their tokens,** if each item is. -/
theorem lexesBack_items {vs : List Value} (hvs : ∀ v ∈ vs, v.LexesBack)
    (depth : Nat) {rest : List Char} {ts : List Token} (hrest : Closed rest)
    (h : tokens? rest = some ts) :
    Closed ((prettyItems depth vs).toList ++ rest)
      ∧ tokens? ((prettyItems depth vs).toList ++ rest)
        = some (itemTokens vs ++ ts) := by
  induction vs with
  | nil => exact ⟨hrest, h⟩
  | cons v vs ih =>
      obtain ⟨hv, hvs⟩ := List.forall_mem_cons.mp hvs
      obtain ⟨hclosed, hlater⟩ := ih hvs
      have htext : (prettyItems depth (v :: vs)).toList ++ rest
          = ',' :: ((indentation depth).toList ++ ((v.pretty depth).toList
            ++ ((prettyItems depth vs).toList ++ rest))) := by
        simp [prettyItems]
      rw [htext]
      refine ⟨closed_cons (by decide) _, ?_⟩
      rw [tokens?_punctuation rfl rfl, tokens?_indentation,
        hv depth _ _ hclosed hlater]
      simp [itemTokens]

/-- So an array is, between its brackets. -/
theorem lexesBack_array {vs : List Value} (hvs : ∀ v ∈ vs, v.LexesBack) :
    (array vs).LexesBack := by
  intro depth rest ts _ h
  cases vs with
  | nil =>
      rw [pretty, tokens]
      change tokens? ('[' :: ']' :: rest) = _
      rw [tokens?_punctuation rfl rfl, tokens?_punctuation rfl rfl, h]
      rfl
  | cons v vs =>
      obtain ⟨hv, hvs⟩ := List.forall_mem_cons.mp hvs
      have hclose : tokens? ((indentation depth).toList ++ ']' :: rest)
          = some (.closeArray :: ts) := by
        rw [tokens?_indentation, tokens?_punctuation rfl rfl, h]
        rfl
      obtain ⟨hclosed, hlater⟩ := lexesBack_items hvs (depth + 1)
        (closed_indentation depth (']' :: rest)) hclose
      have htext : ((array (v :: vs)).pretty depth).toList ++ rest
          = '[' :: ((indentation (depth + 1)).toList
            ++ ((v.pretty (depth + 1)).toList
              ++ ((prettyItems (depth + 1) vs).toList
                ++ ((indentation depth).toList ++ ']' :: rest)))) := by
        simp [pretty]
      rw [htext, tokens?_punctuation rfl rfl, tokens?_indentation,
        hv (depth + 1) _ _ hclosed hlater]
      simp [tokens]

/-- A member is cut into its tokens, if its value is. -/
theorem lexesBack_member {key : String} {v : Value} (hv : v.LexesBack)
    (depth : Nat) {rest : List Char} {ts : List Token} (hrest : Closed rest)
    (h : tokens? rest = some ts) :
    tokens? ((prettyMember depth (.ofText key, v)).toList ++ rest)
      = some (memberTokens (.ofText key, v) ++ ts) := by
  have htext : (prettyMember depth (.ofText key, v)).toList ++ rest
      = (writtenString (.ofText key)).toList
        ++ (':' :: ' ' :: ((v.pretty depth).toList ++ rest)) := by
    simp [prettyMember]
  rw [htext, tokens?_writtenString, tokens?_punctuation rfl rfl,
    tokens?_space rfl, hv depth _ _ hrest h]
  rfl

/-- A list of members with texts as keys. -/
def keyed (members : List (String × Value)) : List (CodePoints × Value) :=
  members.map fun (key, v) => (CodePoints.ofText key, v)

/-- **Later members are read as their tokens,** if each value is. -/
theorem lexesBack_members {ms : List (String × Value)}
    (hms : ∀ m ∈ ms, m.2.LexesBack) (depth : Nat) {rest : List Char}
    {ts : List Token} (hrest : Closed rest) (h : tokens? rest = some ts) :
    Closed ((prettyMembers depth (keyed ms)).toList ++ rest)
      ∧ tokens? ((prettyMembers depth (keyed ms)).toList ++ rest)
        = some (laterTokens (keyed ms) ++ ts) := by
  induction ms with
  | nil => exact ⟨hrest, h⟩
  | cons m ms ih =>
      obtain ⟨hm, hms⟩ := List.forall_mem_cons.mp hms
      obtain ⟨hclosed, hlater⟩ := ih hms
      have htext : (prettyMembers depth (keyed (m :: ms))).toList ++ rest
          = ',' :: ((indentation depth).toList
            ++ ((prettyMember depth (.ofText m.1, m.2)).toList
              ++ ((prettyMembers depth (keyed ms)).toList ++ rest))) := by
        simp [prettyMembers, keyed]
      rw [htext]
      refine ⟨closed_cons (by decide) _, ?_⟩
      rw [tokens?_punctuation rfl rfl, tokens?_indentation,
        lexesBack_member hm depth hclosed hlater]
      simp [laterTokens, keyed]

/-- So an object is, between its braces. -/
theorem lexesBack_ofMembers {ms : List (String × Value)}
    (hms : ∀ m ∈ ms, m.2.LexesBack) : (ofMembers ms).LexesBack := by
  intro depth rest ts _ h
  cases ms with
  | nil =>
      rw [ofMembers, List.map_nil, pretty, tokens]
      change tokens? ('\x7b' :: '\x7d' :: rest) = _
      rw [tokens?_punctuation rfl rfl, tokens?_punctuation rfl rfl, h]
      rfl
  | cons m ms =>
      obtain ⟨hm, hms⟩ := List.forall_mem_cons.mp hms
      have hclose : tokens? ((indentation depth).toList ++ '\x7d' :: rest)
          = some (.closeObject :: ts) := by
        rw [tokens?_indentation, tokens?_punctuation rfl rfl, h]
        rfl
      obtain ⟨hclosed, hlater⟩ := lexesBack_members hms (depth + 1)
        (closed_indentation depth ('\x7d' :: rest)) hclose
      have htext : ((ofMembers (m :: ms)).pretty depth).toList ++ rest
          = '\x7b' :: ((indentation (depth + 1)).toList
            ++ ((prettyMember (depth + 1) (.ofText m.1, m.2)).toList
              ++ ((prettyMembers (depth + 1) (keyed ms)).toList
                ++ ((indentation depth).toList ++ '\x7d' :: rest)))) := by
        simp [ofMembers, pretty, keyed]
      rw [htext, tokens?_punctuation rfl rfl, tokens?_indentation,
        lexesBack_member hm (depth + 1) hclosed hlater]
      simp [ofMembers, tokens, keyed]

/-- **A plain value is cut into its tokens.** -/
theorem Plain.lexesBack {v : Value} (hv : v.Plain) : v.LexesBack := by
  induction hv with
  | count n =>
      intro depth rest ts hrest h
      rw [ofNat, pretty, tokens?_repr n hrest, h]
      rfl
  | text s =>
      intro depth rest ts hrest h
      rw [ofText, pretty, tokens?_writtenString, h]
      rfl
  | array _ ih => exact lexesBack_array ih
  | object _ ih => exact lexesBack_ofMembers ih

/-! ## Reading the tokens -/

/-- The tokens lead to the place behind the value. -/
def ParsesBack (v : Value) : Prop :=
  ∀ frames, v.tokens.foldlM ReaderState.step ⟨frames, .value⟩
    = some ⟨frames, .behind v⟩

/-- One token more. -/
theorem read_cons {s s' : ReaderState} {t : Token} (h : s.step t = some s')
    (us : List Token) : (t :: us).foldlM ReaderState.step s
      = us.foldlM ReaderState.step s' := by
  rw [List.foldlM_cons, h]
  rfl

/-- The tokens of a value, and what is behind them. -/
theorem ParsesBack.append {v : Value} (hv : v.ParsesBack)
    (frames : List Frame) (us : List Token) :
    (v.tokens ++ us).foldlM ReaderState.step ⟨frames, .value⟩
      = us.foldlM ReaderState.step ⟨frames, .behind v⟩ := by
  rw [List.foldlM_append, hv]
  rfl

/-- No value starts with the end of an array. -/
theorem tokens_eq_cons (v : Value) :
    ∃ t us, v.tokens = t :: us ∧ t ≠ .closeArray := by
  cases v with
  | array items => cases items <;> simp [tokens]
  | object members => cases members <;> simp [tokens]
  | null | bool | number | string => simp [tokens]

/-- The first item of an array is read like any value. -/
theorem ParsesBack.first {v : Value} (hv : v.ParsesBack)
    (done : List Value) (frames : List Frame) :
    v.tokens.foldlM ReaderState.step ⟨.items done :: frames, .firstItem⟩
      = some ⟨.items done :: frames, .behind v⟩ := by
  obtain ⟨t, us, htokens, ht⟩ := v.tokens_eq_cons
  rw [← hv, htokens, List.foldlM_cons, List.foldlM_cons]
  cases t <;> first | rfl | exact absurd rfl ht

/-- **Later items end in the array that has them all,** behind those it had
before. -/
theorem parsesBack_items {vs : List Value} (hvs : ∀ v ∈ vs, v.ParsesBack)
    (done : List Value) (v : Value) (frames : List Frame) :
    (itemTokens vs ++ [Token.closeArray]).foldlM ReaderState.step
        ⟨.items done :: frames, .behind v⟩
      = some ⟨frames, .behind (array ((v :: done).reverse ++ vs))⟩ := by
  induction vs generalizing done v with
  | nil => simp [itemTokens, ReaderState.step, ReaderState.follow]
  | cons w vs ih =>
      obtain ⟨hw, hvs⟩ := List.forall_mem_cons.mp hvs
      rw [itemTokens, List.cons_append, List.append_assoc]
      refine (read_cons rfl _).trans ?_
      rw [hw.append, ih hvs (v :: done) w]
      simp

/-- So an array is parsed back if its items are. -/
theorem parsesBack_array {vs : List Value}
    (hvs : ∀ v ∈ vs, v.ParsesBack) : (array vs).ParsesBack := by
  intro frames
  cases vs with
  | nil => rw [tokens]; rfl
  | cons v vs =>
      obtain ⟨hv, hvs⟩ := List.forall_mem_cons.mp hvs
      rw [tokens, List.append_assoc]
      refine (read_cons rfl _).trans ?_
      rw [List.foldlM_append, hv.first]
      exact parsesBack_items hvs [] v frames

/-- **Later members end in the object that has them all,** behind those it had
before. -/
theorem parsesBack_members {ms : List (CodePoints × Value)}
    (hms : ∀ m ∈ ms, m.2.ParsesBack) (done : List (CodePoints × Value))
    (key : CodePoints) (v : Value) (frames : List Frame) :
    (laterTokens ms ++ [Token.closeObject]).foldlM ReaderState.step
        ⟨.members done key :: frames, .behind v⟩
      = some ⟨frames, .behind (object (((key, v) :: done).reverse ++ ms))⟩ := by
  induction ms generalizing done key v with
  | nil => simp [laterTokens, ReaderState.step, ReaderState.follow]
  | cons m ms ih =>
      obtain ⟨key', w⟩ := m
      obtain ⟨hw, hms⟩ := List.forall_mem_cons.mp hms
      simp only [laterTokens, memberTokens, List.cons_append,
        List.append_assoc]
      -- The comma, the key and the colon come in front of the value.
      refine (read_cons rfl _).trans <| (read_cons rfl _).trans <|
        (read_cons rfl _).trans ?_
      rw [hw.append, ih hms ((key, v) :: done) key' w]
      simp

/-- So an object is parsed back if its values are. -/
theorem parsesBack_object {ms : List (CodePoints × Value)}
    (hms : ∀ m ∈ ms, m.2.ParsesBack) : (object ms).ParsesBack := by
  intro frames
  cases ms with
  | nil => rw [tokens]; rfl
  | cons m ms =>
      obtain ⟨key, v⟩ := m
      obtain ⟨hv, hms⟩ := List.forall_mem_cons.mp hms
      simp only [tokens, memberTokens, List.cons_append, List.append_assoc]
      refine (read_cons rfl _).trans <| (read_cons rfl _).trans <|
        (read_cons rfl _).trans ?_
      rw [hv.append]
      exact parsesBack_members hms [] key v frames

/-- **The tokens of a plain value lead to the place behind it.** -/
theorem Plain.parsesBack {v : Value} (hv : v.Plain) : v.ParsesBack := by
  induction hv with
  | count n => exact fun _ => rfl
  | text s => exact fun _ => rfl
  | array _ ih => exact parsesBack_array ih
  | object _ ih =>
      refine parsesBack_object fun m hm => ?_
      obtain ⟨n, hn, rfl⟩ := List.mem_map.mp hm
      exact ih n hn

end Value

/-- **A plain value that is printed on a line of its own is read as
itself.** -/
theorem read?_pretty {v : Value} (hv : v.Plain) (depth : Nat) :
    read? (v.pretty depth ++ "\n") = some v := by
  have htokens : tokens? (v.pretty depth ++ "\n").toList = some v.tokens := by
    have hend : tokens? ['\n'] = some [] := by
      rw [tokens?_space rfl, tokens?]
    have h := hv.lexesBack depth ['\n'] [] (closed_cons (by decide) _) hend
    rw [List.append_nil] at h
    rw [String.toList_append]
    exact h
  simp only [read?, htokens, bind, Option.bind, hv.parsesBack []]
  rfl

end SoloScenario.Json
