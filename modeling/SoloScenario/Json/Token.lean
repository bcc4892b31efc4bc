import SoloScenario.Json.Value

/-!
# JSON tokens

The brackets, the separators, and the values that hold no others are the
tokens.  Space, tab, line feed and carriage return may stand between
them.  The rules are the strict ones: no control character inside a
string, no leading zero, no bare dot, only the escapes that exist.
-/

namespace SoloScenario.Json

/-- A token. -/
inductive Token where
  | openArray
  | closeArray
  | openObject
  | closeObject
  | comma
  | colon
  | atom (v : Value)

/-- What may stand between tokens. -/
def isSpace (c : Char) : Bool :=
  c == ' ' || c == '\t' || c == '\n' || c == '\r'

/-- The value of a hexadecimal digit. -/
def hexDigit? (c : Char) : Option Nat :=
  if '0' ≤ c ∧ c ≤ '9' then some (c.toNat - '0'.toNat)
  else if 'a' ≤ c ∧ c ≤ 'f' then some (c.toNat - 'a'.toNat + 10)
  else if 'A' ≤ c ∧ c ≤ 'F' then some (c.toNat - 'A'.toNat + 10)
  else none

/-- The value of four hexadecimal digits. -/
def hexCode? (a b c d : Char) : Option Nat := do
  return (← hexDigit? a) * 4096 + (← hexDigit? b) * 256
    + (← hexDigit? c) * 16 + (← hexDigit? d)

/-- The character that a one-letter escape stands for. -/
def escaped? : Char → Option Char
  | '"' => some '"'
  | '\\' => some '\\'
  | '/' => some '/'
  | 'b' => some '\x08'
  | 'f' => some '\x0c'
  | 'n' => some '\n'
  | 'r' => some '\r'
  | 't' => some '\t'
  | _ => none

/-- A code point in front of others.  A high surrogate joins the low one
behind it. -/
def consCode (code : Nat) (codes : CodePoints) : CodePoints :=
  match codes with
  | low :: rest =>
    if 0xD800 ≤ code ∧ code < 0xDC00 ∧ 0xDC00 ≤ low ∧ low < 0xE000 then
      (0x10000 + (code - 0xD800) * 0x400 + (low - 0xDC00)) :: rest
    else code :: codes
  | [] => [code]

/-- The string whose opening quote is in front of the text, and what is
behind its closing quote. -/
def string? : List Char → Option (CodePoints × List Char)
  | '"' :: s => some ([], s)
  | '\\' :: 'u' :: a :: b :: c :: d :: s => do
    let code ← hexCode? a b c d
    let (codes, rest) ← string? s
    return (consCode code codes, rest)
  | '\\' :: e :: s => do
    let c ← escaped? e
    let (codes, rest) ← string? s
    return (c.toNat :: codes, rest)
  | c :: s =>
    if c.toNat < 0x20 || c == '\\' then none
    else do
      let (codes, rest) ← string? s
      return (c.toNat :: codes, rest)
  | [] => none

/-- The digits in front of a text, at least one, and what is behind
them. -/
def digits? (s : List Char) : Option (List Char × List Char) :=
  match s.takeWhile Char.isDigit with
  | [] => none
  | ds => some (ds, s.dropWhile Char.isDigit)

/-- The whole part of a number: a zero, or digits that start with
another. -/
def whole? : List Char → Option (List Char × List Char)
  | '0' :: s => some (['0'], s)
  | s => digits? s

/-- The fraction of a number, which may be missing. -/
def fraction? : List Char → Option (List Char × List Char)
  | '.' :: s => (digits? s).map fun (ds, rest) => ('.' :: ds, rest)
  | s => some ([], s)

/-- The sign in front of a text, if there is one. -/
def sign : List Char → List Char × List Char
  | '+' :: s => (['+'], s)
  | '-' :: s => (['-'], s)
  | s => ([], s)

/-- The exponent of a number, which may be missing. -/
def exponent? : List Char → Option (List Char × List Char)
  | [] => some ([], [])
  | c :: s =>
    if c == 'e' || c == 'E' then
      (digits? (sign s).2).map fun (ds, rest) => (c :: (sign s).1 ++ ds, rest)
    else some ([], c :: s)

/-- The minus in front of a text, if there is one. -/
def minus : List Char → List Char × List Char
  | '-' :: s => (['-'], s)
  | s => ([], s)

/-- The number in front of a text, and what is behind it. -/
def number? (s : List Char) : Option (List Char × List Char) := do
  let (whole, behind) ← whole? (minus s).2
  let (fraction, behind) ← fraction? behind
  let (exponent, behind) ← exponent? behind
  return ((minus s).1 ++ whole ++ fraction ++ exponent, behind)

/-- What is behind a word in front of a text. -/
def word? (w : String) (s : List Char) : Option (List Char) :=
  if w.toList.isPrefixOf s then some (s.drop w.length) else none

/-- The value in front of a text that holds no others, and what is behind
it. -/
def atom? : List Char → Option (Value × List Char)
  | '"' :: s => (string? s).map fun (codes, rest) => (.string codes, rest)
  | s =>
    ((word? "null" s).map fun rest => (.null, rest)).or <|
      ((word? "true" s).map fun rest => (.bool true, rest)).or <|
      ((word? "false" s).map fun rest => (.bool false, rest)).or <|
      (number? s).map fun (ds, rest) => (.number (String.ofList ds), rest)

/-- The token that a bracket or a separator is. -/
def punctuation? (c : Char) : Option Token :=
  if c == '[' then some .openArray
  else if c == ']' then some .closeArray
  else if c == '\x7b' then some .openObject
  else if c == '\x7d' then some .closeObject
  else if c == ',' then some .comma
  else if c == ':' then some .colon
  else none

/-- The token in front of a text, and what is behind it. -/
def token? : List Char → Option (Token × List Char)
  | [] => none
  | c :: s =>
    match punctuation? c with
    | some t => some (t, s)
    | none => (atom? (c :: s)).map fun (v, rest) => (.atom v, rest)

/-- A string takes something off the text. -/
private theorem length_string_lt {s rest : List Char} {codes : CodePoints}
    (h : string? s = some (codes, rest)) : rest.length < s.length := by
  fun_induction string? s generalizing codes rest with
  | case1 s => simp_all
  | case2 a b c d s ih =>
      obtain ⟨code, _, h⟩ := Option.bind_eq_some_iff.mp h
      obtain ⟨⟨cs, r⟩, hr, h⟩ := Option.bind_eq_some_iff.mp h
      simp only [Option.pure_def, Option.some.injEq, Prod.mk.injEq] at h
      have := ih hr
      simp only [List.length_cons, ← h.2]
      omega
  | case3 e s _ ih =>
      obtain ⟨c, _, h⟩ := Option.bind_eq_some_iff.mp h
      obtain ⟨⟨cs, r⟩, hr, h⟩ := Option.bind_eq_some_iff.mp h
      simp only [Option.pure_def, Option.some.injEq, Prod.mk.injEq] at h
      have := ih hr
      simp only [List.length_cons, ← h.2]
      omega
  | case4 => simp at h
  | case5 c s _ _ _ _ ih =>
      obtain ⟨⟨cs, r⟩, hr, h⟩ := Option.bind_eq_some_iff.mp h
      simp only [Option.pure_def, Option.some.injEq, Prod.mk.injEq] at h
      have := ih hr
      simp only [List.length_cons, ← h.2]
      omega
  | case6 => simp at h

/-- Digits take something off the text. -/
private theorem length_digits_lt {s ds rest : List Char}
    (h : digits? s = some (ds, rest)) : rest.length < s.length := by
  unfold digits? at h
  split at h
  · simp at h
  · next ds' hds =>
      simp only [Option.some.injEq, Prod.mk.injEq] at h
      have hs := congrArg List.length
        (List.takeWhile_append_dropWhile (p := Char.isDigit) (l := s))
      simp only [List.length_append, h.2] at hs
      have : 0 < (s.takeWhile Char.isDigit).length :=
        List.length_pos_iff.mpr hds
      omega

/-- So does a whole number. -/
private theorem length_whole_lt {s ds rest : List Char}
    (h : whole? s = some (ds, rest)) : rest.length < s.length := by
  unfold whole? at h
  split at h
  · simp_all
  · exact length_digits_lt h

/-- A fraction never lengthens the text. -/
private theorem length_fraction_le {s ds rest : List Char}
    (h : fraction? s = some (ds, rest)) : rest.length ≤ s.length := by
  unfold fraction? at h
  split at h
  · obtain ⟨⟨ds', r⟩, hd, h⟩ := Option.map_eq_some_iff.mp h
    simp only [Prod.mk.injEq] at h
    have := length_digits_lt hd
    simp only [List.length_cons, ← h.2]
    omega
  · simp_all

/-- A sign never lengthens the text. -/
private theorem length_sign_le (s : List Char) :
    (sign s).2.length ≤ s.length := by
  unfold sign
  split <;> simp

/-- An exponent never lengthens the text. -/
private theorem length_exponent_le {s ds rest : List Char}
    (h : exponent? s = some (ds, rest)) : rest.length ≤ s.length := by
  unfold exponent? at h
  split at h
  · simp_all
  · next c s =>
      split at h
      · obtain ⟨⟨ds', r⟩, hd, h⟩ := Option.map_eq_some_iff.mp h
        simp only [Prod.mk.injEq] at h
        have := length_digits_lt hd
        have := length_sign_le s
        simp only [List.length_cons, ← h.2]
        omega
      · simp_all

/-- A number takes something off the text. -/
private theorem length_number_lt {s ds rest : List Char}
    (h : number? s = some (ds, rest)) : rest.length < s.length := by
  obtain ⟨⟨whole, s₁⟩, hw, h⟩ := Option.bind_eq_some_iff.mp h
  obtain ⟨⟨fraction, s₂⟩, hf, h⟩ := Option.bind_eq_some_iff.mp h
  obtain ⟨⟨exponent, s₃⟩, he, h⟩ := Option.bind_eq_some_iff.mp h
  simp only [Option.pure_def, Option.some.injEq, Prod.mk.injEq] at h
  have hw := length_whole_lt hw
  have hf := length_fraction_le hf
  have he := length_exponent_le he
  have hm : (minus s).2.length ≤ s.length := by
    unfold minus
    split <;> simp
  rw [← h.2]
  omega

/-- So does a word that has letters. -/
private theorem length_word_lt {w : String} {s rest : List Char}
    (hw : 0 < w.length) (h : word? w s = some rest) :
    rest.length < s.length := by
  unfold word? at h
  split at h
  · next hp =>
      simp only [Option.some.injEq] at h
      have := (List.isPrefixOf_iff_prefix.mp hp).length_le
      rw [← h, List.length_drop]
      simp only [String.length_toList] at this
      omega
  · simp at h

/-- So does a value that holds no others. -/
private theorem length_atom_lt {s rest : List Char} {v : Value}
    (h : atom? s = some (v, rest)) : rest.length < s.length := by
  unfold atom? at h
  split at h
  · obtain ⟨⟨codes, r⟩, hr, h⟩ := Option.map_eq_some_iff.mp h
    simp only [Prod.mk.injEq] at h
    exact Nat.lt_succ_of_lt (h.2 ▸ length_string_lt hr)
  · simp only [Option.or_eq_some_iff, Option.map_eq_some_iff,
      Prod.mk.injEq] at h
    obtain ⟨r, hr, _, rfl⟩ | ⟨_, ⟨r, hr, _, rfl⟩ | ⟨_, ⟨r, hr, _, rfl⟩ |
      ⟨_, ⟨ds, r⟩, hr, _, rfl⟩⟩⟩ := h
    · exact length_word_lt (by decide) hr
    · exact length_word_lt (by decide) hr
    · exact length_word_lt (by decide) hr
    · exact length_number_lt hr

/-- A token takes something off the text. -/
theorem length_token_lt {s rest : List Char} {t : Token}
    (h : token? s = some (t, rest)) : rest.length < s.length := by
  unfold token? at h
  split at h
  · simp at h
  · split at h
    · simp only [Option.some.injEq, Prod.mk.injEq] at h
      simp [← h.2]
    · obtain ⟨⟨v, r⟩, hr, h⟩ := Option.map_eq_some_iff.mp h
      simp only [Prod.mk.injEq] at h
      exact h.2 ▸ length_atom_lt hr

/-- All tokens of a text, if it is made of tokens. -/
def tokens? (s : List Char) : Option (List Token) :=
  match s with
  | [] => some []
  | c :: rest =>
    if isSpace c then tokens? rest
    else
      match _h : token? (c :: rest) with
      | none => none
      | some (t, behind) => (tokens? behind).map (t :: ·)
termination_by s.length
decreasing_by
  · exact Nat.lt_succ_self _
  · exact length_token_lt _h

end SoloScenario.Json
