/-!
# Cutting at a separator

`pieces` cuts a text at every separator, so there is one piece more than
there are separators, and `joinPieces` puts the pieces together again
(`joinPieces_pieces`).
-/

namespace SoloScenario.Text

/-- The parts of a text between the separators. -/
def pieces (separator : Char) : List Char → List (List Char)
  | [] => [[]]
  | c :: s =>
    match pieces separator s with
    | [] => [[c]]
    | p :: ps => if c = separator then [] :: p :: ps else (c :: p) :: ps

/-- The parts with a separator between each two. -/
def joinPieces (separator : Char) (ps : List (List Char)) : List Char :=
  [separator].intercalate ps

/-- There is always a piece. -/
theorem pieces_ne_nil (separator : Char) (s : List Char) :
    pieces separator s ≠ [] := by
  cases s with
  | nil => simp [pieces]
  | cons c s =>
      rw [pieces]
      split
      · simp
      · split <;> simp

/-- Cutting loses nothing but the separators. -/
theorem joinPieces_pieces (separator : Char) (s : List Char) :
    joinPieces separator (pieces separator s) = s := by
  induction s with
  | nil => rfl
  | cons c s ih =>
      rw [pieces]
      split
      · next h => exact absurd h (pieces_ne_nil separator s)
      · next p ps h =>
          rw [h] at ih
          split
          · next hc => subst hc; simpa [joinPieces, List.intercalate] using ih
          · cases ps with
            | nil => simpa [joinPieces, List.intercalate] using ih
            | cons q qs => simpa [joinPieces, List.intercalate] using ih

end SoloScenario.Text
