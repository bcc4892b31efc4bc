import SoloScenario.Json.Token

/-!
# Reading JSON

The tokens of a text are read from left to right.  What is still open,
the innermost first, is kept with the parts that are complete in it
(`Frame`), and `Place` says what may come next.  `read?` answers the value
that a whole text spells.
-/

namespace SoloScenario.Json

/-- An array or an object that is still open, with what is complete in
it, the last part first. -/
inductive Frame where
  | items (done : List Value)
  | members (done : List (CodePoints × Value)) (key : CodePoints)

/-- What may come next. -/
inductive Place where
  | value
  | firstItem
  | key (done : List (CodePoints × Value))
  | firstKey
  | colon (done : List (CodePoints × Value)) (key : CodePoints)
  | behind (v : Value)

/-- The reader between two tokens. -/
structure ReaderState where
  frames : List Frame
  place : Place

namespace ReaderState

/-- The start of a value. -/
def startValue (frames : List Frame) : Token → Option ReaderState
  | .atom v => some ⟨frames, .behind v⟩
  | .openArray => some ⟨.items [] :: frames, .firstItem⟩
  | .openObject => some ⟨frames, .firstKey⟩
  | _ => none

/-- The key of a member, behind the members that are done. -/
def startKey (frames : List Frame) (done : List (CodePoints × Value)) :
    Token → Option ReaderState
  | .atom (.string key) => some ⟨frames, .colon done key⟩
  | _ => none

/-- What follows a complete value. -/
def follow (frames : List Frame) (v : Value) (t : Token) :
    Option ReaderState :=
  match frames, t with
  | .items done :: frames, .comma =>
    some ⟨.items (v :: done) :: frames, .value⟩
  | .items done :: frames, .closeArray =>
    some ⟨frames, .behind (.array (v :: done).reverse)⟩
  | .members done key :: frames, .comma =>
    some ⟨frames, .key ((key, v) :: done)⟩
  | .members done key :: frames, .closeObject =>
    some ⟨frames, .behind (.object ((key, v) :: done).reverse)⟩
  | _, _ => none

/-- One token. -/
def step (state : ReaderState) (t : Token) : Option ReaderState :=
  match state.place, state.frames, t with
  | .firstItem, .items _ :: frames, .closeArray =>
    some ⟨frames, .behind (.array [])⟩
  | .firstKey, frames, .closeObject =>
    some ⟨frames, .behind (.object [])⟩
  | .value, frames, t => startValue frames t
  | .firstItem, frames, t => startValue frames t
  | .firstKey, frames, t => startKey frames [] t
  | .key done, frames, t => startKey frames done t
  | .colon done key, frames, .colon =>
    some ⟨.members done key :: frames, .value⟩
  | .colon _ _, _, _ => none
  | .behind v, frames, t => follow frames v t

/-- The value that is complete when nothing is open any more. -/
def finish? (state : ReaderState) : Option Value :=
  match state.frames, state.place with
  | [], .behind v => some v
  | _, _ => none

end ReaderState

/-- The value that a text spells. -/
def read? (text : String) : Option Value := do
  let tokens ← tokens? text.toList
  let state ← tokens.foldlM ReaderState.step ⟨[], .value⟩
  state.finish?

end SoloScenario.Json
