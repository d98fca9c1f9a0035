import SqlFixture.Glob.Pattern

/-
**Matching paths.**

A list of pieces accepts a text if the text divides into parts that the pieces match in order. The
definition tries every division; the answer is computed piece by piece from the last one, as one
truth value for each end of the text, so that no division is tried twice.

* `Piece.rests`: what may be left of a text behind a match of one piece;
* `accepts`: the definition over all divisions;
* `matchesText`: the computation, and `matchesText_eq_accepts`: it computes the definition.
-/

namespace SqlFixture.Glob

/-! ### What it means to match -/

/-- The ends of a text behind runs of characters that `keep` allows, the empty run included. -/
def runRests (keep : Char → Bool) : List Char → List (List Char)
  | [] => [[]]
  | first :: rest => (first :: rest) :: if keep first then runRests keep rest else []

/-- The ends of a text behind whole directory names, where the name that is being read has begun
or not. -/
def directoryRests (begun : Bool) : List Char → List (List Char)
  | [] => []
  | first :: rest =>
    if first = '/' then (if begun then rest :: directoryRests false rest else [])
    else directoryRests true rest

/-- The end of a text behind a first character that `keep` allows. -/
def oneRest (keep : Char → Bool) : List Char → List (List Char)
  | [] => []
  | first :: rest => if keep first then [rest] else []

/-- What may be left of a text behind a match of a piece. -/
def Piece.rests : Piece → List Char → List (List Char)
  | .character value, text => oneRest (· == value) text
  | .anyCharacter, text => oneRest (· != '/') text
  | .oneOf set, text => oneRest (fun first => set.contains first) text
  | .anyRun, text => runRests (· != '/') text
  | .anyLine, text => runRests (· != '\n') text
  | .directories, text => text :: directoryRests false text

/-- Whether the pieces match the text in some division. -/
def accepts : List Piece → List Char → Bool
  | [], text => text.isEmpty
  | piece :: pieces, text => (piece.rests text).any fun rest => accepts pieces rest

/-! ### How it is computed -/

/-- The values of a property for a text and for each of its ends, the longest first. -/
def endValues (property : List Char → Bool) : List Char → List Bool
  | [] => [property []]
  | first :: rest => property (first :: rest) :: endValues property rest

/-- The value for the whole text. -/
def wholeValue : List Bool → Bool
  | [] => false
  | value :: _ => value

/-- The value for the end behind the next slash. -/
def slashValue : List Char → List Bool → Bool
  | [], _ => false
  | first :: rest, values =>
    if first = '/' then wholeValue values.tail else slashValue rest values.tail

/-- The values for one more piece in front: `values` are those of the pieces behind it. -/
def Piece.column (piece : Piece) : List Char → List Bool → List Bool
  | [], values =>
    match piece with
    | .character _ | .anyCharacter | .oneOf _ => [false]
    | .anyRun | .anyLine | .directories => [wholeValue values]
  | first :: rest, values =>
    let below := piece.column rest values.tail
    let value := match piece with
      | .character value => first == value && wholeValue values.tail
      | .anyCharacter => first != '/' && wholeValue values.tail
      | .oneOf set => set.contains first && wholeValue values.tail
      | .anyRun => wholeValue values || first != '/' && wholeValue below
      | .anyLine => wholeValue values || first != '\n' && wholeValue below
      | .directories => wholeValue values || first != '/' && slashValue rest below
    value :: below

/-- The values of pieces for a text and its ends. -/
def columns (text : List Char) : List Piece → List Bool
  | [] => endValues List.isEmpty text
  | piece :: pieces => piece.column text (columns text pieces)

/-- Whether the pieces match the text. -/
def matchesText (pieces : List Piece) (text : String) : Bool :=
  wholeValue (columns text.toList pieces)

/-! ### The computation is right -/

@[simp] theorem wholeValue_cons (value : Bool) (values : List Bool) :
    wholeValue (value :: values) = value := rfl

@[simp] theorem wholeValue_endValues (property : List Char → Bool) (text : List Char) :
    wholeValue (endValues property text) = property text := by
  cases text <;> rfl

@[simp] theorem tail_endValues (property : List Char → Bool) (first : Char) (rest : List Char) :
    (endValues property (first :: rest)).tail = endValues property rest := rfl

/-- A run stops at once or goes on behind its first character. -/
theorem any_runRests (keep : Char → Bool) (property : List Char → Bool) (first : Char)
    (rest : List Char) :
    (runRests keep (first :: rest)).any property =
      (property (first :: rest) || keep first && (runRests keep rest).any property) := by
  cases hkeep : keep first <;> simp [runRests, hkeep]

/-- A name that has begun ends at the next slash. -/
theorem slashValue_directories (property : List Char → Bool) (text : List Char) :
    slashValue text (endValues (fun rest => (Piece.directories.rests rest).any property) text) =
      (directoryRests true text).any property := by
  induction text with
  | nil => rfl
  | cons first rest ih =>
    by_cases hslash : first = '/'
    · simp [slashValue, directoryRests, hslash, Piece.rests]
    · simp only [slashValue, hslash, if_false, tail_endValues, directoryRests, ih]

/-- One more piece in front takes the values of the pieces behind it to its own. -/
theorem column_endValues (piece : Piece) (property : List Char → Bool) (text : List Char) :
    piece.column text (endValues property text) =
      endValues (fun rest => (piece.rests rest).any property) text := by
  induction text with
  | nil =>
    cases piece <;>
      simp [Piece.column, endValues, Piece.rests, oneRest, runRests, directoryRests]
  | cons first rest ih =>
    cases piece with
    | character value =>
      cases hkeep : first == value <;>
        simp [Piece.column, ih, endValues, Piece.rests, oneRest, hkeep]
    | anyCharacter =>
      cases hkeep : first != '/' <;>
        simp [Piece.column, ih, endValues, Piece.rests, oneRest, hkeep]
    | oneOf set =>
      cases hkeep : set.contains first <;>
        simp [Piece.column, ih, endValues, Piece.rests, oneRest, hkeep]
    | anyRun => simp [Piece.column, ih, endValues, Piece.rests, any_runRests]
    | anyLine => simp [Piece.column, ih, endValues, Piece.rests, any_runRests]
    | directories =>
      simp only [Piece.column, endValues, List.tail_cons, wholeValue_cons]
      rw [ih, slashValue_directories]
      by_cases hslash : first = '/'
      · simp [Piece.rests, directoryRests, hslash]
      · simp [Piece.rests, directoryRests, hslash, bne_iff_ne.mpr hslash]

/-- The values of all pieces are those of the definition. -/
theorem columns_eq (text : List Char) (pieces : List Piece) :
    columns text pieces = endValues (accepts pieces) text := by
  induction pieces with
  | nil => rfl
  | cons piece pieces ih => rw [columns, ih, column_endValues]; rfl

/-- The computation decides whether some division matches. -/
theorem matchesText_eq_accepts (pieces : List Piece) (text : String) :
    matchesText pieces text = accepts pieces text.toList := by
  rw [matchesText, columns_eq, wholeValue_endValues]

end SqlFixture.Glob
