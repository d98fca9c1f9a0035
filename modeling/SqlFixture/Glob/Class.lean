/-
**Character classes.**

A class stands in brackets: single characters, ranges `a-z`, and between two sets the sign `--`,
which takes the second one from the first. A `!` behind the opening bracket turns a class into its
complement. A closing bracket or hyphen in front stands for itself, and so does a hyphen that has
nothing to join; hyphens behind `!` always do.

* `CharClass.contains`: the characters of a class;
* `CharClass.nesting`: how deep its sets stand inside each other;
* `CharClass.ofBrackets`: the class that marks between brackets stand for, if they stand for one.
-/

namespace SqlFixture.Glob

/-- A set of characters. -/
inductive CharClass where
  /-- The characters from the first to the last one of some pair. -/
  | ranges (bounds : List (Char × Char))
  /-- The characters of `base` that are none of `removed`. -/
  | difference (base removed : CharClass)
  /-- All characters but those of `base`. -/
  | complement (base : CharClass)
deriving Repr, DecidableEq

/-- Whether a character belongs to a class. -/
def CharClass.contains (character : Char) : CharClass → Bool
  | ranges bounds => bounds.any fun bound => bound.1 ≤ character && character ≤ bound.2
  | difference base removed => base.contains character && !removed.contains character
  | complement base => !base.contains character

/-- How deep the sets of a class stand inside each other. Taking a set away is a level, and so are
the items of a set if there are at least two of them. -/
def CharClass.nesting : CharClass → Nat
  | ranges bounds => if bounds.length < 2 then 0 else 1
  | difference base removed => 1 + max base.nesting removed.nesting
  | complement base => base.nesting

/-- The deepest nesting that a class may have. -/
def CharClass.maxNesting : Nat := 248

/-- A character between the brackets of a class. -/
inductive Mark where
  | plain (character : Char)
  /-- A hyphen, which may join characters or divide sets. -/
  | hyphen
deriving Repr, DecidableEq

/-- The character of a mark that stands for itself. -/
def Mark.character : Mark → Char
  | plain character => character
  | hyphen => '-'

namespace CharClass

/-- The set read so far: the characters in `bounds`, taken from `base` if there is one. -/
def joined : (base : Option CharClass) → (bounds : List (Char × Char)) → CharClass
  | none, bounds => ranges bounds
  | some base, bounds => difference base (ranges bounds)

/-- Reads marks behind a set; `none` if a range ends before it begins. -/
def ofMarks (base : Option CharClass) (bounds : List (Char × Char)) :
    List Mark → Option CharClass
  | [] => some (joined base bounds)
  | .hyphen :: .hyphen :: marks => ofMarks (some (joined base bounds)) [] marks
  | first :: .hyphen :: .plain last :: marks =>
    if first.character ≤ last then ofMarks base ((first.character, last) :: bounds) marks
    else none
  | mark :: marks => ofMarks base ((mark.character, mark.character) :: bounds) marks

/-- Reads the marks between the brackets of a complement: hyphens in front stand for themselves,
and there has to be a mark at all. -/
def ofComplementMarks (marks : List Mark) : Option CharClass :=
  if marks.isEmpty then none
  else
    (ofMarks none ((marks.takeWhile (· = .hyphen)).map fun _ => ('-', '-'))
      (marks.dropWhile (· = .hyphen))).map complement

/-- The class between brackets, or `none` if the marks stand for none. -/
def ofBrackets (negated : Bool) (marks : List Mark) : Option CharClass :=
  if negated then ofComplementMarks marks else ofMarks none [] marks

end CharClass

end SqlFixture.Glob
