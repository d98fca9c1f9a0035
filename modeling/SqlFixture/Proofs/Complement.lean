import SqlFixture.Proofs.Wildcards

/-
**Classes and their complements.**

A `!` behind the opening bracket is to turn a class into its complement. It does so for most bodies.
But it also takes the place of the first character: a closing bracket behind it closes the class,
which then has no characters, and a hyphen behind it is no first character either. A single one
stands for itself all the same; several ones all do, where without `!` they would join or divide.

* `Component.IsClass`: a text that is a single class;
* `isClass_bracketed_iff`, `isClass_negated_iff`: the marks that a body is read to;
* `CharClass.Agree`: hyphens in front that stand for themselves count once;
* `CharClass.Complements`: a class that matches what another one does not;
* `Component.complements_of_isClass`: which bodies `!` turns into their complement.
-/

namespace SqlFixture.Glob

/-! ### What a class is read to -/

/-- What a character stands for between brackets, if it is not the first one. -/
def Mark.ofCharacter (character : Char) : Mark :=
  if character = '-' then .hyphen else .plain character

@[simp] theorem Mark.ofCharacter_eq_hyphen_iff {character : Char} :
    ofCharacter character = .hyphen ↔ character = '-' := by
  simp [ofCharacter]

namespace Token

variable {inner behind : List Char}

/-- An open class goes on to the next closing bracket. -/
theorem ofCharacters_of_open (noClose : ']' ∉ inner) (negated : Bool) (marks : List Mark) :
    ofCharacters (some ⟨negated, true, marks⟩) (inner ++ ']' :: behind) =
      (ofCharacters none behind).map
        (.brackets negated (marks.reverse ++ inner.map Mark.ofCharacter) :: ·) := by
  induction inner generalizing marks with
  | nil => simp [ofCharacters]
  | cons first rest ih =>
    have other : first ≠ ']' := (List.ne_of_not_mem_cons noClose).symm
    have mark : (⟨negated, true, marks⟩ : OpenClass).read first =
        ⟨negated, true, Mark.ofCharacter first :: marks⟩ := by
      simp [OpenClass.read, Mark.ofCharacter]
    rw [List.cons_append, ofCharacters, if_neg (by simp [other]), mark,
      ih (List.not_mem_of_not_mem_cons noClose), List.reverse_cons, List.append_assoc]
    rfl

/-- The first character behind the opening bracket stands for itself, except for `!`. -/
theorem ofCharacters_bracketed {first : Char} (noMark : first ≠ '!') (text : List Char) :
    ofCharacters none ('[' :: first :: text) =
      ofCharacters (some ⟨false, true, [.plain first]⟩) text := by
  rw [ofCharacters, if_pos rfl, ofCharacters, if_neg (by simp [OpenClass.start])]
  simp [OpenClass.start, OpenClass.read, noMark]

theorem ofCharacters_negated (text : List Char) :
    ofCharacters none ('[' :: '!' :: text) = ofCharacters (some ⟨true, true, []⟩) text := by
  rw [ofCharacters, if_pos rfl, ofCharacters, if_neg (by decide)]
  rfl

/-- What is not empty has a token. -/
theorem eq_nil_of_ofCharacters {bracket : Option OpenClass} {text : List Char}
    (read : ofCharacters bracket text = .ok []) : text = [] := by
  induction bracket, text using ofCharacters.induct with
  | case1 => rfl
  | case2 => rfl
  | case3 rest ih =>
    rw [ofCharacters, if_pos rfl] at read
    obtain rfl := ih read
    cases read
  | case4 first rest other ih =>
    rw [ofCharacters, if_neg other] at read
    obtain ⟨_, _, same⟩ := map_eq_ok_iff.mp read
    cases same
  | case5 bracket first rest closes ih =>
    rw [ofCharacters, if_pos closes] at read
    obtain ⟨_, _, same⟩ := map_eq_ok_iff.mp read
    cases same
  | case6 bracket first rest within ih =>
    rw [ofCharacters, if_neg within] at read
    obtain rfl := ih read
    cases read

/-- A closing bracket in a single class is its first character. -/
theorem exists_cons_of_single {body : List Char} {token : Token} (noMark : body.head? ≠ some '!')
    (read : ofCharacters none ('[' :: (body ++ [']'])) = .ok [token]) :
    ∃ first rest, body = first :: rest ∧ first ≠ '!' ∧ ']' ∉ rest := by
  cases body with
  | nil => cases read
  | cons first rest =>
    have other : first ≠ '!' := fun same => noMark (congrArg some same)
    refine ⟨first, rest, rfl, other, fun inside => ?_⟩
    obtain ⟨inner, later, rfl, noClose⟩ := List.eq_append_cons_of_mem inside
    rw [List.cons_append, ofCharacters_bracketed other, List.append_assoc, List.cons_append,
      ofCharacters_of_open noClose] at read
    obtain ⟨tokens, behind, same⟩ := map_eq_ok_iff.mp read
    obtain rfl : tokens = [] := (List.cons.inj same).2
    exact List.append_ne_nil_of_right_ne_nil later (List.cons_ne_nil _ _)
      (eq_nil_of_ofCharacters behind)

theorem ofTokens_singleton_iff {token : Token} {piece : Piece} :
    Piece.ofTokens [token] = .ok [piece] ↔ Piece.ofToken token = .ok piece := by
  constructor
  · intro read
    obtain ⟨_, _, here, _, same⟩ := exists_of_ofTokens_cons read
    cases same
    exact here
  · intro here
    rw [Piece.ofTokens, here]
    rfl

theorem ofToken_brackets_iff {negated : Bool} {marks : List Mark} {set : CharClass} :
    Piece.ofToken (.brackets negated marks) = .ok (.oneOf set) ↔
      CharClass.ofBrackets negated marks = some set ∧ set.nesting ≤ CharClass.maxNesting := by
  rw [Piece.ofToken]
  cases CharClass.ofBrackets negated marks with
  | none => simp
  | some first =>
    by_cases shallow : first.nesting ≤ CharClass.maxNesting
    · simp only [if_pos shallow, Except.ok.injEq, Piece.oneOf.injEq, Option.some.injEq]
      exact ⟨fun same => ⟨same, same ▸ shallow⟩, And.left⟩
    · simp only [if_neg shallow, reduceCtorEq, Option.some.injEq, false_iff]
      rintro ⟨rfl, within⟩
      exact shallow within

end Token

namespace Component

/-- Whether a text is read as a component that is a single class. How large its set may be is
checked with the whole pattern. -/
def IsClass (text : String) (set : CharClass) : Prop := Piece.ofTexts [text] = .ok [.oneOf set]

variable {text body : String} {set : CharClass}

theorem ofTexts_singleton (other : text ≠ "**") :
    Piece.ofTexts [text] = Token.ofComponent text >>= Piece.ofTokens := by
  rw [Piece.ofTexts, List.mapM_cons, ofText, if_neg other]
  cases Token.ofComponent text <;> rfl

theorem isClass_of_brackets {negated : Bool} {marks : List Mark}
    (read : Token.ofComponent text = .ok [.brackets negated marks]) :
    IsClass text set ↔
      CharClass.ofBrackets negated marks = some set ∧ set.nesting ≤ CharClass.maxNesting := by
  have other : text ≠ "**" := by
    rintro rfl
    cases read
  have tokens : Piece.ofTexts [text] = Piece.ofTokens [.brackets negated marks] := by
    rw [ofTexts_singleton other, read]
    rfl
  rw [IsClass, tokens, Token.ofTokens_singleton_iff, Token.ofToken_brackets_iff]

/-- A single class is read to a single token. -/
theorem exists_token_of_isClass (isClass : IsClass text set) :
    ∃ token, Token.ofComponent text = .ok [token] := by
  have other : text ≠ "**" := by
    rintro rfl
    cases isClass
  rw [IsClass, ofTexts_singleton other] at isClass
  obtain ⟨tokens, read, pieces_eq⟩ := Directive.bind_eq_ok_iff.mp isClass
  cases tokens with
  | nil => cases pieces_eq
  | cons token tokens =>
    obtain ⟨piece, later, _, behind, same⟩ := Token.exists_of_ofTokens_cons pieces_eq
    obtain rfl : later = [] := (List.cons.inj same).2.symm
    cases tokens with
    | nil => exact ⟨token, read⟩
    | cons second tokens =>
      obtain ⟨_, _, _, _, more⟩ := Token.exists_of_ofTokens_cons behind
      cases more

/-- A closing bracket in the body of a single class is its first character. -/
theorem exists_cons_of_isClass (noMark : body.toList.head? ≠ some '!')
    (isClass : IsClass ("[" ++ body ++ "]") set) :
    ∃ first rest, body.toList = first :: rest ∧ first ≠ '!' ∧ ']' ∉ rest := by
  obtain ⟨token, read⟩ := exists_token_of_isClass isClass
  rw [Token.ofComponent, String.toList_append, String.toList_append, List.append_assoc] at read
  exact Token.exists_cons_of_single noMark read

/-- What a body is read to: its first character stands for itself. -/
theorem isClass_bracketed_iff {first : Char} {rest : List Char}
    (whole : body.toList = first :: rest) (noMark : first ≠ '!') (noClose : ']' ∉ rest) :
    IsClass ("[" ++ body ++ "]") set ↔
      CharClass.ofMarks none [] (.plain first :: rest.map Mark.ofCharacter) = some set ∧
        set.nesting ≤ CharClass.maxNesting := by
  have read : Token.ofComponent ("[" ++ body ++ "]") =
      .ok [.brackets false (.plain first :: rest.map Mark.ofCharacter)] := by
    rw [Token.ofComponent, String.toList_append, String.toList_append, whole]
    exact (Token.ofCharacters_bracketed noMark _).trans (Token.ofCharacters_of_open noClose ..)
  exact isClass_of_brackets read

/-- What a body behind `!` is read to: no character is the first one. -/
theorem isClass_negated_iff (noClose : ']' ∉ body.toList) :
    IsClass ("[!" ++ body ++ "]") set ↔
      CharClass.ofComplementMarks (body.toList.map Mark.ofCharacter) = some set ∧
        set.nesting ≤ CharClass.maxNesting := by
  have read : Token.ofComponent ("[!" ++ body ++ "]") =
      .ok [.brackets true (body.toList.map Mark.ofCharacter)] := by
    rw [Token.ofComponent, String.toList_append, String.toList_append]
    exact (Token.ofCharacters_negated _).trans (Token.ofCharacters_of_open noClose ..)
  exact isClass_of_brackets read

/-- A closing bracket behind `!` closes a class without characters, which is none. -/
theorem ofTexts_negated_of_close (close : body.toList.head? = some ']') :
    ∃ fault, Piece.ofTexts ["[!" ++ body ++ "]"] = .error fault := by
  obtain ⟨rest, whole⟩ := List.head?_eq_some_iff.mp close
  have read : Token.ofComponent ("[!" ++ body ++ "]") =
      (Token.ofCharacters none (rest ++ [']'])).map (.brackets true [] :: ·) := by
    rw [Token.ofComponent, String.toList_append, String.toList_append, whole]
    exact (Token.ofCharacters_negated _).trans
      (Token.ofCharacters_of_open (List.not_mem_nil : ']' ∉ []) ..)
  have other : "[!" ++ body ++ "]" ≠ "**" := by
    intro same
    rw [same] at read
    cases behind : Token.ofCharacters none (rest ++ [']']) <;> rw [behind] at read <;> cases read
  rw [ofTexts_singleton other, read]
  cases Token.ofCharacters none (rest ++ [']']) with
  | error fault => exact ⟨fault, rfl⟩
  | ok tokens => exact ⟨.malformedClass, rfl⟩

end Component

/-! ### Hyphens in front -/

namespace CharClass

/-- Whether two sets have the same characters and stand equally deep, if there are any. -/
def Agree : Option CharClass → Option CharClass → Prop
  | none, none => True
  | some first, some second =>
    (∀ character, first.contains character = second.contains character) ∧
      first.nesting = second.nesting
  | _, _ => False

variable {base other : Option CharClass} {bounds others : List (Char × Char)}

theorem agree_refl (set : Option CharClass) : Agree set set := by
  cases set with
  | none => trivial
  | some set => exact ⟨fun _ => rfl, rfl⟩

theorem contains_ranges_congr (members : ∀ bound, bound ∈ bounds ↔ bound ∈ others)
    (character : Char) :
    (ranges bounds).contains character = (ranges others).contains character := by
  rw [Bool.eq_iff_iff, contains, contains, List.any_eq_true, List.any_eq_true]
  simp only [members]

/-- Equal pairs make up the same set, however often each stands among them. -/
theorem agree_joined (bases : Agree base other) (members : ∀ bound, bound ∈ bounds ↔ bound ∈ others)
    (lengths : bounds.length < 2 ↔ others.length < 2) :
    Agree (some (joined base bounds)) (some (joined other others)) := by
  have contained := contains_ranges_congr members
  have nested : (ranges bounds).nesting = (ranges others).nesting := by
    simp only [nesting, lengths]
  cases base with
  | none =>
    cases other with
    | none => exact ⟨contained, nested⟩
    | some _ => exact bases.elim
  | some base =>
    cases other with
    | none => exact bases.elim
    | some other =>
      obtain ⟨sameCharacters, sameDepth⟩ := bases
      refine ⟨fun character => ?_, ?_⟩
      · simp only [joined, contains, sameCharacters]
        rw [← contains, ← contains, contained]
      · simp only [joined, nesting, sameDepth]
        rw [← nesting, ← nesting, nested]

theorem length_cons_lt_two_iff (members : ∀ bound, bound ∈ bounds ↔ bound ∈ others)
    (bound : Char × Char) : (bound :: bounds).length < 2 ↔ (bound :: others).length < 2 := by
  have empty : bounds = [] ↔ others = [] := by
    simp only [List.eq_nil_iff_forall_not_mem, members]
  rw [List.length_cons, List.length_cons, Nat.succ_lt_succ_iff, Nat.succ_lt_succ_iff,
    Nat.lt_one_iff, Nat.lt_one_iff, List.length_eq_zero_iff, List.length_eq_zero_iff, empty]

/-- Marks are read alike behind equal pairs. How many pairs there are does not matter if another one
comes before the set ends. -/
theorem agree_ofMarks {marks : List Mark} (bases : Agree base other)
    (members : ∀ bound, bound ∈ bounds ↔ bound ∈ others)
    (lengths : marks = [] ∨ marks.head? = some .hyphen → (bounds.length < 2 ↔ others.length < 2)) :
    Agree (ofMarks base bounds marks) (ofMarks other others marks) := by
  induction base, bounds, marks using ofMarks.induct generalizing other others with
  | case1 base bounds => exact agree_joined bases members (lengths (.inl rfl))
  | case2 base bounds marks ih =>
    exact ih (agree_joined bases members (lengths (.inr rfl))) (fun _ => Iff.rfl) fun _ => Iff.rfl
  | case3 base bounds first last marks plain ordered ih =>
    rw [ofMarks, ofMarks, if_pos ordered, if_pos ordered]
    · exact ih bases (by simp [members]) fun _ => length_cons_lt_two_iff members _
    · exact plain
    · exact plain
  | case4 base bounds first last marks plain unordered =>
    rw [ofMarks, ofMarks, if_neg unordered, if_neg unordered]
    · trivial
    · exact plain
    · exact plain
  | case5 base bounds mark marks noDivision noRange ih =>
    rw [ofMarks, ofMarks]
    · exact ih bases (by simp [members]) fun _ => length_cons_lt_two_iff members _
    all_goals assumption

/-- Whether two sets have the same characters, if there are any, and both are shallow or neither. -/
def Alike (first second : Option CharClass) : Prop :=
  ((∃ set, first = some set ∧ set.nesting ≤ maxNesting) ↔
    ∃ set, second = some set ∧ set.nesting ≤ maxNesting) ∧
  ∀ set other, first = some set → second = some other →
    ∀ character, set.contains character = other.contains character

theorem Agree.alike {first second : Option CharClass} (agree : Agree first second) :
    Alike first second := by
  cases first with
  | none =>
    cases second with
    | none => exact ⟨Iff.rfl, fun _ _ none_here => by cases none_here⟩
    | some _ => exact agree.elim
  | some set =>
    cases second with
    | none => exact agree.elim
    | some other =>
      obtain ⟨contained, depth⟩ := agree
      constructor
      · simp [depth]
      · rintro _ _ ⟨⟩ ⟨⟩
        exact contained

theorem alike_ranges (members : ∀ bound, bound ∈ bounds ↔ bound ∈ others) :
    Alike (some (ranges bounds)) (some (ranges others)) := by
  have shallow (bounds : List (Char × Char)) : (ranges bounds).nesting ≤ maxNesting := by
    rw [nesting]
    split <;> decide
  constructor
  · exact iff_of_true ⟨_, rfl, shallow bounds⟩ ⟨_, rfl, shallow others⟩
  · rintro _ _ ⟨⟩ ⟨⟩
    exact contains_ranges_congr members

theorem ofMarks_cons {mark : Mark} {marks : List Mark} (plain : marks.head? ≠ some .hyphen) :
    ofMarks base bounds (mark :: marks) =
      ofMarks base ((mark.character, mark.character) :: bounds) marks := by
  rw [ofMarks]
  · rintro later rfl rfl
    exact plain rfl
  · rintro last later rfl
    exact plain rfl

theorem takeWhile_map_ofCharacter (text : List Char) :
    (text.map Mark.ofCharacter).takeWhile (· = .hyphen) =
      (text.takeWhile (· = '-')).map Mark.ofCharacter := by
  rw [List.takeWhile_map]
  simp only [Function.comp_def, Mark.ofCharacter_eq_hyphen_iff]

theorem dropWhile_map_ofCharacter (text : List Char) :
    (text.map Mark.ofCharacter).dropWhile (· = .hyphen) =
      (text.dropWhile (· = '-')).map Mark.ofCharacter := by
  rw [List.dropWhile_map]
  simp only [Function.comp_def, Mark.ofCharacter_eq_hyphen_iff]

theorem head?_dropWhile_ne (text : List Char) :
    ((text.dropWhile (· = '-')).map Mark.ofCharacter).head? ≠ some .hyphen := by
  have other := List.head?_dropWhile_not (fun character => decide (character = '-')) text
  rw [List.head?_map]
  revert other
  cases (text.dropWhile (· = '-')).head? <;> simp

/-- Hyphens in front that stand for themselves are read as a single one. -/
theorem alike_hyphens (rest : List Char) :
    Alike
      (ofMarks none ((('-' :: rest.takeWhile (· = '-')).map Mark.ofCharacter).map
        fun _ => ('-', '-')) ((rest.dropWhile (· = '-')).map Mark.ofCharacter))
      (ofMarks none [] (.plain '-' :: (rest.dropWhile (· = '-')).map Mark.ofCharacter)) := by
  have members (bound : Char × Char) :
      bound ∈ ((('-' :: rest.takeWhile (· = '-')).map Mark.ofCharacter).map
        fun _ => ('-', '-')) ↔ bound ∈ [('-', '-')] := by
    rw [List.map_map, List.map_cons, List.mem_cons, List.mem_map, List.mem_singleton]
    exact or_iff_left_of_imp fun ⟨_, _, same⟩ => same.symm
  rw [ofMarks_cons (head?_dropWhile_ne rest)]
  by_cases nothing : (rest.dropWhile (· = '-')).map Mark.ofCharacter = []
  · rw [nothing]
    exact alike_ranges members
  · refine (agree_ofMarks (agree_refl none) members ?_).alike
    rintro (empty | headed)
    · exact absurd empty nothing
    · exact absurd headed (head?_dropWhile_ne rest)

/-- Behind `!` the hyphens in front are read as a first character, which is one hyphen. -/
theorem exists_of_ofComplementMarks (first : Char) (rest : List Char) :
    ∃ inside, ofComplementMarks ((first :: rest).map Mark.ofCharacter) = inside.map complement ∧
      Alike inside (ofMarks none [] (.plain first ::
        (if first = '-' then rest.dropWhile (· = '-') else rest).map Mark.ofCharacter)) := by
  refine ⟨_, rfl, ?_⟩
  rw [takeWhile_map_ofCharacter, dropWhile_map_ofCharacter]
  by_cases hyphen : first = '-'
  · subst hyphen
    rw [if_pos rfl, List.takeWhile_cons_of_pos (by rfl), List.dropWhile_cons_of_pos (by rfl)]
    exact alike_hyphens rest
  · have mark : Mark.ofCharacter first = .plain first := if_neg hyphen
    rw [if_neg hyphen, List.takeWhile_cons_of_neg (by simpa using hyphen),
      List.dropWhile_cons_of_neg (by simpa using hyphen), List.map_cons, mark]
    exact (agree_refl _).alike

end CharClass

/-! ### Complements -/

/-- Whether a class matches exactly the single characters that another one does not match, apart
from the slash, which stands in no name. -/
def CharClass.Complements (other set : CharClass) : Prop :=
  ∀ name : String, '/' ∉ name.toList →
    (matchesText [.oneOf other] name = true ↔
      name.toList.length = 1 ∧ matchesText [.oneOf set] name = false)

theorem matchesText_oneOf_iff {set : CharClass} {name : String} :
    matchesText [.oneOf set] name = true ↔
      ∃ character, name.toList = [character] ∧ set.contains character = true := by
  rw [matchesText_eq_accepts, accepts_cons_iff]
  constructor
  · rintro ⟨_, back, ⟨character, holds, rfl⟩, nothing, same⟩
    rw [accepts_nil_iff.mp nothing] at same
    exact ⟨character, same, holds⟩
  · rintro ⟨character, same, holds⟩
    exact ⟨[character], [], ⟨character, holds, rfl⟩, rfl, same⟩

theorem CharClass.complements_of_contains {other set : CharClass}
    (opposite : ∀ character, other.contains character = !set.contains character) :
    other.Complements set := by
  intro name _
  rw [matchesText_oneOf_iff, List.length_eq_one_iff, ← Bool.not_eq_true, matchesText_oneOf_iff]
  constructor
  · rintro ⟨character, same, holds⟩
    rw [opposite, Bool.not_eq_true'] at holds
    refine ⟨⟨character, same⟩, ?_⟩
    rintro ⟨second, sameToo, inside⟩
    obtain rfl := List.singleton_inj.mp (same.symm.trans sameToo)
    rw [holds] at inside
    cases inside
  · rintro ⟨⟨character, same⟩, outside⟩
    refine ⟨character, same, ?_⟩
    rw [opposite, Bool.not_eq_true', ← Bool.not_eq_true]
    exact fun holds => outside ⟨character, same, holds⟩

namespace Component

variable {body : String} {set : CharClass}

/-- A body whose hyphens in front are reduced to one. -/
def lone (body : String) : String :=
  match body.toList with
  | [] => body
  | first :: rest =>
    String.ofList (first :: if first = '-' then rest.dropWhile (· = '-') else rest)

theorem lone_of_not_doubled (single : ¬['-', '-'] <+: body.toList) : lone body = body := by
  unfold lone
  split
  · rfl
  next first rest whole =>
    have kept : (if first = '-' then rest.dropWhile (· = '-') else rest) = rest := by
      split
      next hyphen =>
        subst hyphen
        cases rest with
        | nil => rfl
        | cons second later =>
          refine List.dropWhile_cons_of_neg ?_
          rw [decide_eq_true_iff]
          rintro rfl
          exact single ⟨later, whole.symm⟩
      next => rfl
    rw [kept, ← whole, String.ofList_toList]

theorem toList_lone {first : Char} {rest : List Char} (whole : body.toList = first :: rest) :
    (lone body).toList = first :: if first = '-' then rest.dropWhile (· = '-') else rest := by
  unfold lone
  rw [whole, String.toList_ofList]

/-- **A class behind `!` is the complement of the one with a lone hyphen in front**, and both are
classes or neither is. -/
theorem complements_lone {first : Char} {rest : List Char} (whole : body.toList = first :: rest)
    (noMark : first ≠ '!') (noClose : ']' ∉ body.toList) :
    ((∃ other, IsClass ("[!" ++ body ++ "]") other) ↔
      ∃ single, IsClass ("[" ++ lone body ++ "]") single) ∧
    ∀ other single, IsClass ("[!" ++ body ++ "]") other →
      IsClass ("[" ++ lone body ++ "]") single → other.Complements single := by
  have noCloseLone : ']' ∉ if first = '-' then rest.dropWhile (· = '-') else rest := by
    rw [whole] at noClose
    have noCloseRest := List.not_mem_of_not_mem_cons noClose
    split
    · exact fun inside => noCloseRest ((List.dropWhile_sublist _).mem inside)
    · exact noCloseRest
  obtain ⟨inside, negated, both, contained⟩ := CharClass.exists_of_ofComplementMarks first rest
  have isComplement (other : CharClass) : IsClass ("[!" ++ body ++ "]") other ↔
      ∃ set, inside = some set ∧ set.nesting ≤ CharClass.maxNesting ∧ set.complement = other := by
    rw [isClass_negated_iff noClose, whole, negated, Option.map_eq_some_iff]
    constructor
    · rintro ⟨⟨set, isSet, rfl⟩, shallow⟩
      exact ⟨set, isSet, shallow, rfl⟩
    · rintro ⟨set, isSet, shallow, rfl⟩
      exact ⟨⟨set, isSet, rfl⟩, shallow⟩
  simp only [isComplement, isClass_bracketed_iff (toList_lone whole) noMark noCloseLone]
  constructor
  · rw [← both]
    constructor
    · rintro ⟨_, set, isSet, shallow, rfl⟩
      exact ⟨set, isSet, shallow⟩
    · rintro ⟨set, isSet, shallow⟩
      exact ⟨_, set, isSet, shallow, rfl⟩
  · rintro _ single ⟨set, isSet, _, rfl⟩ ⟨isSingle, _⟩
    refine CharClass.complements_of_contains fun character => ?_
    rw [CharClass.contains, contained set single isSet isSingle]

/-- **A `!` turns a class into its complement unless its body begins with a closing bracket or with
two hyphens.** A closing bracket ends the class behind `!`, and nothing is accepted. Of several
hyphens in front one is left: what is read then is the complement of the body with a lone hyphen. -/
theorem complements_of_isClass (noMark : body.toList.head? ≠ some '!')
    (isClass : IsClass ("[" ++ body ++ "]") set) :
    (body.toList.head? = some ']' →
      ∃ fault, Piece.ofTexts ["[!" ++ body ++ "]"] = .error fault) ∧
    (body.toList.head? ≠ some ']' → ¬['-', '-'] <+: body.toList →
      ∃ other, IsClass ("[!" ++ body ++ "]") other ∧ other.Complements set) ∧
    (['-', '-'] <+: body.toList →
      ((∃ other, IsClass ("[!" ++ body ++ "]") other) ↔
        ∃ single, IsClass ("[" ++ lone body ++ "]") single) ∧
      ∀ other single, IsClass ("[!" ++ body ++ "]") other →
        IsClass ("[" ++ lone body ++ "]") single → other.Complements single) := by
  obtain ⟨first, rest, whole, other, noClose⟩ := exists_cons_of_isClass noMark isClass
  have noCloseWhole (opened : body.toList.head? ≠ some ']') : ']' ∉ body.toList := by
    rw [whole] at opened ⊢
    refine List.not_mem_cons_of_ne_of_not_mem (fun same => opened ?_) noClose
    rw [← same]
    rfl
  refine ⟨ofTexts_negated_of_close, fun opened single => ?_, fun doubled => ?_⟩
  · obtain ⟨both, complements⟩ := complements_lone whole other (noCloseWhole opened)
    rw [lone_of_not_doubled single] at both complements
    obtain ⟨negated, isNegated⟩ := both.mpr ⟨set, isClass⟩
    exact ⟨negated, isNegated, complements negated set isNegated isClass⟩
  · refine complements_lone whole other (noCloseWhole ?_)
    obtain ⟨later, same⟩ := doubled
    rw [← same]
    simp

/-- A range of letters, and a body that begins with a closing bracket. -/
theorem complements_of_isClass_of_letters :
    IsClass "[a-c]" (.ranges [('a', 'c')]) ∧
    (∃ other, IsClass "[!a-c]" other ∧ other.Complements (.ranges [('a', 'c')])) ∧
    IsClass "[]a]" (.ranges [('a', 'a'), (']', ']')]) ∧
    ∃ fault, Piece.ofTexts ["[!]a]"] = .error fault := by
  have letters : IsClass ("[" ++ "a-c" ++ "]") (.ranges [('a', 'c')]) := by
    unfold IsClass
    decide +kernel
  have close : IsClass ("[" ++ "]a" ++ "]") (.ranges [('a', 'a'), (']', ']')]) := by
    unfold IsClass
    decide +kernel
  obtain ⟨_, complement, _⟩ := complements_of_isClass (by decide) letters
  obtain ⟨refused, _⟩ := complements_of_isClass (by decide) close
  exact ⟨letters, complement (by decide) (by decide), close, refused (by decide)⟩

/-- **A `!` in front of a closing bracket or of two hyphens does not turn the class into its
complement.** The bracket is a class on its own, but nothing is accepted behind `!`. The hyphens are
a range up to the letter, but behind `!` they stand for themselves, so that a digit in the range
belongs to both classes. -/
theorem not_complements_of_close_or_hyphens :
    (IsClass "[]]" (.ranges [(']', ']')]) ∧ ¬∃ other, IsClass "[!]]" other) ∧
    IsClass "[--a]" (.ranges [('-', 'a')]) ∧
    ¬∃ other, IsClass "[!--a]" other ∧ other.Complements (.ranges [('-', 'a')]) := by
  have close : IsClass "[]]" (.ranges [(']', ']')]) := by
    unfold IsClass
    decide +kernel
  have hyphens : IsClass "[--a]" (.ranges [('-', 'a')]) := by
    unfold IsClass
    decide +kernel
  have negated : Piece.ofTexts ["[!--a]"] =
      .ok [.oneOf (.complement (.ranges [('a', 'a'), ('-', '-'), ('-', '-')]))] := by decide +kernel
  refine ⟨⟨close, ?_⟩, hyphens, ?_⟩
  · rintro ⟨other, isClass⟩
    have refused : Piece.ofTexts ["[!]]"] = .error .malformedClass := by decide +kernel
    cases refused.symm.trans isClass
  · rintro ⟨other, isClass, complements⟩
    cases negated.symm.trans isClass
    have missed := ((complements "5" (by decide)).mp (by decide +kernel)).2
    revert missed
    decide +kernel

end Component

end SqlFixture.Glob
