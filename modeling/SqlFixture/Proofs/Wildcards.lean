import Mathlib.Data.List.TakeWhile
import SqlFixture.Proofs.Dividing

/-
**What is written in a pattern.**

Outside brackets an asterisk and a question mark are wildcards, and every other character stands for
itself. A pattern is divided at its slashes, so no component takes a slash but by a class that holds
it; and it is divided once more at its first component with a wildcard.

* `Path.exists_mem_parts_iff`: the parts of a text have its characters but the slashes;
* `Token.ofWildcard`, `Component.ofWildcards`: what is written without brackets;
* `Component.hasSlashClass_of_takesSlash`: only a class takes a slash;
* `Pattern.root`, `Pattern.wild`: a pattern before and from its first wildcard;
* `Pattern.parse_eq_search`: a pattern with a wildcard is searched for.
-/

namespace SqlFixture

/-! ### Characters of parts -/

namespace Path

/-- Divided characters are those of the text but the slashes. -/
theorem exists_mem_splitOn_iff {text : List Char} {character : Char} :
    (∃ part ∈ text.splitOn '/', character ∈ part) ↔ character ∈ text ∧ character ≠ '/' := by
  induction text with
  | nil => simp
  | cons first rest ih =>
    obtain ⟨head, tail, split⟩ := List.exists_cons_of_ne_nil (List.splitOn_ne_nil '/' rest)
    rw [List.splitOn_cons_eq_if_modifyHead]
    by_cases slash : first = '/'
    · subst slash
      have only : (∃ part ∈ [] :: rest.splitOn '/', character ∈ part) ↔
          ∃ part ∈ rest.splitOn '/', character ∈ part := by simp
      rw [if_pos (beq_self_eq_true _), only, ih, List.mem_cons]
      exact ⟨fun both => ⟨.inr both.1, both.2⟩, fun both => ⟨both.1.resolve_left both.2, both.2⟩⟩
    · rw [split] at ih
      rw [List.exists_mem_cons_iff] at ih
      rw [if_neg (by simpa using slash), split, List.modifyHead_cons, List.exists_mem_cons_iff,
        List.mem_cons, or_assoc, ih, List.mem_cons, or_and_right]
      exact or_congr_left ⟨fun same => ⟨same, same ▸ slash⟩, And.left⟩

/-- The parts of a text have its characters but the slashes. -/
theorem exists_mem_parts_iff {text : String} {character : Char} :
    (∃ part ∈ parts text, character ∈ part.toList) ↔
      character ∈ text.toList ∧ character ≠ '/' := by
  rw [← exists_mem_splitOn_iff, parts]
  constructor
  · rintro ⟨_, among, inside⟩
    obtain ⟨part, member, rfl⟩ := List.mem_map.mp among
    rw [String.toList_ofList] at inside
    exact ⟨part, member, inside⟩
  · rintro ⟨part, member, inside⟩
    refine ⟨String.ofList part, List.mem_map_of_mem member, ?_⟩
    rwa [String.toList_ofList]

end Path

namespace Glob

/-! ### What is written in a component -/

namespace Token

/-- What a character stands for outside brackets. -/
def ofWildcard (character : Char) : Token :=
  if character = '*' then .asterisk
  else if character = '?' then .question
  else .plain character

theorem ofCharacters_of_not_mem {text : List Char} (noClass : '[' ∉ text) :
    ofCharacters none text = .ok (text.map ofWildcard) := by
  induction text with
  | nil => rfl
  | cons first rest ih =>
    rw [ofCharacters, if_neg (List.ne_of_not_mem_cons noClass).symm,
      ih (List.not_mem_of_not_mem_cons noClass)]
    rfl

/-- Characters outside brackets are a token each, which has a piece. -/
theorem exists_ofToken_ofWildcard (character : Char) :
    ∃ piece, Piece.ofToken (ofWildcard character) = .ok piece := by
  unfold ofWildcard
  split
  · exact ⟨_, rfl⟩
  · split
    · exact ⟨_, rfl⟩
    · exact ⟨_, rfl⟩

theorem exists_ofTokens_wildcards (text : List Char) :
    ∃ pieces, Piece.ofTokens (text.map ofWildcard) = .ok pieces := by
  induction text with
  | nil => exact ⟨[], rfl⟩
  | cons first rest ih =>
    obtain ⟨piece, here⟩ := exists_ofToken_ofWildcard first
    obtain ⟨pieces, behind⟩ := ih
    refine ⟨piece :: pieces, ?_⟩
    rw [List.map_cons, Piece.ofTokens, here, behind]
    rfl

/-- A character that stands for itself was written. -/
theorem mem_of_plain_mem {bracket : Option OpenClass} {text : List Char} {tokens : List Token}
    (read : ofCharacters bracket text = .ok tokens) {character : Char}
    (member : .plain character ∈ tokens) : character ∈ text := by
  induction bracket, text using ofCharacters.induct generalizing tokens with
  | case1 =>
    cases read
    cases member
  | case2 => cases read
  | case3 rest ih =>
    rw [ofCharacters, if_pos rfl] at read
    exact List.mem_cons_of_mem _ (ih read member)
  | case4 first rest other ih =>
    rw [ofCharacters, if_neg other] at read
    obtain ⟨later, behind, rfl⟩ := map_eq_ok_iff.mp read
    rcases List.mem_cons.mp member with here | member
    · split at here
      · cases here
      · split at here
        · cases here
        · exact List.mem_cons.mpr (.inl (Token.plain.inj here))
    · exact List.mem_cons_of_mem _ (ih behind member)
  | case5 bracket first rest closes ih =>
    rw [ofCharacters, if_pos closes] at read
    obtain ⟨later, behind, rfl⟩ := map_eq_ok_iff.mp read
    rcases List.mem_cons.mp member with here | member
    · cases here
    · exact List.mem_cons_of_mem _ (ih behind member)
  | case6 bracket first rest within ih =>
    rw [ofCharacters, if_neg within] at read
    exact List.mem_cons_of_mem _ (ih read member)

end Token

namespace Component

/-- What a text without brackets stands for as a component. -/
def ofWildcards (text : String) : Component :=
  if text = "**" then .anyDirectories else .name (text.toList.map Token.ofWildcard)

/-- Whether some class of a component holds the slash. -/
def HasSlashClass : Component → Prop
  | .anyDirectories => False
  | .name tokens => ∃ negated marks set, .brackets negated marks ∈ tokens ∧
      CharClass.ofBrackets negated marks = some set ∧ set.contains '/' = true

variable {text : String} {texts : List String} {component : Component}
  {components : List Component}

theorem ofText_of_not_mem (noClass : '[' ∉ text.toList) : ofText text = .ok (ofWildcards text) := by
  unfold ofText ofWildcards
  split
  · rfl
  · rw [Token.ofComponent, Token.ofCharacters_of_not_mem noClass]
    rfl

theorem mapM_ofText_of_not_mem (noClass : ∀ text ∈ texts, '[' ∉ text.toList) :
    texts.mapM ofText = .ok (texts.map ofWildcards) := by
  induction texts with
  | nil => rfl
  | cons text texts ih =>
    obtain ⟨here, behind⟩ := List.forall_mem_cons.mp noClass
    rw [List.mapM_cons, ofText_of_not_mem here, ih behind]
    rfl

/-- Components have pieces if the tokens of each name do. -/
theorem exists_ofComponents (read : ∀ tokens, .name tokens ∈ components →
    ∃ pieces, Piece.ofTokens tokens = .ok pieces) :
    ∃ pieces, Piece.ofComponents components = .ok pieces := by
  induction components using Piece.ofComponents.induct with
  | case1 => exact ⟨_, rfl⟩
  | case2 => exact ⟨_, rfl⟩
  | case3 tokens => exact read tokens List.mem_cons_self
  | case4 components some_left ih =>
    obtain ⟨later, behind⟩ := ih fun tokens member => read tokens (List.mem_cons_of_mem _ member)
    refine ⟨.directories :: later, ?_⟩
    rw [ofComponents_anyDirectories some_left, behind]
    rfl
  | case5 tokens components some_left ih =>
    obtain ⟨first, here⟩ := read tokens List.mem_cons_self
    obtain ⟨later, behind⟩ := ih fun tokens member => read tokens (List.mem_cons_of_mem _ member)
    refine ⟨first ++ .character '/' :: later, ?_⟩
    rw [ofComponents_name tokens some_left, here, behind]
    rfl

theorem exists_ofComponents_wildcards (texts : List String) :
    ∃ pieces, Piece.ofComponents (texts.map ofWildcards) = .ok pieces := by
  refine exists_ofComponents fun tokens member => ?_
  obtain ⟨text, _, same⟩ := List.mem_map.mp member
  unfold ofWildcards at same
  split at same
  · cases same
  · obtain rfl := name.inj same
    exact Token.exists_ofTokens_wildcards text.toList

/-- There is no class without brackets. -/
theorem not_hasSlashClass_ofWildcards (text : String) : ¬(ofWildcards text).HasSlashClass := by
  unfold ofWildcards
  split
  · exact id
  · rintro ⟨negated, marks, _, member, _⟩
    obtain ⟨character, _, same⟩ := List.mem_map.mp member
    unfold Token.ofWildcard at same
    split at same
    · cases same
    · split at same
      · cases same
      · cases same

/-- Only a class takes a slash, since none is written in a component. -/
theorem hasSlashClass_of_takesSlash (read : ofText text = .ok component)
    (inside : '/' ∉ text.toList) (takes : component.TakesSlash) : component.HasSlashClass := by
  unfold ofText at read
  split at read
  · cases read
    exact takes
  · rw [Token.ofComponent] at read
    obtain ⟨tokens, written, rfl⟩ := map_eq_ok_iff.mp read
    obtain ⟨token, member, takes⟩ := takes
    cases token with
    | asterisk => exact takes.elim
    | question => exact takes.elim
    | plain character =>
      obtain rfl : character = '/' := takes
      exact absurd (Token.mem_of_plain_mem written member) inside
    | brackets negated marks =>
      obtain ⟨set, isClass, holds⟩ := takes
      exact ⟨negated, marks, set, member, isClass, holds⟩

theorem ofText_eq_anyDirectories_iff : ofText text = .ok .anyDirectories ↔ text = "**" := by
  unfold ofText
  constructor
  · intro read
    split at read
    next same => exact same
    next =>
      obtain ⟨_, _, same⟩ := map_eq_ok_iff.mp read
      cases same
  · exact fun same => if_pos same

theorem exists_of_mapM_ofText_cons (read : (text :: texts).mapM ofText = .ok components) :
    ∃ component later, components = component :: later ∧ ofText text = .ok component ∧
      texts.mapM ofText = .ok later := by
  rw [List.mapM_cons] at read
  obtain ⟨component, here, read⟩ := Directive.bind_eq_ok_iff.mp read
  obtain ⟨later, behind, same⟩ := Directive.bind_eq_ok_iff.mp read
  exact ⟨component, later, (Except.ok.inj same).symm, here, behind⟩

theorem length_of_mapM_ofText (read : texts.mapM ofText = .ok components) :
    components.length = texts.length := by
  induction texts generalizing components with
  | nil =>
    cases read
    rfl
  | cons text texts ih =>
    obtain ⟨component, later, rfl, _, behind⟩ := exists_of_mapM_ofText_cons read
    rw [List.length_cons, List.length_cons, ih behind]

/-- Each component is read from one of the texts. -/
theorem exists_text_of_mem (read : texts.mapM ofText = .ok components)
    (member : component ∈ components) : ∃ text ∈ texts, ofText text = .ok component := by
  induction texts generalizing components with
  | nil =>
    cases read
    cases member
  | cons text texts ih =>
    obtain ⟨first, later, rfl, here, behind⟩ := exists_of_mapM_ofText_cons read
    rcases List.mem_cons.mp member with rfl | member
    · exact ⟨text, List.mem_cons_self, here⟩
    · obtain ⟨written, among, same⟩ := ih behind member
      exact ⟨written, List.mem_cons_of_mem _ among, same⟩

theorem anyDirectories_mem_iff (read : texts.mapM ofText = .ok components) :
    .anyDirectories ∈ components ↔ "**" ∈ texts := by
  induction texts generalizing components with
  | nil =>
    cases read
    simp
  | cons text texts ih =>
    obtain ⟨component, later, rfl, here, behind⟩ := exists_of_mapM_ofText_cons read
    rw [List.mem_cons, List.mem_cons, ih behind]
    refine or_congr_left ⟨?_, ?_⟩
    · rintro rfl
      exact (ofText_eq_anyDirectories_iff.mp here).symm
    · rintro rfl
      exact Except.ok.inj here

/-- The last component is a double asterisk exactly if the last text is. -/
theorem getLast?_eq_anyDirectories_iff (read : texts.mapM ofText = .ok components) :
    components.getLast? = some .anyDirectories ↔ texts.getLast? = some "**" := by
  induction texts generalizing components with
  | nil =>
    cases read
    simp
  | cons text texts ih =>
    obtain ⟨component, later, rfl, here, behind⟩ := exists_of_mapM_ofText_cons read
    by_cases none_left : texts = []
    · subst none_left
      obtain rfl : later = [] := List.length_eq_zero_iff.mp (length_of_mapM_ofText behind)
      rw [List.getLast?_singleton, List.getLast?_singleton, Option.some_inj, Option.some_inj,
        ← ofText_eq_anyDirectories_iff, here, Except.ok.injEq]
    · have some_later : later ≠ [] := by
        rintro rfl
        exact none_left (List.length_eq_zero_iff.mp (length_of_mapM_ofText behind).symm)
      rw [List.getLast?_cons_of_ne_nil none_left, List.getLast?_cons_of_ne_nil some_later]
      exact ih behind

end Component

/-! ### The whole pattern -/

namespace Pattern

/-- The components of a pattern before the first one with a wildcard. -/
def literal (pattern : String) : List String :=
  (Path.parts pattern).takeWhile fun component => !hasWildcard component

/-- The components of a pattern from the first one with a wildcard. -/
def wild (pattern : String) : List String :=
  (Path.parts pattern).dropWhile fun component => !hasWildcard component

/-- The directory that the components before the first wildcard name. -/
def root (pattern : String) : String :=
  rootText (pattern.toList.head? == some '/') (literal pattern)

variable {pattern : String}

theorem literal_append_wild (pattern : String) :
    literal pattern ++ wild pattern = Path.parts pattern :=
  List.takeWhile_append_dropWhile

theorem wild_ne_nil {character : Char} (member : character ∈ pattern.toList)
    (special : character = '*' ∨ character = '?' ∨ character = '[') : wild pattern ≠ [] := by
  have other : character ≠ '/' := by
    rintro rfl
    revert special
    decide
  obtain ⟨part, among, inside⟩ := Path.exists_mem_parts_iff.mpr ⟨member, other⟩
  have special_part : hasWildcard part = true :=
    List.any_eq_true.mpr ⟨character, inside, by simpa [or_assoc] using special⟩
  intro none_wild
  rw [← literal_append_wild, none_wild, List.append_nil] at among
  have plain := List.mem_takeWhile_imp among
  rw [special_part] at plain
  cases plain

theorem parse_eq_search (some_wild : wild pattern ≠ []) :
    parse pattern = .search (root pattern) (wild pattern) := by
  have longer : (literal pattern).length ≠ (Path.parts pattern).length := by
    rw [← literal_append_wild, List.length_append]
    exact fun same => some_wild (List.length_eq_zero_iff.mp (Nat.left_eq_add.mp same))
  have behind : (Path.parts pattern).drop (literal pattern).length = wild pattern := by
    rw [← literal_append_wild, List.drop_left]
  rw [← behind]
  exact if_neg longer

theorem getLast?_wild (some_wild : wild pattern ≠ []) :
    (wild pattern).getLast? = (Path.parts pattern).getLast? := by
  rw [← literal_append_wild, List.getLast?_append_of_ne_nil _ some_wild]

/-- Components have characters of the pattern but the slashes. -/
theorem mem_of_mem_wild {text : String} (member : text ∈ wild pattern) {character : Char}
    (inside : character ∈ text.toList) : character ∈ pattern.toList ∧ character ≠ '/' := by
  have part : text ∈ Path.parts pattern := by
    rw [← literal_append_wild]
    exact List.mem_append_right _ member
  exact Path.exists_mem_parts_iff.mp ⟨text, part, inside⟩

theorem slash_not_mem_of_mem_wild {text : String} (member : text ∈ wild pattern) :
    '/' ∉ text.toList :=
  fun slash => (mem_of_mem_wild member slash).2 rfl

/-- The components of a pattern without classes. -/
theorem reads_of_no_class (noClass : '[' ∉ pattern.toList) :
    (wild pattern).mapM Component.ofText = .ok ((wild pattern).map Component.ofWildcards) :=
  Component.mapM_ofText_of_not_mem fun _ member bracket =>
    noClass (mem_of_mem_wild member bracket).1

end Pattern

end Glob

end SqlFixture
