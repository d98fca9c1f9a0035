import SqlFixture.Proofs.Discovered
import SqlFixture.Proofs.Taking

/-
**Components divide the names of a path.**

A path divides among components in order if a double asterisk stands for any names, and any other
component for one name that its tokens match. The pieces of components match the text of such a
path, and a text that they match divides in this way unless a class takes a slash. Classes that hold
the slash do no harm if the text has no more parts than there are components.

* `Token.Matches`, `Component.Divides`: what tokens and components stand for;
* `Token.accepts_iff_matches`: a name is matched piece by piece exactly if it is token by token;
* `Component.divides_of_accepts`, `Component.accepts_of_divides`: between texts and paths.
-/

namespace SqlFixture

/-! ### Parts of a text -/

namespace Path

theorem parts_append (front rest : List Char) :
    parts (String.ofList (front ++ '/' :: rest)) =
      parts (String.ofList front) ++ parts (String.ofList rest) := by
  rw [parts, parts, parts, String.toList_ofList, String.toList_ofList, String.toList_ofList,
    List.splitOn_append_cons_self, List.map_append]

theorem parts_of_not_mem {name : List Char} (inside : '/' ∉ name) :
    parts (String.ofList name) = [String.ofList name] := by
  rw [parts, String.toList_ofList, List.splitOn_eq_singleton inside]
  rfl

theorem parts_append_slash {name rest : List Char} (inside : '/' ∉ name) :
    parts (String.ofList (name ++ '/' :: rest)) =
      String.ofList name :: parts (String.ofList rest) := by
  rw [parts_append, parts_of_not_mem inside]
  rfl

theorem parts_slashed {names : List (List Char)} (named : Glob.AreNames names)
    {rest : List Char} :
    parts (String.ofList (Glob.slashed names ++ rest)) =
      names.map String.ofList ++ parts (String.ofList rest) := by
  induction names with
  | nil => rfl
  | cons name names ih =>
    obtain ⟨⟨_, inside⟩, named⟩ := Glob.areNames_cons.mp named
    rw [Glob.slashed_cons, List.append_assoc, List.cons_append, parts_append_slash inside, ih named]
    rfl

theorem joined_cons {name : String} {path : Path} (some_left : path ≠ []) :
    (joined (name :: path)).toList = name.toList ++ '/' :: path.joined.toList := by
  obtain ⟨next, later, rfl⟩ := List.exists_cons_of_ne_nil some_left
  rw [joined, String.intercalate_cons_cons, String.toList_append, String.toList_append,
    List.append_assoc]
  rfl

theorem joined_append {names path : Path} (some_left : path ≠ []) :
    (joined (names ++ path)).toList =
      Glob.slashed (names.map String.toList) ++ path.joined.toList := by
  induction names with
  | nil => rfl
  | cons name names ih =>
    rw [List.cons_append, joined_cons (List.append_ne_nil_of_right_ne_nil names some_left), ih,
      List.map_cons, Glob.slashed_cons, List.append_assoc, List.cons_append]

/-- There is one slash less than there are names. -/
theorem count_joined {path : Path} (names : ∀ name ∈ path, IsName name) (some_name : path ≠ []) :
    path.joined.toList.count '/' + 1 = path.length := by
  induction path with
  | nil => exact absurd rfl some_name
  | cons name path ih =>
    obtain ⟨inside, others⟩ := List.forall_mem_cons.mp names
    have none_inside : name.toList.count '/' = 0 := List.count_eq_zero.mpr inside
    by_cases none_left : path = []
    · subst none_left
      rw [joined, String.intercalate_singleton, none_inside]
      rfl
    · rw [joined_cons none_left, List.count_append, List.count_cons_self, none_inside,
        List.length_cons, ← ih others none_left, Nat.zero_add]

end Path

namespace Glob

theorem map_eq_ok_iff {ε α β : Type} {part : Except ε α} {change : α → β} {result : β} :
    part.map change = .ok result ↔ ∃ value, part = .ok value ∧ change value = result := by
  cases part <;> simp [Except.map]

/-! ### One name -/

namespace Token

/-- Whether tokens match the characters of a name in order, each one what it stands for. -/
inductive Matches : List Token → List Char → Prop
  | nil : Matches [] []
  | plain (value : Char) {tokens : List Token} {name : List Char} :
      Matches tokens name → Matches (.plain value :: tokens) (value :: name)
  | question (value : Char) {tokens : List Token} {name : List Char} :
      Matches tokens name → Matches (.question :: tokens) (value :: name)
  | asterisk (run : List Char) {tokens : List Token} {name : List Char} :
      Matches tokens name → Matches (.asterisk :: tokens) (run ++ name)
  | brackets {negated : Bool} {marks : List Mark} {set : CharClass} {value : Char}
      {tokens : List Token} {name : List Char} :
      CharClass.ofBrackets negated marks = some set → set.contains value = true → value ≠ '/' →
      Matches tokens name → Matches (.brackets negated marks :: tokens) (value :: name)

/-- Whether a token may take a slash. -/
def TakesSlash : Token → Prop
  | .plain value => value = '/'
  | .brackets negated marks =>
    ∃ set, CharClass.ofBrackets negated marks = some set ∧ set.contains '/' = true
  | _ => False

variable {token : Token} {tokens : List Token} {piece : Piece} {pieces : List Piece}
  {name : List Char}

theorem exists_of_ofTokens_cons (read : Piece.ofTokens (token :: tokens) = .ok pieces) :
    ∃ piece later, Piece.ofToken token = .ok piece ∧ Piece.ofTokens tokens = .ok later ∧
      pieces = piece :: later := by
  simp only [Piece.ofTokens, Directive.bind_eq_ok_iff] at read
  obtain ⟨piece, first, later, behind, same⟩ := read
  exact ⟨piece, later, first, behind, (Except.ok.inj same).symm⟩

theorem exists_of_ofToken_brackets {negated : Bool} {marks : List Mark}
    (read : Piece.ofToken (.brackets negated marks) = .ok piece) :
    ∃ set, CharClass.ofBrackets negated marks = some set ∧ piece = .oneOf set := by
  rw [Piece.ofToken] at read
  split at read
  next set isClass =>
    split at read
    · exact ⟨set, isClass, (Except.ok.inj read).symm⟩
    · cases read
  next => cases read

/-- The first token matches what its piece takes. -/
theorem matches_cons_iff (read : Piece.ofToken token = .ok piece) (inside : '/' ∉ name) :
    Matches (token :: tokens) name ↔
      ∃ front back, piece.Takes front ∧ Matches tokens back ∧ name = front ++ back := by
  constructor
  · intro matched
    cases matched with
    | plain value later =>
      cases read
      exact ⟨[value], _, rfl, later, rfl⟩
    | question value later =>
      cases read
      exact ⟨[value], _, ⟨value, (List.ne_of_not_mem_cons inside).symm, rfl⟩, later, rfl⟩
    | asterisk run later =>
      cases read
      exact ⟨run, _, fun slash => inside (List.mem_append_left _ slash), later, rfl⟩
    | @brackets _ _ set value _ _ isClass holds _ later =>
      obtain ⟨_, isClassToo, rfl⟩ := exists_of_ofToken_brackets read
      obtain rfl := Option.some.inj (isClass.symm.trans isClassToo)
      exact ⟨[value], _, ⟨value, holds, rfl⟩, later, rfl⟩
  · rintro ⟨front, back, takes, later, rfl⟩
    cases token with
    | plain value =>
      cases read
      obtain rfl : front = [value] := takes
      exact .plain value later
    | question =>
      cases read
      obtain ⟨value, _, rfl⟩ := takes
      exact .question value later
    | asterisk => exact .asterisk front later
    | brackets negated marks =>
      obtain ⟨set, isClass, rfl⟩ := exists_of_ofToken_brackets read
      obtain ⟨value, holds, rfl⟩ := takes
      exact .brackets isClass holds (List.ne_of_not_mem_cons inside).symm later

/-- **A name is matched piece by piece exactly if it is matched token by token.** -/
theorem accepts_iff_matches (read : Piece.ofTokens tokens = .ok pieces) (inside : '/' ∉ name) :
    accepts pieces name = true ↔ Matches tokens name := by
  induction tokens generalizing pieces name with
  | nil =>
    cases read
    rw [accepts_nil_iff]
    constructor
    · rintro rfl
      exact .nil
    · rintro ⟨⟩
      rfl
  | cons token tokens ih =>
    obtain ⟨piece, later, first, behind, rfl⟩ := exists_of_ofTokens_cons read
    rw [accepts_cons_iff, matches_cons_iff first inside]
    refine exists_congr fun front => exists_congr fun back => and_congr_right fun _ => ?_
    refine and_congr_left fun same => ih behind fun slash => inside ?_
    rw [same]
    exact List.mem_append_right _ slash

/-- A piece takes slashes only if its token does. -/
theorem not_mem_of_takes (read : Piece.ofToken token = .ok piece) (keeps : ¬token.TakesSlash)
    {front : List Char} (takes : piece.Takes front) : '/' ∉ front := by
  cases token with
  | plain value =>
    cases read
    obtain rfl : front = [value] := takes
    exact fun slash => keeps (List.mem_singleton.mp slash).symm
  | question =>
    cases read
    obtain ⟨value, other, rfl⟩ := takes
    exact fun slash => other (List.mem_singleton.mp slash).symm
  | asterisk =>
    cases read
    exact takes
  | brackets negated marks =>
    obtain ⟨set, isClass, rfl⟩ := exists_of_ofToken_brackets read
    obtain ⟨value, holds, rfl⟩ := takes
    intro slash
    obtain rfl := List.mem_singleton.mp slash
    exact keeps ⟨set, isClass, holds⟩

/-- What tokens match stays within a name if none of them takes a slash. -/
theorem not_mem_of_accepts (read : Piece.ofTokens tokens = .ok pieces)
    (keeps : ∀ token ∈ tokens, ¬token.TakesSlash) (accepted : accepts pieces name = true) :
    '/' ∉ name := by
  induction tokens generalizing pieces name with
  | nil =>
    cases read
    rw [accepts_nil_iff.mp accepted]
    exact List.not_mem_nil
  | cons token tokens ih =>
    obtain ⟨piece, later, first, behind, rfl⟩ := exists_of_ofTokens_cons read
    obtain ⟨front, back, takes, matched, rfl⟩ := accepts_cons_iff.mp accepted
    obtain ⟨keepsFirst, keepsLater⟩ := List.forall_mem_cons.mp keeps
    rw [List.mem_append, not_or]
    exact ⟨not_mem_of_takes first keepsFirst takes, ih behind keepsLater matched⟩

end Token

/-! ### All names -/

namespace Component

/-- Whether components divide a path in order: the double asterisk stands for any names, any other
component for one name. -/
inductive Divides : List Component → Path → Prop
  | nil : Divides [] []
  | name {tokens : List Token} {name : String} {components : List Component} {path : Path} :
      Token.Matches tokens name.toList → Divides components path →
      Divides (.name tokens :: components) (name :: path)
  | anyDirectories (names : List String) {components : List Component} {path : Path} :
      Divides components path → Divides (.anyDirectories :: components) (names ++ path)

/-- Whether some token of a component may take a slash. -/
def TakesSlash : Component → Prop
  | .anyDirectories => False
  | .name tokens => ∃ token ∈ tokens, token.TakesSlash

variable {components : List Component} {pieces : List Piece} {text : List Char} {path : Path}

theorem ofComponents_anyDirectories (some_left : components ≠ []) :
    Piece.ofComponents (.anyDirectories :: components) =
      (Piece.ofComponents components).map (.directories :: ·) := by
  cases components with
  | nil => exact absurd rfl some_left
  | cons component components => rfl

theorem ofComponents_name (tokens : List Token) (some_left : components ≠ []) :
    Piece.ofComponents (.name tokens :: components) = (do
      let pieces ← Piece.ofTokens tokens
      let later ← Piece.ofComponents components
      return pieces ++ .character '/' :: later) := by
  cases components with
  | nil => exact absurd rfl some_left
  | cons component components => rfl

theorem exists_of_ofComponents_anyDirectories (some_left : components ≠ [])
    (read : Piece.ofComponents (.anyDirectories :: components) = .ok pieces) :
    ∃ later, Piece.ofComponents components = .ok later ∧ pieces = .directories :: later := by
  rw [ofComponents_anyDirectories some_left] at read
  obtain ⟨later, behind, same⟩ := map_eq_ok_iff.mp read
  exact ⟨later, behind, same.symm⟩

theorem exists_of_ofComponents_name {tokens : List Token} (some_left : components ≠ [])
    (read : Piece.ofComponents (.name tokens :: components) = .ok pieces) :
    ∃ first later, Piece.ofTokens tokens = .ok first ∧ Piece.ofComponents components = .ok later ∧
      pieces = first ++ .character '/' :: later := by
  rw [ofComponents_name tokens some_left] at read
  simp only [Directive.bind_eq_ok_iff] at read
  obtain ⟨first, front, later, behind, same⟩ := read
  exact ⟨first, later, front, behind, (Except.ok.inj same).symm⟩

/-- Pieces of a name and of what follows it match a text with a slash between. -/
theorem accepts_append_slash_iff {first later : List Piece} :
    accepts (first ++ .character '/' :: later) text = true ↔
      ∃ name rest, accepts first name = true ∧ accepts later rest = true ∧
        text = name ++ '/' :: rest := by
  simp only [accepts_append_iff, accepts_cons_iff]
  constructor
  · rintro ⟨name, _, earlier, ⟨_, rest, rfl, matched, rfl⟩, rfl⟩
    exact ⟨name, rest, earlier, matched, rfl⟩
  · rintro ⟨name, rest, earlier, matched, rfl⟩
    exact ⟨name, _, earlier, ⟨['/'], rest, rfl, matched, rfl⟩, rfl⟩

/-- Without a double asterisk there is a slash between any two components. -/
theorem length_le_count (read : Piece.ofComponents components = .ok pieces)
    (single : .anyDirectories ∉ components) (accepted : accepts pieces text = true) :
    components.length ≤ text.count '/' + 1 := by
  induction components generalizing pieces text with
  | nil => exact Nat.zero_le _
  | cons component components ih =>
    cases component with
    | anyDirectories => exact absurd List.mem_cons_self single
    | name tokens =>
      by_cases none_left : components = []
      · subst none_left
        exact Nat.le_add_left 1 _
      · obtain ⟨first, later, _, behind, rfl⟩ := exists_of_ofComponents_name none_left read
        obtain ⟨name, rest, _, matched, rfl⟩ := accepts_append_slash_iff.mp accepted
        have shorter := ih behind (List.not_mem_of_not_mem_cons single) matched
        rw [List.count_append, List.count_cons_self, List.length_cons]
        omega

/-- **A text that is matched divides** if no component takes a slash, or if each component has to
take one part since there are no more parts. -/
theorem divides_of_accepts (read : Piece.ofComponents components = .ok pieces)
    (some_component : components ≠ [])
    (keeps : (∀ component ∈ components, ¬component.TakesSlash) ∨
      .anyDirectories ∉ components ∧ text.count '/' < components.length)
    (accepted : accepts pieces text = true) :
    Divides components (Path.parts (String.ofList text)) := by
  induction components using Piece.ofComponents.induct generalizing pieces text with
  | case1 => exact absurd rfl some_component
  | case2 =>
    rw [← List.append_nil (Path.parts _)]
    exact .anyDirectories _ .nil
  | case3 tokens =>
    have inside : '/' ∉ text := by
      rcases keeps with keeps | ⟨_, few⟩
      · refine Token.not_mem_of_accepts read (fun token member takes => ?_) accepted
        exact keeps _ List.mem_cons_self ⟨token, member, takes⟩
      · exact List.count_eq_zero.mp (Nat.lt_one_iff.mp few)
    rw [Path.parts_of_not_mem inside]
    refine .name ?_ .nil
    rw [String.toList_ofList]
    exact (Token.accepts_iff_matches read inside).mp accepted
  | case4 components some_left ih =>
    obtain ⟨later, behind, rfl⟩ := exists_of_ofComponents_anyDirectories some_left read
    obtain ⟨_, rest, ⟨names, named, rfl⟩, matched, rfl⟩ := accepts_cons_iff.mp accepted
    have keepsAll := keeps.resolve_right fun few => few.1 List.mem_cons_self
    rw [Path.parts_slashed named]
    refine .anyDirectories _ (ih behind some_left (.inl ?_) matched)
    exact (List.forall_mem_cons.mp keepsAll).2
  | case5 tokens components some_left ih =>
    obtain ⟨first, later, front, behind, rfl⟩ := exists_of_ofComponents_name some_left read
    obtain ⟨name, rest, earlier, matched, rfl⟩ := accepts_append_slash_iff.mp accepted
    have divided : '/' ∉ name ∧ Divides components (Path.parts (String.ofList rest)) := by
      rcases keeps with keeps | ⟨single, few⟩
      · obtain ⟨keepsFirst, keepsLater⟩ := List.forall_mem_cons.mp keeps
        refine ⟨Token.not_mem_of_accepts front (fun token member takes => ?_) earlier,
          ih behind some_left (.inl keepsLater) matched⟩
        exact keepsFirst ⟨token, member, takes⟩
      · -- The components behind need all other slashes, so none is left for the name.
        have singleLater := List.not_mem_of_not_mem_cons single
        have needed := length_le_count behind singleLater matched
        rw [List.count_append, List.count_cons_self, List.length_cons] at few
        have none_inside : name.count '/' = 0 := by omega
        have fewer : rest.count '/' < components.length := by omega
        exact ⟨List.count_eq_zero.mp none_inside,
          ih behind some_left (.inr ⟨singleLater, fewer⟩) matched⟩
    rw [Path.parts_append_slash divided.1]
    refine .name ?_ divided.2
    rw [String.toList_ofList]
    exact (Token.accepts_iff_matches front divided.1).mp earlier

/-- Without a double asterisk each component divides off one name. -/
theorem Divides.length_eq (divided : Divides components path)
    (single : .anyDirectories ∉ components) : path.length = components.length := by
  induction divided with
  | nil => rfl
  | name _ _ ih =>
    rw [List.length_cons, List.length_cons, ih (List.not_mem_of_not_mem_cons single)]
  | anyDirectories => exact absurd List.mem_cons_self single

/-- No component but a double asterisk divides the empty path. -/
theorem Divides.ne_nil (divided : Divides components path) (some_component : components ≠ [])
    (ends : components.getLast? ≠ some .anyDirectories) : path ≠ [] := by
  induction divided with
  | nil => exact absurd rfl some_component
  | name => exact List.cons_ne_nil _ _
  | @anyDirectories names components path _ ih =>
    by_cases none_left : components = []
    · subst none_left
      exact absurd rfl ends
    · rw [List.getLast?_cons_of_ne_nil none_left] at ends
      exact List.append_ne_nil_of_right_ne_nil names (ih none_left ends)

/-- **The text of a path that divides is matched.** The last component is not a double asterisk: it
would match anything but a newline. -/
theorem accepts_of_divides (read : Piece.ofComponents components = .ok pieces)
    (some_component : components ≠ []) (ends : components.getLast? ≠ some .anyDirectories)
    (names : AreNames (path.map String.toList)) (divided : Divides components path) :
    accepts pieces path.joined.toList = true := by
  induction divided generalizing pieces with
  | nil => exact absurd rfl some_component
  | @name tokens name components path matched divided ih =>
    obtain ⟨⟨_, inside⟩, others⟩ := areNames_cons.mp names
    by_cases none_left : components = []
    · subst none_left
      cases divided
      exact (Token.accepts_iff_matches read inside).mpr matched
    · obtain ⟨first, later, front, behind, rfl⟩ := exists_of_ofComponents_name none_left read
      rw [List.getLast?_cons_of_ne_nil none_left] at ends
      rw [Path.joined_cons (divided.ne_nil none_left ends)]
      exact accepts_append_slash_iff.mpr ⟨_, _,
        (Token.accepts_iff_matches front inside).mpr matched,
        ih behind none_left ends others, rfl⟩
  | @anyDirectories front components path divided ih =>
    by_cases none_left : components = []
    · subst none_left
      exact absurd rfl ends
    · obtain ⟨later, behind, rfl⟩ := exists_of_ofComponents_anyDirectories none_left read
      rw [List.getLast?_cons_of_ne_nil none_left] at ends
      rw [List.map_append] at names
      rw [Path.joined_append (divided.ne_nil none_left ends)]
      refine accepts_cons_iff.mpr ⟨_, _, ⟨_, ?_, rfl⟩, ih behind none_left ends ?_, rfl⟩
      · exact fun name member => names name (List.mem_append_left _ member)
      · exact fun name member => names name (List.mem_append_right _ member)

end Component

end Glob

end SqlFixture
