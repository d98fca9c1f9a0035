import SqlFixture.Position

/-
**Blank bytes.**

Between statements stand newlines, spaces, tabs and bare semicolons. Inside a line only spaces and
tabs are padding.

* `Scan.blanks`: the blank bytes that a byte string begins with; what follows begins with no blank;
* `Scan.skipBlank`: the position behind them;
* `Scan.trim`: a byte string without the padding at its two ends, `trim_eq_iff` says what it is.
-/

namespace SqlFixture.Scan

/-- The byte that ends a statement. -/
def semicolon : UInt8 := 0x3B

/-- The space byte. -/
def space : UInt8 := 0x20

/-- The tab byte. -/
def tab : UInt8 := 0x09

/-- Space and tab. -/
def isPadding (byte : UInt8) : Bool := byte == space || byte == tab

/-- Newline, space, tab and semicolon. -/
def isBlank (byte : UInt8) : Bool := byte == newline || isPadding byte || byte == semicolon

/-- The blank bytes at the beginning. -/
def blanks (bytes : Bytes) : Bytes := bytes.takeWhile isBlank

/-- The bytes from the first one that is not blank. -/
def afterBlanks (bytes : Bytes) : Bytes := bytes.dropWhile isBlank

/-- The position of the first byte that is not blank. -/
def skipBlank (bytes : Bytes) : Position := Position.ofBytes (blanks bytes)

/-- The bytes without padding in front and behind. -/
def trim (bytes : Bytes) : Bytes :=
  ((bytes.dropWhile isPadding).reverse.dropWhile isPadding).reverse

/-! ### What is skipped -/

@[simp] theorem blanks_append_afterBlanks (bytes : Bytes) :
    blanks bytes ++ afterBlanks bytes = bytes :=
  List.takeWhile_append_dropWhile

theorem isBlank_of_mem_blanks {bytes : Bytes} {byte : UInt8} (skipped : byte ∈ blanks bytes) :
    isBlank byte = true := by
  have allBlank : (blanks bytes).all isBlank = true := List.all_takeWhile
  exact List.all_eq_true.mp allBlank byte skipped

theorem isBlank_eq_false_of_afterBlanks_eq_cons {bytes rest : Bytes} {first : UInt8}
    (after : afterBlanks bytes = first :: rest) : isBlank first = false := by
  have equal : bytes.dropWhile isBlank = first :: rest := after
  have head := List.head_dropWhile_not isBlank (l := bytes) (by simp [equal])
  simpa only [equal, List.head_cons] using head

theorem afterBlanks_eq_self {bytes : Bytes}
    (inked : ∀ first rest, bytes = first :: rest → isBlank first = false) :
    afterBlanks bytes = bytes := by
  cases bytes with
  | nil => rfl
  | cons first rest =>
    have solid := inked first rest rfl
    rw [afterBlanks, List.dropWhile_cons, solid]
    rfl

@[simp] theorem afterBlanks_afterBlanks (bytes : Bytes) :
    afterBlanks (afterBlanks bytes) = afterBlanks bytes :=
  afterBlanks_eq_self fun _ _ => isBlank_eq_false_of_afterBlanks_eq_cons

@[simp] theorem blanks_afterBlanks (bytes : Bytes) : blanks (afterBlanks bytes) = [] := by
  have whole := blanks_append_afterBlanks (afterBlanks bytes)
  rw [afterBlanks_afterBlanks] at whole
  exact List.append_left_eq_self.mp whole

theorem afterBlanks_append {before : Bytes} (blank : ∀ byte ∈ before, isBlank byte = true)
    (bytes : Bytes) : afterBlanks (before ++ bytes) = afterBlanks bytes :=
  List.dropWhile_append_of_pos blank

theorem blanks_append {before : Bytes} (blank : ∀ byte ∈ before, isBlank byte = true)
    (bytes : Bytes) : blanks (before ++ bytes) = before ++ blanks bytes :=
  List.takeWhile_append_of_pos blank

theorem blanks_of_afterBlanks_eq_nil {bytes : Bytes} (blank : afterBlanks bytes = []) :
    blanks bytes = bytes := by
  have whole := blanks_append_afterBlanks bytes
  rwa [blank, List.append_nil] at whole

theorem isBlank_of_afterBlanks_eq_nil {bytes : Bytes} (blank : afterBlanks bytes = []) :
    ∀ byte ∈ bytes, isBlank byte = true := by
  intro byte member
  rw [← blanks_of_afterBlanks_eq_nil blank] at member
  exact isBlank_of_mem_blanks member

/-- The first byte that is not blank hides what follows it. -/
theorem blanks_append_of_ne_nil {first : Bytes} (inked : afterBlanks first ≠ [])
    (second : Bytes) :
    blanks (first ++ second) = blanks first ∧
      afterBlanks (first ++ second) = afterBlanks first ++ second := by
  obtain ⟨byte, rest, after⟩ := List.exists_cons_of_ne_nil inked
  have solid := isBlank_eq_false_of_afterBlanks_eq_cons after
  have skipped : ∀ other ∈ blanks first, isBlank other = true := fun _ => isBlank_of_mem_blanks
  have divided : first ++ second = blanks first ++ (byte :: (rest ++ second)) := by
    rw [← List.cons_append, ← after, ← List.append_assoc, blanks_append_afterBlanks]
  constructor
  · have stopped : blanks (byte :: (rest ++ second)) = [] := by
      rw [blanks, List.takeWhile_cons, solid]
      rfl
    rw [divided, blanks_append skipped, stopped, List.append_nil]
  · have stays : afterBlanks (byte :: (rest ++ second)) = byte :: (rest ++ second) := by
      rw [afterBlanks, List.dropWhile_cons, solid]
      rfl
    rw [divided, afterBlanks_append skipped, stays, after, List.cons_append]

/-! ### What is trimmed -/

/-- Only padding is trimmed. -/
theorem exists_eq_trim (bytes : Bytes) :
    ∃ before behind, bytes = before ++ trim bytes ++ behind ∧ before.all isPadding ∧
      behind.all isPadding := by
  let rest := (bytes.dropWhile isPadding).reverse
  refine ⟨bytes.takeWhile isPadding, (rest.takeWhile isPadding).reverse, ?_, List.all_takeWhile, ?_⟩
  · have divided : rest.reverse = trim bytes ++ (rest.takeWhile isPadding).reverse := by
      show rest.reverse = (rest.dropWhile isPadding).reverse ++ _
      rw [← List.reverse_append, List.takeWhile_append_dropWhile]
    rw [List.append_assoc, ← divided, List.reverse_reverse, List.takeWhile_append_dropWhile]
  · rw [List.all_reverse]
    exact List.all_takeWhile

/-- Whether bytes neither begin nor end with padding. -/
def IsTrimmed (bytes : Bytes) : Prop :=
  (∀ first ∈ bytes.head?, isPadding first = false) ∧ ∀ last ∈ bytes.getLast?, isPadding last = false

theorem dropWhile_isPadding_eq_self {bytes : Bytes}
    (solid : ∀ first ∈ bytes.head?, isPadding first = false) :
    bytes.dropWhile isPadding = bytes := by
  cases bytes with
  | nil => rfl
  | cons first rest =>
    rw [List.dropWhile_cons, solid first rfl]
    rfl

theorem solid_of_mem_head?_dropWhile {bytes : Bytes} {first : UInt8}
    (begins : first ∈ (bytes.dropWhile isPadding).head?) : isPadding first = false := by
  have head := List.head?_dropWhile_not isPadding bytes
  rw [Option.mem_def.mp begins] at head
  exact head

theorem isTrimmed_trim (bytes : Bytes) : IsTrimmed (trim bytes) := by
  have last : ∀ last ∈ (trim bytes).getLast?, isPadding last = false := by
    intro last ends
    rw [trim, List.getLast?_reverse] at ends
    exact solid_of_mem_head?_dropWhile ends
  refine ⟨fun first begins => ?_, last⟩
  -- What is trimmed behind does not change the byte in front.
  obtain ⟨behind, divided⟩ : trim bytes <+: bytes.dropWhile isPadding := by
    rw [trim, ← List.reverse_suffix, List.reverse_reverse]
    exact List.dropWhile_suffix isPadding
  have front : first ∈ (bytes.dropWhile isPadding).head? := by
    rw [← divided, List.head?_append, Option.mem_def.mp begins]
    rfl
  exact solid_of_mem_head?_dropWhile front

theorem trim_append_append {before core behind : Bytes} (paddingBefore : before.all isPadding)
    (paddingBehind : behind.all isPadding) (trimmed : IsTrimmed core) :
    trim (before ++ core ++ behind) = core := by
  have front : ∀ byte ∈ before, isPadding byte = true := List.all_eq_true.mp paddingBefore
  have back : ∀ byte ∈ behind, isPadding byte = true := List.all_eq_true.mp paddingBehind
  rw [trim, List.append_assoc, List.dropWhile_append_of_pos front]
  cases core with
  | nil =>
    have nothing : behind.dropWhile isPadding = [] := by
      rw [← List.append_nil behind, List.dropWhile_append_of_pos back, List.dropWhile_nil]
    rw [List.nil_append, nothing]
    rfl
  | cons first rest =>
    have begins : ∀ byte ∈ (first :: rest ++ behind).head?, isPadding byte = false := trimmed.1
    have ends : ∀ last ∈ (first :: rest).reverse.head?, isPadding last = false := by
      rw [List.head?_reverse]
      exact trimmed.2
    have stripped : (behind.reverse ++ (first :: rest).reverse).dropWhile isPadding =
        (first :: rest).reverse := by
      rw [List.dropWhile_append_of_pos fun byte member => back byte (List.mem_reverse.mp member),
        dropWhile_isPadding_eq_self ends]
    rw [dropWhile_isPadding_eq_self begins, List.reverse_append, stripped, List.reverse_reverse]

/-- **Trimming takes the padding off both ends**, and there is one way to do so. -/
theorem trim_eq_iff {bytes core : Bytes} :
    trim bytes = core ↔ IsTrimmed core ∧ ∃ before behind,
      bytes = before ++ core ++ behind ∧ before.all isPadding ∧ behind.all isPadding := by
  constructor
  · rintro rfl
    exact ⟨isTrimmed_trim bytes, exists_eq_trim bytes⟩
  · rintro ⟨trimmed, before, behind, rfl, paddingBefore, paddingBehind⟩
    exact trim_append_append paddingBefore paddingBehind trimmed

theorem isTrimmed_of_solid {bytes : Bytes} (solid : bytes.any isPadding = false) :
    IsTrimmed bytes := by
  rw [List.any_eq_false] at solid
  refine ⟨fun first begins => ?_, fun last ends => ?_⟩
  · exact Bool.eq_false_iff.mpr (solid first (List.mem_of_mem_head? begins))
  · exact Bool.eq_false_iff.mpr (solid last (List.mem_of_getLast? ends))

theorem trim_eq_self {bytes : Bytes} (solid : bytes.any isPadding = false) :
    trim bytes = bytes := by
  refine trim_eq_iff.mpr ⟨isTrimmed_of_solid solid, [], [], ?_, rfl, rfl⟩
  rw [List.nil_append, List.append_nil]

end SqlFixture.Scan
