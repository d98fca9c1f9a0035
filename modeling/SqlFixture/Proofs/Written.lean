import SqlFixture.Proofs.Chunks

/-
**Statements written one below the other.**

A chunk that is cut off at the first terminator begins with a byte that is not blank, and no
semicolon in it has only padding between itself and a newline that also lies in it. Nothing more is
needed to find the chunk again: written with a semicolon and a newline behind each, such texts come
back one by one.

* `Scan.IsStatement`: the texts that are cut off, `Scan.isStatement_of_cut` says that all are;
* `Scan.statementEnd_written`: a terminator behind such a text is the first one;
* `Scan.Unbroken.without_padding`: padding before a newline may be left out;
* `Remainder.cutting_written`: texts that are written below one another are the chunks.
-/

namespace SqlFixture

namespace Scan

/-! ### Texts without a terminator inside -/

/-- Whether only padding stands before the first newline, and there is one. -/
def breaksLine : Bytes → Bool
  | [] => false
  | byte :: rest => byte == newline || isPadding byte && breaksLine rest

/-- No semicolon ends a line inside the text. -/
def Unbroken : Bytes → Prop
  | [] => True
  | byte :: rest => ¬(byte = semicolon ∧ breaksLine rest) ∧ Unbroken rest

instance decidableUnbroken : (text : Bytes) → Decidable (Unbroken text)
  | [] => isTrue trivial
  | byte :: rest =>
    have := decidableUnbroken rest
    inferInstanceAs (Decidable (¬(byte = semicolon ∧ breaksLine rest) ∧ Unbroken rest))

theorem endsLine_append (text rest : Bytes) :
    endsLine (text ++ rest) = (breaksLine text || text.all isPadding && endsLine rest) := by
  induction text with
  | nil => rfl
  | cons byte text ih =>
    rw [List.cons_append, endsLine, breaksLine, List.all_cons, ih]
    cases byte == newline <;> cases isPadding byte <;> rfl

theorem breaksLine_append (text rest : Bytes) :
    breaksLine (text ++ rest) = (breaksLine text || text.all isPadding && breaksLine rest) := by
  induction text with
  | nil => rfl
  | cons byte text ih =>
    rw [List.cons_append, breaksLine, breaksLine, List.all_cons, ih]
    cases byte == newline <;> cases isPadding byte <;> rfl

theorem breaksLine_without_padding {padding : Bytes} (blank : padding.all isPadding)
    (text rest : Bytes) :
    breaksLine (text ++ padding ++ newline :: rest) = breaksLine (text ++ newline :: rest) := by
  induction text with
  | nil =>
    show breaksLine (padding ++ newline :: rest) = true
    induction padding with
    | nil => rfl
    | cons byte padding ih =>
      obtain ⟨first, later⟩ := Bool.and_eq_true_iff.mp blank
      rw [List.cons_append, breaksLine, first, ih later, Bool.true_and, Bool.or_true]
  | cons byte text ih =>
    rw [List.cons_append, List.cons_append, breaksLine, ih]
    rfl

theorem Unbroken.of_append {before text : Bytes} (whole : Unbroken (before ++ text)) :
    Unbroken text := by
  induction before with
  | nil => exact whole
  | cons byte before ih => exact ih whole.2

theorem Unbroken.append {before text : Bytes} (plain : semicolon ∉ before)
    (unbroken : Unbroken text) : Unbroken (before ++ text) := by
  induction before with
  | nil => exact unbroken
  | cons byte before ih =>
    rw [List.mem_cons, not_or] at plain
    exact ⟨fun ends => plain.1 ends.1.symm, ih plain.2⟩

/-- What begins with neither padding nor a newline breaks no text in front of it. -/
theorem Unbroken.append_solid {text rest : Bytes} (unbroken : Unbroken text)
    (solid : breaksLine rest = false) (later : Unbroken rest) : Unbroken (text ++ rest) := by
  induction text with
  | nil => exact later
  | cons byte text ih =>
    refine ⟨fun ends => unbroken.1 ⟨ends.1, ?_⟩, ih unbroken.2⟩
    have breaks : breaksLine (text ++ rest) = true := ends.2
    rwa [breaksLine_append, solid, Bool.and_false, Bool.or_false] at breaks

/-- Padding before a newline may be left out. -/
theorem Unbroken.without_padding {padding text rest : Bytes} (blank : padding.all isPadding)
    (unbroken : Unbroken (text ++ padding ++ newline :: rest)) :
    Unbroken (text ++ newline :: rest) := by
  induction text with
  | nil => exact unbroken.of_append
  | cons byte text ih =>
    refine ⟨fun ends => unbroken.1 ⟨ends.1, ?_⟩, ih unbroken.2⟩
    show breaksLine (text ++ padding ++ newline :: rest) = true
    rw [breaksLine_without_padding blank]
    exact ends.2

/-- What lies before the first terminator is unbroken. -/
theorem unbroken_take_statementEnd (bytes : Bytes) :
    Unbroken (bytes.take (statementEnd bytes).index) := by
  induction bytes with
  | nil => rw [List.take_nil]; exact trivial
  | cons byte rest ih =>
    rw [statementEnd_cons]
    split
    · exact trivial
    next continues =>
      rw [index_advance_add, List.take_succ_cons]
      refine ⟨fun ends => continues ⟨ends.1, ?_⟩, ih⟩
      rw [← List.take_append_drop (statementEnd rest).index rest, endsLine_append, ends.2,
        Bool.true_or]

/-- A terminator behind an unbroken text is the first one. -/
theorem statementEnd_written {text : Bytes} (unbroken : Unbroken text) (rest : Bytes) :
    (statementEnd (text ++ semicolon :: newline :: rest)).index = text.length := by
  induction text with
  | nil =>
    rw [List.nil_append, statementEnd_cons, if_pos ⟨rfl, rfl⟩]
    rfl
  | cons byte text ih =>
    have solid : endsLine (semicolon :: newline :: rest) = false := rfl
    rw [List.cons_append, statementEnd_cons, endsLine_append, solid, Bool.and_false,
      Bool.or_false, if_neg unbroken.1]
    show 1 + _ = _
    rw [ih unbroken.2, List.length_cons, Nat.add_comm]

/-! ### Texts that are cut off -/

/-- A text that can be cut off: it begins with no blank, and no semicolon ends a line inside. -/
structure IsStatement (text : Bytes) : Prop where
  begins : ∃ first rest, text = first :: rest ∧ isBlank first = false
  unbroken : Unbroken text

theorem isStatement_of_cut {remainder rest : Remainder} {chunk : Chunk}
    (inked : remainder.skipBlank.bytes ≠ [])
    (cut : remainder.skipBlank.cut? statementEnd = some (chunk, rest)) :
    IsStatement chunk.source := by
  refine ⟨Remainder.begins_of_cut inked cut, ?_⟩
  rw [(Remainder.cut?_eq_some_iff.mp cut).2.2.1]
  exact unbroken_take_statementEnd _

/-- Texts, each with a semicolon and a newline behind it. -/
def written (texts : List Bytes) : Bytes := texts.flatMap (· ++ [semicolon, newline])

theorem written_cons (text : Bytes) (texts : List Bytes) :
    written (text :: texts) = text ++ semicolon :: newline :: written texts := by
  rw [written, List.flatMap_cons, List.append_assoc]
  rfl

end Scan

namespace Remainder

open Scan

/-- Every chunk is a text that can be cut off. -/
theorem isStatement_of_mem_chunks (remainder : Remainder) :
    ∀ chunk ∈ (remainder.cutting statementEnd).chunks, IsStatement chunk.source :=
  forall_chunks (fun _ => True) trivial fun _ _ _ _ inked cut =>
    ⟨isStatement_of_cut inked cut, trivial⟩

/-- **Texts that are written below one another are the chunks.** The blanks in front are what the
cut of the text before leaves. -/
theorem cutting_written {texts : List Bytes} (statements : ∀ text ∈ texts, IsStatement text)
    {remainder : Remainder} {before : Bytes} (blank : ∀ byte ∈ before, isBlank byte)
    (bytes : remainder.bytes = before ++ written texts) :
    (remainder.cutting statementEnd).chunks.map Chunk.source = texts ∧
      (remainder.cutting statementEnd).stall = none := by
  induction texts generalizing remainder before with
  | nil =>
    have nothing : remainder.skipBlank.bytes = [] := by
      show afterBlanks remainder.bytes = []
      rw [bytes, afterBlanks_append blank]
      rfl
    rw [cutting_of_blank nothing]
    exact ⟨rfl, rfl⟩
  | cons text texts ih =>
    obtain ⟨⟨first, tail, same, solid⟩, unbroken⟩ := statements text List.mem_cons_self
    have stripped : remainder.skipBlank.bytes = written (text :: texts) := by
      show afterBlanks remainder.bytes = _
      rw [bytes, afterBlanks_append blank]
      refine afterBlanks_eq_self fun other more equal => ?_
      rw [written_cons, same, List.cons_append] at equal
      obtain ⟨rfl, _⟩ := List.cons.inj equal
      exact solid
    have index : (statementEnd remainder.skipBlank.bytes).index = text.length := by
      rw [stripped, written_cons]
      exact statementEnd_written unbroken _
    have inked : remainder.skipBlank.bytes ≠ [] := by
      rw [stripped, written_cons, same]
      exact List.cons_ne_nil _ _
    have moved : (statementEnd remainder.skipBlank.bytes).index ≠ 0 := by
      rw [index, same]
      exact Nat.succ_ne_zero _
    cases cut : remainder.skipBlank.cut? statementEnd with
    | none => exact absurd (cut?_eq_none_iff.mp cut) moved
    | some parts =>
      obtain ⟨chunk, rest⟩ := parts
      obtain ⟨_, _, source, _, _, left⟩ := cut?_eq_some_iff.mp cut
      rw [index, stripped, written_cons] at source left
      rw [List.take_left] at source
      rw [List.drop_left] at left
      have between : ∀ byte ∈ [semicolon, newline], isBlank byte := List.all_eq_true.mp rfl
      obtain ⟨chunks, moving⟩ := ih (fun other later => statements other (.tail _ later))
        between left
      rw [cutting_of_cut inked cut]
      exact ⟨by rw [List.map_cons, source, chunks], moving⟩

theorem cutting_whole_written {texts : List Bytes}
    (statements : ∀ text ∈ texts, IsStatement text) :
    ((whole (written texts)).cutting statementEnd).chunks.map Chunk.source = texts ∧
      ((whole (written texts)).cutting statementEnd).stall = none := by
  have nothing : ∀ byte ∈ ([] : Bytes), isBlank byte := fun _ member =>
    absurd member List.not_mem_nil
  exact cutting_written statements nothing rfl

end Remainder

end SqlFixture
