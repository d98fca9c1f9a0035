import SqlFixture.Proofs.Meaning
import SqlFixture.Proofs.Segments

/-
**All that is sent to the database stands in the fixture.**

The segments of a fixture are the places where its chunks stand. Each definition among them accounts
for one binding of the test, byte for byte, and each statement is the text of one segment. No
binding is ever taken back or changed, so that the query of an assertion is still the one that its
key is bound to at the end; and a segment ends before the next one begins, so that the definition
stands before the assertion.

* `Segment.Defines`: where the key and the query of a binding stand in a segment;
* `Segment.ofFixture_pairwise`: the segments stand one behind the other;
* `Statement.Traced`: where the parts of a statement stand;
* `Progress.Traced`: the invariant, kept by each chunk (`traced_of_take`) and so by all of them
  (`traced_of_takeAll`);
* `Test.origins`: it holds of every test that is built.
-/

namespace SqlFixture

open Directive

/-! ### Segments and what stands in them -/

namespace Segment

/-- Whether the comments of a segment are followed by the keyword of a definition. -/
def isDefinition (fixture : Bytes) (segment : Segment) : Bool :=
  (asciiBytes "define ").isPrefixOf (Scan.afterComments (segment.bytes fixture))

/-- Behind the comments and the keyword comes a line with the key, and below it the query. -/
def Defines (fixture : Bytes) (segment : Segment) (key query : String) : Prop :=
  ∃ line, segment.bytes fixture = Scan.comments (segment.bytes fixture) ++ asciiBytes "define " ++
      line ++ newline :: Utf8.encode query ∧
    newline ∉ line ∧ Scan.trim line = Utf8.encode key

theorem start_le_of_mem_between {start stop : Nat} {cuts : List Nat}
    (ascending : cuts.Pairwise (· < ·)) (above : ∀ cut ∈ cuts, start ≤ cut) :
    ∀ segment ∈ between start stop cuts, start ≤ segment.start := by
  induction cuts generalizing start with
  | nil =>
    intro segment member
    obtain rfl := List.mem_singleton.mp member
    exact Nat.le_refl start
  | cons cut cuts ih =>
    obtain ⟨below, later⟩ := List.pairwise_cons.mp ascending
    intro segment member
    rcases List.mem_cons.mp member with rfl | member
    · exact Nat.le_refl _
    · have first := above cut List.mem_cons_self
      have behind := ih later below segment member
      omega

theorem between_pairwise {start stop : Nat} {cuts : List Nat}
    (ascending : cuts.Pairwise (· < ·)) :
    (between start stop cuts).Pairwise fun first second => first.stop < second.start := by
  induction cuts generalizing start with
  | nil => exact List.pairwise_singleton ..
  | cons cut cuts ih =>
    obtain ⟨below, later⟩ := List.pairwise_cons.mp ascending
    exact List.pairwise_cons.mpr ⟨start_le_of_mem_between later below, ih later⟩

/-- **The segments stand one behind the other**, with the terminators between them. -/
theorem ofFixture_pairwise (fixture : Bytes) :
    (ofFixture fixture).Pairwise fun first second => first.stop < second.start := by
  have ascending : (terminators fixture).Pairwise (· < ·) := List.pairwise_lt_range.filter _
  refine List.Pairwise.filter _ (List.pairwise_map.mpr ?_)
  refine (between_pairwise ascending).imp fun {first second} before => ?_
  exact Nat.lt_of_lt_of_le before (start_le_strip second)

/-- The chunks of a fixture stand in its segments. -/
theorem extent_chunks (fixture : Bytes) :
    ((Remainder.whole fixture).cutting Scan.statementEnd).chunks.map Chunk.extent =
        ofFixture fixture ∧
      ∀ chunk ∈ ((Remainder.whole fixture).cutting Scan.statementEnd).chunks,
        chunk.extent.bytes fixture = chunk.source := by
  obtain ⟨same, _⟩ := cutting_eq_remaining (Remainder.tailOf_whole fixture)
  have start : (Remainder.whole fixture).cursor.index = 0 := rfl
  rw [start, remaining_zero] at same
  constructor
  · have extents := congrArg (List.map Prod.fst) same
    rw [List.map_map, List.map_map] at extents
    exact extents.trans (List.map_id' _)
  · intro chunk member
    have listed : (chunk.extent, chunk.source) ∈
        (ofFixture fixture).map fun segment => (segment, segment.bytes fixture) :=
      same ▸ List.mem_map_of_mem member
    obtain ⟨segment, _, equal⟩ := List.mem_map.mp listed
    obtain ⟨rfl, source⟩ := Prod.mk.inj equal
    exact source

end Segment

/-! ### Statements and their parts -/

/-- The stretch that a statement takes up. -/
def Statement.extent (statement : Statement) : Segment :=
  ⟨statement.left.index, statement.right.index⟩

/-- A statement takes up a segment. If it runs as it is, its SQL is the whole of it. An assertion
runs the query that its key is bound to, and this was defined in a segment that ends before the
assertion begins. A statement that has to fail stands below the line with the text that is expected,
behind the keyword and the comments. -/
def Statement.Traced (fixture : Bytes) (segments : List Segment) (context : Context)
    (statement : Statement) : Prop :=
  statement.extent ∈ segments ∧
  match statement.action with
  | .exec sql => Utf8.encode sql = statement.extent.bytes fixture
  | .assert key query _ =>
    context.find? key = some query ∧
      ∃ segment ∈ segments, segment.Defines fixture key query ∧
        segment.stop < statement.extent.start
  | .except query substring =>
    statement.extent.bytes fixture = Scan.comments (statement.extent.bytes fixture) ++
        asciiBytes "except " ++ Utf8.encode substring ++ newline :: Utf8.encode query ∧
      newline ∉ Utf8.encode substring ∧ Utf8.encode substring ≠ []

theorem Statement.Traced.of_within {fixture : Bytes} {segments more : List Segment}
    {context later : Context} {statement : Statement}
    (traced : statement.Traced fixture segments context) (inside : segments ⊆ more)
    (within : context.Within later) : statement.Traced fixture more later := by
  unfold Statement.Traced at traced ⊢
  refine ⟨inside traced.1, ?_⟩
  cases action : statement.action with
  | exec sql =>
    rw [action] at traced
    exact traced.2
  | assert key query expected =>
    rw [action] at traced
    obtain ⟨_, bound, segment, member, defines, before⟩ := traced
    exact ⟨within key query bound, segment, inside member, defines, before⟩
  | except query substring =>
    rw [action] at traced
    exact traced.2

/-! ### All chunks -/

namespace Progress

variable {fixture : Bytes} {segments : List Segment} {progress next : Progress} {chunk : Chunk}

/-- The definitions among the segments are the bindings, one by one, and all keys are words; the
statements are traced. -/
structure Traced (fixture : Bytes) (segments : List Segment) (progress : Progress) : Prop where
  bindings : ∃ defining : List (Segment × String × String),
    defining.map Prod.fst = segments.filter (Segment.isDefinition fixture) ∧
      (defining.map Prod.snd).Perm progress.context.entries ∧
      ∀ entry ∈ defining, entry.1.Defines fixture entry.2.1 entry.2.2
  words : ∀ binding ∈ progress.context.entries, Utf8.encode binding.1 ≠ [] ∧
    ∀ byte ∈ Utf8.encode binding.1, byte ≠ Scan.space ∧ byte ≠ Scan.tab ∧ byte ≠ newline
  statements : ∀ statement ∈ progress.recorded,
    statement.Traced fixture segments progress.context

theorem traced_start (fixture : Bytes) : start.Traced fixture [] :=
  ⟨⟨[], rfl, .refl _, nofun⟩, nofun, nofun⟩

/-- A bound query was defined in one of the segments. -/
theorem Traced.exists_defines (traced : progress.Traced fixture segments) {key query : String}
    (bound : progress.context.find? key = some query) :
    ∃ segment ∈ segments, segment.Defines fixture key query := by
  obtain ⟨defining, places, same, defines⟩ := traced.bindings
  have listed := same.mem_iff.mpr (Dictionary.find?_eq_some_iff.mp bound)
  obtain ⟨entry, member, equal⟩ := List.mem_map.mp listed
  refine ⟨entry.1, ?_, ?_⟩
  · have place : entry.1 ∈ segments.filter (Segment.isDefinition fixture) :=
      places ▸ List.mem_map_of_mem member
    exact (List.mem_filter.mp place).1
  · have stands := defines entry member
    rwa [equal] at stands

/-- A segment that defines nothing keeps the invariant. -/
theorem Traced.pass (traced : progress.Traced fixture segments) {segment : Segment}
    (plain : segment.isDefinition fixture = false) :
    progress.Traced fixture (segments ++ [segment]) := by
  obtain ⟨⟨defining, places, same, defines⟩, words, statements⟩ := traced
  refine ⟨⟨defining, ?_, same, defines⟩, words, fun statement member => ?_⟩
  · rw [places, List.filter_append, List.filter_cons_of_neg (by rw [plain]; exact nofun),
      List.filter_nil, List.append_nil]
  · exact (statements statement member).of_within (List.subset_append_left ..) (.refl _)

theorem Traced.record (traced : progress.Traced fixture segments) {action : Action}
    (statement : (Statement.mk chunk.left chunk.right chunk.source action).Traced fixture segments
      progress.context) :
    (progress.record chunk action).Traced fixture segments := by
  refine ⟨traced.bindings, traced.words, fun other member => ?_⟩
  rcases List.mem_cons.mp member with rfl | old
  · exact statement
  · exact traced.statements other old

/-- A segment that defines a new key keeps the invariant. -/
theorem Traced.define (traced : progress.Traced fixture segments) {segment : Segment}
    {key query : String} (definition : segment.isDefinition fixture = true)
    (defines : segment.Defines fixture key query) (fresh : progress.context.find? key = none)
    (someKey : Utf8.encode key ≠ []) (word : (Utf8.encode key).any Scan.isPadding = false) :
    (Progress.mk (progress.context.insert key query) progress.recorded).Traced fixture
      (segments ++ [segment]) := by
  obtain ⟨⟨defining, places, same, stands⟩, words, statements⟩ := traced
  have inserted := Dictionary.insertEntry_perm fresh query
  refine ⟨⟨defining ++ [(segment, key, query)], ?_, ?_, fun entry member => ?_⟩,
    fun binding member => ?_, fun statement member => ?_⟩
  · rw [List.map_append, places, List.filter_append, List.filter_cons_of_pos definition]
    rfl
  · rw [List.map_append]
    refine List.Perm.trans ?_ inserted.symm
    exact (same.append_right [(key, query)]).trans (List.perm_append_singleton ..)
  · rcases List.mem_append.mp member with old | new
    · exact stands entry old
    · rw [List.mem_singleton.mp new]
      exact defines
  · rcases Dictionary.mem_insertEntry member with rfl | old
    · obtain ⟨line, _, inLine, trimmed⟩ := defines
      refine ⟨someKey, fun byte inside => ⟨?_, ?_, ?_⟩⟩
      · rintro rfl
        exact absurd (List.any_eq_false.mp word _ inside) (by decide)
      · rintro rfl
        exact absurd (List.any_eq_false.mp word _ inside) (by decide)
      · rintro rfl
        obtain ⟨before, behind, whole, _⟩ := Scan.exists_eq_trim line
        rw [trimmed] at whole
        refine inLine (whole ▸ ?_)
        exact List.mem_append_left _ (List.mem_append_right _ inside)
    · exact words binding old
  · exact (statements statement member).of_within (List.subset_append_left ..)
      (Dictionary.within_insert fresh query)

/-- **One chunk keeps the invariant**, if it stands behind all segments before. -/
theorem traced_of_take (slice : chunk.extent.bytes fixture = chunk.source)
    (behind : ∀ segment ∈ segments, segment.stop < chunk.extent.start)
    (traced : progress.Traced fixture segments) (taken : progress.take standard chunk = .ok next) :
    next.Traced fixture (segments ++ [chunk.extent]) := by
  obtain ⟨text, meaning, effect, encoded, means, allowed, rfl⟩ := take_eq_ok_iff_means.mp taken
  have probe : Scan.afterComments (chunk.extent.bytes fixture) = chunk.probe := by
    rw [slice]
    rfl
  have divided {rest : Bytes} (found : chunk.probe = rest) :
      chunk.extent.bytes fixture = Scan.comments (chunk.extent.bytes fixture) ++ rest := by
    rw [← found, ← probe, Scan.comments_append_afterComments]
  have here : chunk.extent ∈ segments ++ [chunk.extent] :=
    List.mem_append_right _ (List.mem_singleton.mpr rfl)
  cases means with
  | comment nothing =>
    cases allowed
    refine traced.pass ?_
    rw [Segment.isDefinition, probe, nothing]
    rfl
  | @definition line key query whole inLine trimmed someKey someQuery word =>
    obtain ⟨context, defined, rfl⟩ := Option.map_eq_some_iff.mp allowed
    obtain ⟨fresh, rfl⟩ := Context.define_eq_some_iff.mp defined
    refine traced.define ?_ ⟨line, ?_, inLine, trimmed⟩ fresh someKey word
    · rw [Segment.isDefinition, probe, whole, List.isPrefixOf_iff_prefix]
      exact List.prefix_append ..
    · rw [divided whole]
      conv => rhs; rw [← divided whole]
      simp only [List.append_assoc]
  | @assertion body key expected whole trimmed inWord someRows =>
    obtain ⟨query, bound, rfl⟩ := Option.map_eq_some_iff.mp allowed
    refine (traced.pass ?_).record ⟨here, bound, ?_⟩
    · rw [Segment.isDefinition, probe, whole]
      rfl
    · obtain ⟨segment, member, defines⟩ := traced.exists_defines bound
      exact ⟨segment, List.mem_append_left _ member, defines, behind segment member⟩
  | @exception query substring whole inLine someText someQuery =>
    cases allowed
    refine (traced.pass ?_).record ⟨here, ?_, inLine, someText⟩
    · rw [Segment.isDefinition, probe, whole]
      rfl
    · show chunk.extent.bytes fixture = Scan.comments (chunk.extent.bytes fixture) ++ _ ++ _ ++ _
      rw [divided whole]
      conv => rhs; rw [← divided whole]
      simp only [List.append_assoc]
  | plain something free =>
    cases allowed
    refine (traced.pass ?_).record ⟨here, ?_⟩
    · rw [Segment.isDefinition, probe, Bool.eq_false_iff]
      exact fun found => free "define " (.head _) (List.isPrefixOf_iff_prefix.mp found)
    · show Utf8.encode text = chunk.extent.bytes fixture
      rw [slice, encoded]

/-- **All chunks keep the invariant.** -/
theorem traced_of_takeAll {chunks : List Chunk}
    (slices : ∀ chunk ∈ chunks, chunk.extent.bytes fixture = chunk.source)
    (ordered : (segments ++ chunks.map Chunk.extent).Pairwise
      fun first second => first.stop < second.start)
    (traced : progress.Traced fixture segments)
    (taken : progress.takeAll standard chunks = .ok next) :
    next.Traced fixture (segments ++ chunks.map Chunk.extent) := by
  induction chunks generalizing segments progress with
  | nil =>
    cases taken
    rw [List.map_nil, List.append_nil]
    exact traced
  | cons chunk chunks ih =>
    have regrouped : segments ++ (chunk :: chunks).map Chunk.extent =
        (segments ++ [chunk.extent]) ++ chunks.map Chunk.extent := by
      rw [List.map_cons, List.append_assoc]
      rfl
    rw [regrouped] at ordered ⊢
    rw [takeAll] at taken
    cases here : progress.take standard chunk with
    | error cause => rw [here] at taken; cases taken
    | ok between =>
      rw [here] at taken
      have behind : ∀ segment ∈ segments, segment.stop < chunk.extent.start :=
        fun segment member => (List.pairwise_append.mp (List.pairwise_append.mp ordered).1).2.2
          segment member _ (List.mem_singleton.mpr rfl)
      have one := traced_of_take (slices chunk List.mem_cons_self) behind traced here
      exact ih (fun other later => slices other (.tail _ later)) ordered one taken

end Progress

/-! ### A whole test -/

namespace Test

/-- **Where a test comes from.** Let a fixture build, with the usual delimiter and the usual chain.
Then its definitions are the bindings of the test, one by one and byte for byte; all keys are words
on one line; and each statement takes up a segment and is traced to it, an assertion also to the
definition before it. -/
theorem origins {limit : Nat} {name : String} {fixture : Bytes} {test : Test}
    (built : build { limit := limit } name fixture = .ok test) :
    (∃ defining : List (Segment × String × String),
      defining.map Prod.fst =
          (Segment.ofFixture fixture).filter (Segment.isDefinition fixture) ∧
        (defining.map Prod.snd).Perm test.context.entries ∧
        ∀ entry ∈ defining, entry.1.Defines fixture entry.2.1 entry.2.2) ∧
    (∀ binding ∈ test.context.entries, Utf8.encode binding.1 ≠ [] ∧
      ∀ byte ∈ Utf8.encode binding.1,
        byte ≠ Scan.space ∧ byte ≠ Scan.tab ∧ byte ≠ newline) ∧
    ∀ statement ∈ test.statements,
      statement.Traced fixture (Segment.ofFixture fixture) test.context := by
  obtain ⟨_, _, taken, _, _⟩ := build_eq_ok_iff.mp built
  obtain ⟨extents, slices⟩ := Segment.extent_chunks fixture
  have ordered := Segment.ofFixture_pairwise fixture
  rw [← extents] at ordered ⊢
  obtain ⟨bindings, words, statements⟩ :=
    Progress.traced_of_takeAll slices ordered (Progress.traced_start fixture) taken
  exact ⟨bindings, words, fun statement member =>
    statements statement (List.mem_reverse.mpr member)⟩

/-- Comments, a key between blanks, and all three kinds of action. -/
theorem origins_of_four_statements :
    let fixture := asciiBytes
      "-- c\nSELECT 0;\n/**/define\ta;\ndefine  a \nSELECT 1\n;\nassert a [1];\nexcept no\nDROP t"
    ∃ test, build { limit := 9 } "t" fixture = .ok test ∧
      test.context.entries = [("a", "SELECT 1\n")] ∧
      test.statements.map Statement.action =
        [.exec "-- c\nSELECT 0", .exec "/**/define\ta", .assert "a" "SELECT 1\n" "[1]",
          .except "DROP t" "no"] ∧
      (∃ segment ∈ Segment.ofFixture fixture, segment.Defines fixture "a" "SELECT 1\n") ∧
      ∀ statement ∈ test.statements,
        statement.Traced fixture (Segment.ofFixture fixture) test.context := by
  intro fixture
  have told : (build { limit := 9 } "t" fixture).toOption.map (fun test =>
      (test.context.entries, test.statements.map Statement.action)) =
      some ([("a", "SELECT 1\n")], [.exec "-- c\nSELECT 0", .exec "/**/define\ta",
        .assert "a" "SELECT 1\n" "[1]", .except "DROP t" "no"]) := by
    decide +kernel
  obtain ⟨test, built, parts⟩ := exists_of_toOption told
  obtain ⟨entries, actions⟩ := Prod.mk.inj parts
  obtain ⟨⟨defining, places, same, defines⟩, _, statements⟩ := origins built
  refine ⟨test, built, entries, actions, ?_, statements⟩
  have bound : ("a", "SELECT 1\n") ∈ defining.map Prod.snd :=
    same.mem_iff.mpr (entries ▸ List.mem_singleton.mpr rfl)
  obtain ⟨entry, member, equal⟩ := List.mem_map.mp bound
  have place : entry.1 ∈ (Segment.ofFixture fixture).filter (Segment.isDefinition fixture) :=
    places ▸ List.mem_map_of_mem member
  have stands := defines entry member
  rw [equal] at stands
  exact ⟨entry.1, (List.mem_filter.mp place).1, stands⟩

end Test

end SqlFixture
