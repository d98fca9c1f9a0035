import SqlFixture.Proofs.Chunks

/-
**What a build comes to, told from the chunks of the fixture.**

A chunk is refused, changes the context or records an action, and which of these it does depends on
the context that the chunks before it leave behind: the first interpreter of the chain that does not
leave the chunk to the others has the say. Of the chunks within the limit the first refused one
decides; if there is none, the limit does; if that is not reached, the recorded actions do.

* `Chunk.refusal?`, `contextBehind`, `statement?`: what one chunk does under a context;
* `Chunk.refusal?_eq_some_iff_decides`: which interpreter of the chain refuses it;
* `Chunk.inContext`: chunks, each with the context that those before it leave behind;
* `Chunk.firstRefusal?`, `statements`: what several chunks do;
* `Config.chunks`, `refusal?`, `statements`, `limitPlace?`: the same of the chunks within the limit;
* `Test.build_outcome`: the outcome of a build as a function of these; the loop ends, and a higher
  limit changes nothing but the failure to stay below the limit.
-/

namespace SqlFixture

/-! ### One chunk -/

namespace Chunk

section One

variable (interpreters : List Interpreter) (context : Context) (chunk : Chunk)

/-- What interpreters see of a chunk: all but its leading comments. -/
def probe : Bytes := Scan.afterComments chunk.source

/-- Why a chunk is refused, if it is: it is not UTF-8, or it is not all comment and the chain
refuses what is behind the comments. -/
def refusal? : Option StatementError :=
  match Utf8.decode chunk.source with
  | .error offset => some (.invalidUtf8 offset)
  | .ok _ =>
    if chunk.probe = [] then none
    else
      match Directive.interpret interpreters context chunk.probe with
      | .error cause => some cause
      | .ok _ => none

/-- The context that a chunk leaves behind. -/
def contextBehind : Context :=
  if chunk.probe = [] then context
  else
    match Directive.interpret interpreters context chunk.probe with
    | .ok (.context next) => next
    | _ => context

/-- The action that a chunk records, if it does: what no interpreter takes runs as it is. -/
def action? : Option Action :=
  if chunk.probe = [] then none
  else
    match Directive.interpret interpreters context chunk.probe with
    | .ok .notMatched => some (.exec (Utf8.lossy chunk.source))
    | .ok (.action action) => some action
    | _ => none

/-- The statement that a chunk becomes, if it records an action. -/
def statement? : Option Statement :=
  (chunk.action? interpreters context).map fun action =>
    ⟨chunk.left, chunk.right, chunk.source, action⟩

variable {interpreters context chunk}

/-- **Who refuses a chunk.** A text that is not all comment is refused by the first interpreter that
does not leave it to the others, and by no other one. -/
theorem refusal?_eq_some_iff_decides {text : String} {cause : StatementError}
    (decodes : Utf8.decode chunk.source = .ok text) (something : chunk.probe ≠ []) :
    chunk.refusal? interpreters context = some cause ↔
      ∃ decider, Directive.Decides interpreters context chunk.probe decider ∧
        decider context chunk.probe = .error cause := by
  have refuses : (.error cause : Except StatementError Outcome) ≠ .ok .notMatched := nofun
  rw [← Directive.interpret_eq_iff refuses]
  unfold refusal?
  simp only [decodes, if_neg something]
  cases Directive.interpret interpreters context chunk.probe <;> simp

end One

/-! ### Several chunks -/

section Several

variable (interpreters : List Interpreter) (context : Context) (chunks : List Chunk)

/-- Chunks, each with the context that those before it leave behind. -/
def inContext : List (Context × Chunk) :=
  (chunks.scanl (contextBehind interpreters) context).zip chunks

/-- The first chunk that is refused, with the cause. -/
def firstRefusal? : Option (Chunk × StatementError) :=
  (inContext interpreters context chunks).findSome? fun entry =>
    (entry.2.refusal? interpreters entry.1).map (entry.2, ·)

/-- The statements that chunks become, in order. -/
def statements : List Statement :=
  (inContext interpreters context chunks).filterMap fun entry =>
    entry.2.statement? interpreters entry.1

end Several

variable {interpreters : List Interpreter}

theorem inContext_cons (context : Context) (chunk : Chunk) (chunks : List Chunk) :
    inContext interpreters context (chunk :: chunks) =
      (context, chunk) ::
        inContext interpreters (chunk.contextBehind interpreters context) chunks := by
  rw [inContext, List.scanl_cons, List.zip_cons_cons]
  rfl

theorem firstRefusal?_cons (context : Context) (chunk : Chunk) (chunks : List Chunk) :
    firstRefusal? interpreters context (chunk :: chunks) =
      match chunk.refusal? interpreters context with
      | some cause => some (chunk, cause)
      | none => firstRefusal? interpreters (chunk.contextBehind interpreters context) chunks := by
  rw [firstRefusal?, inContext_cons, List.findSome?_cons]
  cases chunk.refusal? interpreters context <;> rfl

theorem statements_cons (context : Context) (chunk : Chunk) (chunks : List Chunk) :
    statements interpreters context (chunk :: chunks) =
      (chunk.statement? interpreters context).toList ++
        statements interpreters (chunk.contextBehind interpreters context) chunks := by
  rw [statements, inContext_cons, List.filterMap_cons]
  cases chunk.statement? interpreters context <;> rfl

/-- The first refusal stays the first one when chunks follow. -/
theorem firstRefusal?_append {context : Context} {chunks : List Chunk}
    {refusal : Chunk × StatementError}
    (refused : firstRefusal? interpreters context chunks = some refusal) (more : List Chunk) :
    firstRefusal? interpreters context (chunks ++ more) = some refusal := by
  induction chunks generalizing context with
  | nil => cases refused
  | cons chunk chunks ih =>
    rw [firstRefusal?_cons] at refused
    rw [List.cons_append, firstRefusal?_cons]
    cases here : chunk.refusal? interpreters context with
    | some cause =>
      rw [here] at refused
      exact refused
    | none =>
      rw [here] at refused
      exact ih refused

/-- Each statement is that of a chunk, which is not all comment. -/
theorem exists_of_mem_statements {context : Context} {chunks : List Chunk} {statement : Statement}
    (member : statement ∈ statements interpreters context chunks) :
    ∃ chunk ∈ chunks, chunk.probe ≠ [] ∧ statement.source = chunk.source := by
  induction chunks generalizing context with
  | nil => exact absurd member List.not_mem_nil
  | cons chunk chunks ih =>
    rw [statements_cons] at member
    rcases List.mem_append.mp member with here | later
    · obtain ⟨action, acts, rfl⟩ := Option.map_eq_some_iff.mp (Option.mem_toList.mp here)
      refine ⟨chunk, List.mem_cons_self, fun nothing => ?_, rfl⟩
      rw [action?, if_pos nothing] at acts
      cases acts
    · obtain ⟨other, among, something, source⟩ := ih later
      exact ⟨other, .tail _ among, something, source⟩

end Chunk

/-! ### Reading chunks -/

namespace Progress

variable {interpreters : List Interpreter}

/-- A chunk is refused, or it leaves its context behind and adds its statement. -/
theorem take_eq (progress : Progress) (chunk : Chunk) :
    progress.take interpreters chunk =
      match chunk.refusal? interpreters progress.context with
      | some cause => .error cause
      | none => .ok ⟨chunk.contextBehind interpreters progress.context,
          (chunk.statement? interpreters progress.context).toList ++ progress.recorded⟩ := by
  simp only [take, Chunk.refusal?, Chunk.contextBehind, Chunk.statement?, Chunk.action?,
    Directive.text]
  cases valid : Utf8.decode chunk.source with
  | error offset => rfl
  | ok sql =>
    rw [Utf8.lossy_eq_of_decode_eq_ok valid]
    cases probe : Scan.afterComments chunk.source with
    | nil =>
      have nothing : chunk.probe = [] := probe
      simp only [nothing, if_true]
      rfl
    | cons first rest =>
      have something : chunk.probe = first :: rest := probe
      have different : first :: rest ≠ [] := List.cons_ne_nil first rest
      simp only [something, if_neg different]
      cases read : Directive.interpret interpreters progress.context (first :: rest) with
      | error cause => simp [bind, Except.bind]
      | ok outcome =>
        cases outcome <;> simp [bind, Except.bind, record] <;> rfl

/-- A statement that a chunk adds stands where the chunk stands. -/
theorem mem_recorded_of_take {progress next : Progress} {chunk : Chunk}
    (taken : progress.take interpreters chunk = .ok next) {statement : Statement}
    (member : statement ∈ next.recorded) :
    statement ∈ progress.recorded ∨
      (statement.left = chunk.left ∧ statement.right = chunk.right ∧
        statement.source = chunk.source) := by
  rw [take_eq] at taken
  cases refusal : chunk.refusal? interpreters progress.context with
  | some cause => rw [refusal] at taken; cases taken
  | none =>
    rw [refusal] at taken
    cases taken
    rcases List.mem_append.mp member with new | old
    · right
      obtain ⟨action, _, same⟩ := Option.map_eq_some_iff.mp (Option.mem_toList.mp new)
      exact same ▸ ⟨rfl, rfl, rfl⟩
    · exact .inl old

/-- Chunks are read as far as the first one that is refused. -/
theorem takeAll_eq (progress : Progress) (chunks : List Chunk) :
    progress.takeAll interpreters chunks =
      match Chunk.firstRefusal? interpreters progress.context chunks with
      | some refusal => .error refusal
      | none => .ok ⟨chunks.foldl (Chunk.contextBehind interpreters) progress.context,
          (Chunk.statements interpreters progress.context chunks).reverse ++
            progress.recorded⟩ := by
  induction chunks generalizing progress with
  | nil => rfl
  | cons chunk chunks ih =>
    rw [takeAll, take_eq, Chunk.firstRefusal?_cons, Chunk.statements_cons, List.foldl_cons]
    cases chunk.refusal? interpreters progress.context with
    | some cause => rfl
    | none =>
      simp only [ih]
      rw [List.reverse_append, List.append_assoc]
      cases chunk.statement? interpreters progress.context <;> rfl

/-- Each statement that chunks add stands where one of them stands. -/
theorem mem_recorded_of_takeAll {progress next : Progress} {chunks : List Chunk}
    (taken : progress.takeAll interpreters chunks = .ok next) {statement : Statement}
    (member : statement ∈ next.recorded) :
    statement ∈ progress.recorded ∨
      ∃ chunk ∈ chunks, statement.left = chunk.left ∧ statement.right = chunk.right ∧
        statement.source = chunk.source := by
  induction chunks generalizing progress with
  | nil =>
    cases taken
    exact .inl member
  | cons chunk chunks ih =>
    rw [takeAll] at taken
    cases here : progress.take interpreters chunk with
    | error cause => rw [here] at taken; cases taken
    | ok between =>
      rw [here] at taken
      rcases ih taken with old | ⟨other, among, places⟩
      · exact (mem_recorded_of_take here old).imp_right fun places =>
          ⟨chunk, List.mem_cons_self, places⟩
      · exact .inr ⟨other, .tail _ among, places⟩

/-- The last chunk is read behind all others. -/
theorem takeAll_concat_eq_ok_iff {progress next : Progress} {chunks : List Chunk} {final : Chunk} :
    progress.takeAll interpreters (chunks ++ [final]) = .ok next ↔
      ∃ before, progress.takeAll interpreters chunks = .ok before ∧
        before.take interpreters final = .ok next := by
  rw [takeAll_append]
  cases progress.takeAll interpreters chunks with
  | error refusal =>
    constructor
    · intro same
      cases same
    · rintro ⟨_, absent, _⟩
      cases absent
  | ok before =>
    show takeAll interpreters before [final] = .ok next ↔ _
    rw [takeAll]
    cases taken : before.take interpreters final with
    | error cause =>
      constructor
      · intro same
        cases same
      · rintro ⟨other, same, accepted⟩
        rw [← Except.ok.inj same, taken] at accepted
        cases accepted
    | ok last =>
      constructor
      · intro same
        obtain rfl : last = next := Except.ok.inj same
        exact ⟨before, rfl, taken⟩
      · rintro ⟨other, same, accepted⟩
        rw [← Except.ok.inj same, taken] at accepted
        exact congrArg Except.ok (Except.ok.inj accepted)

end Progress

/-! ### The whole of a fixture -/

namespace Config

variable (config : Config) (fixture : Bytes)

/-- The chunks that a build may read: the first ones, as many as the limit says. -/
def chunks : List Chunk :=
  ((Remainder.whole fixture).cutting config.delimiter).chunks.take config.limit

/-- The first of these chunks that is refused, with the cause. -/
def refusal? : Option (Chunk × StatementError) :=
  Chunk.firstRefusal? config.interpreters .empty (config.chunks fixture)

/-- The context that these chunks leave behind. -/
def context : Context :=
  (config.chunks fixture).foldl (Chunk.contextBehind config.interpreters) .empty

/-- The statements that these chunks become. -/
def statements : List Statement :=
  Chunk.statements config.interpreters .empty (config.chunks fixture)

/-- Where the limit is felt: at the chunk behind those within it, or where the delimiter stalls. -/
def limitPlace? : Option Position :=
  ((Remainder.whole fixture).cutting config.delimiter).beyond? config.limit

end Config

namespace Test

/-- The chunks within the limit, read one after the other. -/
theorem takeAll_start (config : Config) (fixture : Bytes) :
    Progress.start.takeAll config.interpreters (config.chunks fixture) =
      match config.refusal? fixture with
      | some refusal => .error refusal
      | none => .ok ⟨config.context fixture, (config.statements fixture).reverse⟩ := by
  have taken : Progress.start.takeAll config.interpreters (config.chunks fixture) =
      match config.refusal? fixture with
      | some refusal => .error refusal
      | none => .ok ⟨config.context fixture, (config.statements fixture).reverse ++ []⟩ :=
    Progress.takeAll_eq Progress.start _
  rw [taken, List.append_nil]

/-- The loop over a whole fixture reads the chunks within the limit. -/
theorem finish_start_eq_takeAll (config : Config) (fixture : Bytes) :
    (Loop.start config fixture).finish config =
      match Progress.start.takeAll config.interpreters (config.chunks fixture) with
      | .error (chunk, cause) => .error (.refused chunk cause)
      | .ok progress =>
        match config.limitPlace? fixture with
        | some position => .error (.limit position)
        | none => .ok progress :=
  Loop.finish_eq _

/-- The loop over a whole fixture, told from its chunks. -/
theorem finish_start (config : Config) (fixture : Bytes) :
    (Loop.start config fixture).finish config =
      match config.refusal? fixture with
      | some (chunk, cause) => .error (.refused chunk cause)
      | none =>
        match config.limitPlace? fixture with
        | some position => .error (.limit position)
        | none => .ok ⟨config.context fixture, (config.statements fixture).reverse⟩ := by
  rw [finish_start_eq_takeAll, takeAll_start]
  cases config.refusal? fixture <;> rfl

section

variable {config : Config} {name : String} {fixture : Bytes}

theorem build_of_refusal {chunk : Chunk} {cause : StatementError}
    (refused : config.refusal? fixture = some (chunk, cause)) :
    build config name fixture =
      .error (.refused name chunk.left chunk.right cause (Utf8.lossy fixture)) := by
  rw [build, finish_start, refused]
  rfl

variable (accepted : config.refusal? fixture = none)

include accepted

theorem build_of_limit {position : Position}
    (reached : config.limitPlace? fixture = some position) :
    build config name fixture = .error (.iterationLimit name config.limit position) := by
  rw [build, finish_start, accepted, reached]
  rfl

theorem build_of_no_action (within : config.limitPlace? fixture = none)
    (nothing : config.statements fixture = []) :
    build config name fixture = .error (.empty name) := by
  rw [build, finish_start, accepted, within, nothing]
  rfl

theorem build_of_action (within : config.limitPlace? fixture = none)
    (something : config.statements fixture ≠ []) :
    build config name fixture = .ok ⟨name, config.context fixture, config.statements fixture⟩ := by
  rw [build, finish_start, accepted, within]
  simp only [List.isEmpty_reverse, List.reverse_reverse]
  rw [if_neg (fun empty => something (List.isEmpty_iff.mp empty))]

end

/-- What a success says about the chunks. -/
theorem build_eq_ok {config : Config} {name : String} {fixture : Bytes} {test : Test}
    (built : build config name fixture = .ok test) :
    config.refusal? fixture = none ∧ config.limitPlace? fixture = none ∧
      config.statements fixture ≠ [] ∧
      test = ⟨name, config.context fixture, config.statements fixture⟩ := by
  cases refusal : config.refusal? fixture with
  | some refused => rw [build_of_refusal refusal] at built; cases built
  | none =>
    cases place : config.limitPlace? fixture with
    | some position => rw [build_of_limit refusal place] at built; cases built
    | none =>
      by_cases nothing : config.statements fixture = []
      · rw [build_of_no_action refusal place nothing] at built
        cases built
      · rw [build_of_action refusal place nothing] at built
        cases built
        exact ⟨rfl, rfl, nothing, rfl⟩

/-- A refusal is that of the first refused chunk within the limit. -/
theorem build_eq_refused {config : Config} {name called : String} {fixture : Bytes}
    {left right : Position} {cause : StatementError} {text : String}
    (built : build config name fixture = .error (.refused called left right cause text)) :
    ∃ chunk, config.refusal? fixture = some (chunk, cause) ∧
      chunk.left = left ∧ chunk.right = right := by
  cases refusal : config.refusal? fixture with
  | some refused =>
    rw [build_of_refusal refusal] at built
    cases built
    exact ⟨refused.1, rfl, rfl, rfl⟩
  | none =>
    cases place : config.limitPlace? fixture with
    | some position => rw [build_of_limit refusal place] at built; cases built
    | none =>
      by_cases nothing : config.statements fixture = []
      · rw [build_of_no_action refusal place nothing] at built
        cases built
      · rw [build_of_action refusal place nothing] at built
        cases built

/-- The limit is the failure exactly if no chunk within it is refused and it is felt. -/
theorem build_eq_iterationLimit_iff {config : Config} {name : String} {fixture : Bytes} :
    (∃ called limit position,
        build config name fixture = .error (.iterationLimit called limit position)) ↔
      config.refusal? fixture = none ∧ config.limitPlace? fixture ≠ none := by
  cases refusal : config.refusal? fixture with
  | some refused =>
    rw [build_of_refusal refusal]
    exact ⟨fun ⟨_, _, _, same⟩ => (by cases same), fun accepted => (by cases accepted.1)⟩
  | none =>
    cases place : config.limitPlace? fixture with
    | some position =>
      rw [build_of_limit refusal place]
      exact ⟨fun _ => ⟨rfl, nofun⟩, fun _ => ⟨name, config.limit, position, rfl⟩⟩
    | none =>
      refine ⟨fun ⟨_, _, _, same⟩ => ?_, fun felt => absurd rfl felt.2⟩
      by_cases nothing : config.statements fixture = []
      · rw [build_of_no_action refusal place nothing] at same
        cases same
      · rw [build_of_action refusal place nothing] at same
        cases same

/-- The limit is not felt exactly if it allows all chunks and the delimiter does not stall. -/
theorem limitPlace?_eq_none_iff {config : Config} {fixture : Bytes} :
    config.limitPlace? fixture = none ↔
      ((Remainder.whole fixture).cutting config.delimiter).chunks.length ≤ config.limit ∧
        ((Remainder.whole fixture).cutting config.delimiter).stall = none := by
  unfold Config.limitPlace? Cutting.beyond?
  cases found : ((Remainder.whole fixture).cutting config.delimiter).chunks[config.limit]? with
  | none => exact ⟨fun same => ⟨List.getElem?_eq_none_iff.mp found, same⟩, And.right⟩
  | some chunk =>
    refine ⟨nofun, fun within => ?_⟩
    rw [List.getElem?_eq_none_iff.mpr within.1] at found
    cases found

/-- A test is what the chunks within the limit amount to. -/
theorem takeAll_of_build {config : Config} {name : String} {fixture : Bytes} {test : Test}
    (built : build config name fixture = .ok test) :
    Progress.start.takeAll config.interpreters (config.chunks fixture) =
      .ok ⟨test.context, test.statements.reverse⟩ := by
  obtain ⟨accepted, _, _, rfl⟩ := build_eq_ok built
  rw [takeAll_start, accepted]

/-- Chunks within the limit that amount to something make a test. -/
theorem build_of_takeAll (config : Config) (name : String) {fixture : Bytes}
    {progress : Progress}
    (few : ((Remainder.whole fixture).cutting config.delimiter).chunks.length ≤ config.limit)
    (moving : ((Remainder.whole fixture).cutting config.delimiter).stall = none)
    (read : Progress.start.takeAll config.interpreters
      ((Remainder.whole fixture).cutting config.delimiter).chunks = .ok progress)
    (something : progress.recorded ≠ []) :
    build config name fixture = .ok ⟨name, progress.context, progress.recorded.reverse⟩ := by
  have all : config.chunks fixture =
      ((Remainder.whole fixture).cutting config.delimiter).chunks := List.take_of_length_le few
  have unfelt : config.limitPlace? fixture = none := limitPlace?_eq_none_iff.mpr ⟨few, moving⟩
  rw [build, finish_start_eq_takeAll, all, read, unfelt]
  exact if_neg fun nothing => something (List.isEmpty_iff.mp nothing)

/-- Chunks within the limit that amount to nothing make no test. -/
theorem build_of_takeAll_of_nothing (config : Config) (name : String) {fixture : Bytes}
    {progress : Progress}
    (few : ((Remainder.whole fixture).cutting config.delimiter).chunks.length ≤ config.limit)
    (moving : ((Remainder.whole fixture).cutting config.delimiter).stall = none)
    (read : Progress.start.takeAll config.interpreters
      ((Remainder.whole fixture).cutting config.delimiter).chunks = .ok progress)
    (nothing : progress.recorded = []) : build config name fixture = .error (.empty name) := by
  have all : config.chunks fixture =
      ((Remainder.whole fixture).cutting config.delimiter).chunks := List.take_of_length_le few
  have unfelt : config.limitPlace? fixture = none := limitPlace?_eq_none_iff.mpr ⟨few, moving⟩
  rw [build, finish_start_eq_takeAll, all, read, unfelt]
  exact if_pos (List.isEmpty_iff.mpr nothing)

/-- A result, from what is told of it. -/
theorem exists_of_toOption {ε : Type u} {α : Type v} {β : Type w} {outcome : Except ε α} {f : α → β}
    {value : β} (told : outcome.toOption.map f = some value) :
    ∃ result, outcome = .ok result ∧ f result = value := by
  cases outcome with
  | error failure => cases told
  | ok result => exact ⟨result, rfl, Option.some.inj told⟩

/-- The failure of an outcome, if it is one. -/
def failure? {ε : Type u} {α : Type v} : Except ε α → Option ε
  | .error failure => some failure
  | .ok _ => none

theorem failure?_eq_some_iff {ε : Type u} {α : Type v} {outcome : Except ε α} {failure : ε} :
    failure? outcome = some failure ↔ outcome = .error failure := by
  cases outcome <;> simp [failure?]

/-- Whether the limit is the failure. -/
def ReachesLimit (config : Config) (name : String) (fixture : Bytes) : Prop :=
  ∃ called limit position,
    build config name fixture = .error (.iterationLimit called limit position)

/-- Where no chunk is refused, the limit allows all of them if it is not the failure. -/
theorem few_of_unreached {config : Config} {name : String} {fixture : Bytes} {progress : Progress}
    (read : Progress.start.takeAll config.interpreters
      ((Remainder.whole fixture).cutting config.delimiter).chunks = .ok progress)
    (unreached : ¬ReachesLimit config name fixture) :
    ((Remainder.whole fixture).cutting config.delimiter).chunks.length ≤ config.limit := by
  rw [ReachesLimit, build_eq_iterationLimit_iff] at unreached
  have accepted : config.refusal? fixture = none := by
    cases refusal : config.refusal? fixture with
    | none => rfl
    | some refused =>
      have still := Chunk.firstRefusal?_append refusal
        (((Remainder.whole fixture).cutting config.delimiter).chunks.drop config.limit)
      rw [Config.chunks, List.take_append_drop] at still
      rw [Progress.takeAll_eq, Progress.start, still] at read
      cases read
  have unfelt : config.limitPlace? fixture = none :=
    Classical.byContradiction fun felt => unreached ⟨accepted, felt⟩
  exact (limitPlace?_eq_none_iff.mp unfelt).1

/-- Chunks that amount to something make a test, unless the limit is the failure. -/
theorem build_of_takeAll_of_unreached (config : Config) (name : String) {fixture : Bytes}
    {progress : Progress}
    (moving : ((Remainder.whole fixture).cutting config.delimiter).stall = none)
    (read : Progress.start.takeAll config.interpreters
      ((Remainder.whole fixture).cutting config.delimiter).chunks = .ok progress)
    (something : progress.recorded ≠ [])
    (unreached : ¬ReachesLimit config name fixture) :
    build config name fixture = .ok ⟨name, progress.context, progress.recorded.reverse⟩ :=
  build_of_takeAll config name (few_of_unreached read unreached) moving read something

/-- A fixture builds exactly if the limit allows all of its chunks, the delimiter does not stall,
and the chunks together amount to some statement; the test is what they amount to. -/
theorem build_eq_ok_iff {config : Config} {name : String} {fixture : Bytes} {test : Test} :
    build config name fixture = .ok test ↔
      ((Remainder.whole fixture).cutting config.delimiter).chunks.length ≤ config.limit ∧
      ((Remainder.whole fixture).cutting config.delimiter).stall = none ∧
      Progress.start.takeAll config.interpreters
          ((Remainder.whole fixture).cutting config.delimiter).chunks =
        .ok ⟨test.context, test.statements.reverse⟩ ∧
      test.statements ≠ [] ∧ test.name = name := by
  constructor
  · intro built
    have taken := takeAll_of_build built
    obtain ⟨_, unfelt, something, rfl⟩ := build_eq_ok built
    obtain ⟨few, moving⟩ := limitPlace?_eq_none_iff.mp unfelt
    have all : config.chunks fixture =
        ((Remainder.whole fixture).cutting config.delimiter).chunks := List.take_of_length_le few
    rw [all] at taken
    exact ⟨few, moving, taken, something, rfl⟩
  · rintro ⟨few, moving, taken, something, rfl⟩
    have acting : test.statements.reverse ≠ [] := mt List.reverse_eq_nil_iff.mp something
    rw [build_of_takeAll config test.name few moving taken acting, List.reverse_reverse]

end Test

end SqlFixture
