/-
**Finite maps, kept in order.**

A dictionary lists its entries in strictly increasing order of their keys, so that two dictionaries
with the same entries are equal and the list is also the order of presentation. Texts compare
character by character by code point, which is the order of their encoded bytes; lists of texts
compare text by text.

* `Dictionary.find?`, `insert`, `empty`: look-up, last-wins insertion, no entries;
* `Dictionary.sorted`: the invariant, kept by `insertEntry_pairwise`;
* `find?_insert_self`, `find?_insert_of_ne`: what an insertion changes;
* `find?_eq_none_iff`, `find?_eq_some_iff`: look-up tells the keys and the entries;
* `insertEntry_perm`, `eq_of_perm`: the order of insertion does not show;
* `eq_of_find?_eq`: a dictionary is what look-up tells of it, an insertion too (`eq_insert_iff`);
* `Dictionary.Within`: one dictionary extends another;
* `Dictionary.Apart`, `Dictionary.IsUnion`: no common key, and the entries of two others.
-/

namespace SqlFixture

/-- A strict order that tells any two different keys apart. -/
class KeyOrder (κ : Type u) [LT κ] : Prop where
  irrefl : ∀ key : κ, ¬key < key
  trans : ∀ {first second third : κ}, first < second → second < third → first < third
  eq_of_not_lt : ∀ {first second : κ}, ¬first < second → ¬second < first → first = second

instance : KeyOrder String where
  irrefl := String.lt_irrefl
  trans := String.lt_trans
  eq_of_not_lt notLess notGreater :=
    String.le_antisymm (String.not_lt.mp notGreater) (String.not_lt.mp notLess)

instance : KeyOrder (List String) where
  irrefl := List.lt_irrefl
  trans := List.lt_trans
  eq_of_not_lt notLess notGreater := List.le_antisymm notGreater notLess

/-- Entries in strictly increasing order of their keys. -/
@[ext]
structure Dictionary (κ : Type u) (α : Type v) [LT κ] where
  entries : List (κ × α)
  sorted : entries.Pairwise fun first second => first.1 < second.1

namespace Dictionary

variable {κ : Type u} {α : Type v} [LT κ]

/-- No entries. -/
def empty : Dictionary κ α := ⟨[], .nil⟩

instance : Inhabited (Dictionary κ α) := ⟨empty⟩

instance [DecidableEq κ] [DecidableEq α] : DecidableEq (Dictionary κ α) := fun first second =>
  decidable_of_iff (first.entries = second.entries) Dictionary.ext_iff.symm

/-! ### Look-up -/

/-- The value of a key in a list of entries. -/
def findValue? [DecidableEq κ] (key : κ) : List (κ × α) → Option α
  | [] => none
  | (name, value) :: rest => if name = key then some value else findValue? key rest

/-- The value of a key. -/
def find? [DecidableEq κ] (dictionary : Dictionary κ α) (key : κ) : Option α :=
  findValue? key dictionary.entries

/-- Whether a key has a value. -/
def contains [DecidableEq κ] (dictionary : Dictionary κ α) (key : κ) : Bool :=
  (dictionary.find? key).isSome

/-- The number of keys. -/
def size (dictionary : Dictionary κ α) : Nat := dictionary.entries.length

/-- Whether there is no key. -/
def isEmpty (dictionary : Dictionary κ α) : Bool := dictionary.entries.isEmpty

/-- The keys, in increasing order. -/
def keys (dictionary : Dictionary κ α) : List κ := dictionary.entries.map Prod.fst

/-! ### Insertion -/

/-- Puts an entry at its place, instead of one with the same key. -/
def insertEntry [DecidableLT κ] (key : κ) (value : α) : List (κ × α) → List (κ × α)
  | [] => [(key, value)]
  | (name, found) :: rest =>
    if key < name then (key, value) :: (name, found) :: rest
    else if name < key then (name, found) :: insertEntry key value rest
    else (key, value) :: rest

/-- The entries after an insertion are the new one and some of the old ones. -/
theorem mem_insertEntry [DecidableLT κ] {key : κ} {value : α} {entries : List (κ × α)}
    {entry : κ × α} (member : entry ∈ insertEntry key value entries) :
    entry = (key, value) ∨ entry ∈ entries := by
  induction entries with
  | nil => simpa [insertEntry] using member
  | cons head rest ih =>
    simp only [insertEntry] at member
    split at member
    · simpa using member
    · split at member
      · rcases List.mem_cons.mp member with equal | later
        · exact .inr (by simp [equal])
        · exact (ih later).imp id (List.mem_cons_of_mem _)
      · rcases List.mem_cons.mp member with equal | later
        · exact .inl equal
        · exact .inr (List.mem_cons_of_mem _ later)

theorem insertEntry_pairwise [DecidableLT κ] [KeyOrder κ] (key : κ) (value : α)
    {entries : List (κ × α)}
    (sorted : entries.Pairwise fun first second => first.1 < second.1) :
    (insertEntry key value entries).Pairwise fun first second => first.1 < second.1 := by
  induction entries with
  | nil => simp [insertEntry]
  | cons head rest ih =>
    obtain ⟨below, sortedRest⟩ := List.pairwise_cons.mp sorted
    simp only [insertEntry]
    split
    next less =>
      refine List.pairwise_cons.mpr ⟨fun entry member => ?_, sorted⟩
      rcases List.mem_cons.mp member with equal | later
      · exact equal ▸ less
      · exact KeyOrder.trans less (below entry later)
    next notLess =>
      split
      next greater =>
        refine List.pairwise_cons.mpr ⟨fun entry member => ?_, ih sortedRest⟩
        rcases mem_insertEntry member with equal | old
        · exact equal ▸ greater
        · exact below entry old
      next notGreater =>
        have equal : key = head.1 := KeyOrder.eq_of_not_lt notLess notGreater
        exact List.pairwise_cons.mpr ⟨fun entry member => equal ▸ below entry member, sortedRest⟩

/-- The dictionary in which `key` has `value` and all else is unchanged. -/
def insert [DecidableLT κ] [KeyOrder κ] (dictionary : Dictionary κ α) (key : κ) (value : α) :
    Dictionary κ α :=
  ⟨insertEntry key value dictionary.entries, insertEntry_pairwise key value dictionary.sorted⟩

/-- Inserts entries one after the other; of entries with the same key the last one stays. -/
def ofList [DecidableLT κ] [KeyOrder κ] (entries : List (κ × α)) : Dictionary κ α :=
  entries.foldl (fun dictionary entry => dictionary.insert entry.1 entry.2) empty

/-! ### Look-up after insertion -/

@[simp] theorem find?_empty [DecidableEq κ] (key : κ) :
    (empty : Dictionary κ α).find? key = none := rfl

theorem findValue?_insertEntry_self [DecidableLT κ] [DecidableEq κ] [KeyOrder κ] (key : κ)
    (value : α) (entries : List (κ × α)) :
    findValue? key (insertEntry key value entries) = some value := by
  induction entries with
  | nil => simp [insertEntry, findValue?]
  | cons head rest ih =>
    simp only [insertEntry]
    split
    · simp [findValue?]
    · split
      next greater =>
        have different : head.1 ≠ key := fun equal => KeyOrder.irrefl key (equal ▸ greater)
        simpa [findValue?, different] using ih
      · simp [findValue?]

theorem findValue?_insertEntry_of_ne [DecidableLT κ] [DecidableEq κ] [KeyOrder κ] {key other : κ}
    (different : other ≠ key) (value : α) (entries : List (κ × α)) :
    findValue? other (insertEntry key value entries) = findValue? other entries := by
  induction entries with
  | nil => simp [insertEntry, findValue?, different.symm]
  | cons head rest ih =>
    simp only [insertEntry]
    split
    · simp [findValue?, different.symm]
    next notLess =>
      split
      · simp only [findValue?, ih]
      next notGreater =>
        have equal : key = head.1 := KeyOrder.eq_of_not_lt notLess notGreater
        simp [findValue?, ← equal, different.symm]

@[simp] theorem find?_insert_self [DecidableLT κ] [DecidableEq κ] [KeyOrder κ]
    (dictionary : Dictionary κ α) (key : κ) (value : α) :
    (dictionary.insert key value).find? key = some value :=
  findValue?_insertEntry_self key value dictionary.entries

theorem find?_insert_of_ne [DecidableLT κ] [DecidableEq κ] [KeyOrder κ]
    (dictionary : Dictionary κ α) {key other : κ} (different : other ≠ key) (value : α) :
    (dictionary.insert key value).find? other = dictionary.find? other :=
  findValue?_insertEntry_of_ne different value dictionary.entries

/-! ### New keys -/

omit [LT κ] in
theorem findValue?_eq_none_iff [DecidableEq κ] {key : κ} {entries : List (κ × α)} :
    findValue? key entries = none ↔ key ∉ entries.map Prod.fst := by
  induction entries with
  | nil => exact ⟨fun _ => List.not_mem_nil, fun _ => rfl⟩
  | cons head rest ih =>
    rw [findValue?, List.map_cons, List.mem_cons, not_or, ← ih]
    by_cases same : head.1 = key
    · rw [if_pos same]
      exact ⟨nofun, fun absent => absurd same.symm absent.1⟩
    · rw [if_neg same]
      exact ⟨fun absent => ⟨Ne.symm same, absent⟩, And.right⟩

/-- Apart from the order, a new key is one more entry. -/
theorem insertEntry_perm [DecidableLT κ] [DecidableEq κ] [KeyOrder κ] {key : κ}
    {entries : List (κ × α)} (fresh : findValue? key entries = none) (value : α) :
    (insertEntry key value entries).Perm ((key, value) :: entries) := by
  induction entries with
  | nil => exact .refl _
  | cons head rest ih =>
    rw [findValue?_eq_none_iff, List.map_cons, List.mem_cons, not_or] at fresh
    simp only [insertEntry]
    split
    · exact .refl _
    next notLess =>
      split
      · have later := findValue?_eq_none_iff.mpr fresh.2
        exact ((ih later).cons head).trans (.swap ..)
      next notGreater => exact absurd (KeyOrder.eq_of_not_lt notLess notGreater) fresh.1

/-- Dictionaries with the same entries, in whatever order, are the same. -/
theorem eq_of_perm [KeyOrder κ] {first second : Dictionary κ α}
    (same : first.entries.Perm second.entries) : first = second := by
  ext1
  refine same.eq_of_pairwise (fun one other _ _ below above => ?_) first.sorted second.sorted
  exact absurd (KeyOrder.trans below above) (KeyOrder.irrefl one.1)

theorem nodup_keys [KeyOrder κ] (dictionary : Dictionary κ α) :
    (dictionary.entries.map Prod.fst).Nodup := by
  refine List.pairwise_map.mpr (dictionary.sorted.imp fun {one other} below same => ?_)
  exact KeyOrder.irrefl one.1 (same ▸ below)

omit [LT κ] in
theorem findValue?_eq_some_iff [DecidableEq κ] {key : κ} {value : α} {entries : List (κ × α)}
    (nodup : (entries.map Prod.fst).Nodup) :
    findValue? key entries = some value ↔ (key, value) ∈ entries := by
  induction entries with
  | nil => exact ⟨nofun, nofun⟩
  | cons head rest ih =>
    rw [List.map_cons, List.nodup_cons] at nodup
    by_cases same : head.1 = key
    · have others : (key, value) ∉ rest := fun later =>
        nodup.1 (same ▸ List.mem_map_of_mem (f := Prod.fst) later)
      rw [findValue?, if_pos same, Option.some.injEq, List.mem_cons, or_iff_left others]
      exact ⟨fun equal => by rw [← same, ← equal], fun equal => (Prod.mk.inj equal).2.symm⟩
    · have notFirst : (key, value) ≠ head := fun equal => same (equal ▸ rfl)
      rw [findValue?, if_neg same, List.mem_cons, or_iff_right notFirst]
      exact ih nodup.2

theorem find?_eq_none_iff [DecidableEq κ] {dictionary : Dictionary κ α} {key : κ} :
    dictionary.find? key = none ↔ key ∉ dictionary.keys :=
  findValue?_eq_none_iff

theorem find?_eq_some_iff [DecidableEq κ] [KeyOrder κ] {dictionary : Dictionary κ α} {key : κ}
    {value : α} : dictionary.find? key = some value ↔ (key, value) ∈ dictionary.entries :=
  findValue?_eq_some_iff dictionary.nodup_keys

/-- Dictionaries with the same values of all keys are the same. -/
theorem eq_of_find?_eq [DecidableEq κ] [KeyOrder κ] {first second : Dictionary κ α}
    (same : ∀ key, first.find? key = second.find? key) : first = second := by
  have nodup (dictionary : Dictionary κ α) : dictionary.entries.Nodup := by
    refine dictionary.sorted.imp fun {one other} below equal => ?_
    exact KeyOrder.irrefl one.1 (equal ▸ below)
  refine eq_of_perm ((List.perm_ext_iff_of_nodup (nodup first) (nodup second)).mpr fun entry => ?_)
  rw [← find?_eq_some_iff, ← find?_eq_some_iff, same]

theorem eq_insert_iff [DecidableLT κ] [DecidableEq κ] [KeyOrder κ]
    {dictionary next : Dictionary κ α} {key : κ} {value : α} :
    next = dictionary.insert key value ↔ next.find? key = some value ∧
      ∀ other, other ≠ key → next.find? other = dictionary.find? other := by
  constructor
  · rintro rfl
    exact ⟨find?_insert_self .., fun _ different => find?_insert_of_ne dictionary different value⟩
  · rintro ⟨bound, kept⟩
    refine eq_of_find?_eq fun other => ?_
    by_cases same : other = key
    · rw [same, bound, find?_insert_self]
    · rw [kept other same, find?_insert_of_ne dictionary same]

/-- Entries that are still to be inserted have new keys. -/
theorem find?_eq_none_of_perm [DecidableEq κ] [KeyOrder κ] {done whole : Dictionary κ α}
    {key : κ} {value : α} {later : List (κ × α)}
    (together : (done.entries ++ (key, value) :: later).Perm whole.entries) :
    done.find? key = none := by
  have nodup := (together.map Prod.fst).nodup_iff.mpr whole.nodup_keys
  rw [List.map_append, List.map_cons] at nodup
  refine findValue?_eq_none_iff.mpr fun bound => ?_
  exact (List.nodup_append.mp nodup).2.2 key bound key List.mem_cons_self rfl

/-! ### Extension -/

/-- What the one dictionary binds, the other one binds alike. -/
def Within [DecidableEq κ] (first second : Dictionary κ α) : Prop :=
  ∀ key value, first.find? key = some value → second.find? key = some value

theorem Within.refl [DecidableEq κ] (dictionary : Dictionary κ α) :
    dictionary.Within dictionary :=
  fun _ _ found => found

theorem Within.trans [DecidableEq κ] {first second third : Dictionary κ α}
    (below : first.Within second) (above : second.Within third) : first.Within third :=
  fun key value found => above key value (below key value found)

theorem within_insert [DecidableLT κ] [DecidableEq κ] [KeyOrder κ] {dictionary : Dictionary κ α}
    {key : κ} (fresh : dictionary.find? key = none) (value : α) :
    dictionary.Within (dictionary.insert key value) := by
  intro other bound found
  have different : other ≠ key := by
    rintro rfl
    rw [fresh] at found
    cases found
  rw [find?_insert_of_ne dictionary different, found]

/-! ### Union -/

/-- No key has a value on both sides. -/
def Apart (first second : Dictionary κ α) : Prop := ∀ key ∈ first.keys, key ∉ second.keys

/-- The entries are those of the two others. -/
def IsUnion (whole first second : Dictionary κ α) : Prop :=
  whole.entries.Perm (first.entries ++ second.entries)

section

variable [DecidableEq κ] {whole first second larger : Dictionary κ α} {key : κ} {value : α}

theorem Apart.of_within (apart : first.Apart larger) (within : second.Within larger) :
    first.Apart second := by
  intro key inFirst inSecond
  cases found : second.find? key with
  | none => exact find?_eq_none_iff.mp found inSecond
  | some value =>
    have bound := within key value found
    rw [find?_eq_none_iff.mpr (apart key inFirst)] at bound
    cases bound

theorem IsUnion.find?_eq_none (union : whole.IsUnion first second) :
    whole.find? key = none ↔ first.find? key = none ∧ second.find? key = none := by
  have bound : key ∈ whole.keys ↔ key ∈ first.keys ++ second.keys := by
    rw [keys, (List.Perm.map Prod.fst union).mem_iff, List.map_append]
    rfl
  rw [find?_eq_none_iff, find?_eq_none_iff, find?_eq_none_iff, bound, List.mem_append, not_or]

variable [KeyOrder κ]

theorem IsUnion.find?_of_right (union : whole.IsUnion first second)
    (bound : second.find? key = some value) : whole.find? key = some value := by
  have listed := List.mem_append_right first.entries (find?_eq_some_iff.mp bound)
  exact find?_eq_some_iff.mpr (union.mem_iff.mpr listed)

/-- A new key may be added on one side. -/
theorem IsUnion.insert [DecidableLT κ] (union : whole.IsUnion first second)
    (fresh : whole.find? key = none) (value : α) :
    (whole.insert key value).IsUnion first (second.insert key value) := by
  obtain ⟨_, freshRight⟩ := union.find?_eq_none.mp fresh
  have moved : ((key, value) :: whole.entries).Perm
      (first.entries ++ (key, value) :: second.entries) :=
    (union.cons _).trans List.perm_middle.symm
  refine (insertEntry_perm fresh value).trans (moved.trans ?_)
  exact (insertEntry_perm freshRight value).symm.append_left _

end

end Dictionary

/-- The queries that a fixture has defined so far, by key. -/
abbrev Context := Dictionary String String

namespace Context

/-- The context with one more definition; a key that is bound already is refused. -/
def define (context : Context) (key query : String) : Option Context :=
  if context.contains key then none else some (context.insert key query)

theorem define_eq_none_iff (context : Context) (key query : String) :
    context.define key query = none ↔ (context.find? key).isSome := by
  unfold define
  by_cases bound : context.contains key
  · rw [if_pos bound]
    exact ⟨fun _ => bound, fun _ => rfl⟩
  · rw [if_neg bound]
    exact ⟨nofun, fun isBound => absurd isBound bound⟩

theorem define_eq_some_iff {context next : Context} {key query : String} :
    context.define key query = some next ↔
      context.find? key = none ∧ next = context.insert key query := by
  unfold define Dictionary.contains
  cases context.find? key with
  | some bound => exact ⟨nofun, fun fresh => nomatch fresh.1⟩
  | none => exact ⟨fun same => ⟨rfl, (Option.some.inj same).symm⟩, fun fresh => fresh.2 ▸ rfl⟩

end Context

end SqlFixture
