import Rdst.Lib.Assoc

namespace Journal

open Assoc

variable {Key Value : Type} [DecidableEq Key]

inductive Kind
  | dropped
  | added
  deriving DecidableEq

/-- A change of one entry of a mapping, with the value that the entry had or has from then on. -/
structure Entry (Key Value : Type) where
  kind : Kind
  key : Key
  value : Value
  deriving DecidableEq

def Entry.apply (dict : Dict Key Value) (entry : Entry Key Value) : Dict Key Value :=
  match entry.kind with
  | .dropped => dict.erase entry.key
  | .added => dict.insert entry.key entry.value

def replay (start : Dict Key Value) (entries : List (Entry Key Value)) : Dict Key Value :=
  entries.foldl Entry.apply start

/-- One entry for each of the keys, with the value that the source has there. -/
def entriesOf (kind : Kind) (keys : List Key) (source : Dict Key Value) : List (Entry Key Value) :=
  keys.filterMap fun key => (source.lookup key).map fun value => ⟨kind, key, value⟩

/-- An entry that tells the second mapping from the first. -/
def IsChange (old new : Dict Key Value) (entry : Entry Key Value) : Prop :=
  match entry.kind with
  | .dropped => old.lookup entry.key = some entry.value ∧ new.lookup entry.key ≠ some entry.value
  | .added => new.lookup entry.key = some entry.value ∧ old.lookup entry.key ≠ some entry.value

theorem replay_append (start : Dict Key Value) (first second : List (Entry Key Value)) :
    replay start (first ++ second) = replay (replay start first) second := List.foldl_append

theorem mem_entriesOf {kind : Kind} {keys : List Key} {source : Dict Key Value} {entry : Entry Key Value} :
    entry ∈ entriesOf kind keys source ↔
      entry.kind = kind ∧ entry.key ∈ keys ∧ source.lookup entry.key = some entry.value := by
  obtain ⟨kind', key, value⟩ := entry
  simp only [entriesOf, List.mem_filterMap, Option.map_eq_some_iff, Entry.mk.injEq]
  constructor
  · rintro ⟨_, member, _, found, rfl, rfl, rfl⟩
    exact ⟨rfl, member, found⟩
  · rintro ⟨rfl, member, found⟩
    exact ⟨key, member, value, found, rfl, rfl, rfl⟩

theorem entriesOf_nodup {kind : Kind} {keys : List Key} (distinct : keys.Nodup) (source : Dict Key Value) :
    (entriesOf kind keys source).Nodup := by
  apply distinct.filterMap
  intro key key' entry fromKey fromKey'
  obtain ⟨_, _, rfl⟩ := Option.map_eq_some_iff.mp fromKey
  obtain ⟨_, _, same⟩ := Option.map_eq_some_iff.mp fromKey'
  exact (congrArg Entry.key same).symm

theorem replay_dropped (start : Dict Key Value) {keys : List Key} {source : Dict Key Value}
    (present : ∀ key ∈ keys, source.lookup key ≠ none) (k : Key) :
    (replay start (entriesOf .dropped keys source)).lookup k = if k ∈ keys then none else start.lookup k := by
  have popped : replay start (entriesOf .dropped keys source) = popAll keys start := by
    induction keys generalizing start with
    | nil => rfl
    | cons key rest ih =>
      obtain ⟨value, found⟩ := Option.ne_none_iff_exists'.mp (present key List.mem_cons_self)
      have later := ih (start.erase key) fun key member => present key (List.mem_cons_of_mem _ member)
      simpa [entriesOf, found, replay, Entry.apply, popAll] using later
  rw [popped, popAll_lookup]

theorem replay_added (start : Dict Key Value) {keys : List Key} {source : Dict Key Value}
    (present : ∀ key ∈ keys, source.lookup key ≠ none) (k : Key) :
    (replay start (entriesOf .added keys source)).lookup k = if k ∈ keys then source.lookup k else start.lookup k := by
  induction keys generalizing start with
  | nil => rfl
  | cons key rest ih =>
    obtain ⟨value, found⟩ := Option.ne_none_iff_exists'.mp (present key List.mem_cons_self)
    have later := ih (start.insert key value) fun key member => present key (List.mem_cons_of_mem _ member)
    have head : replay start (entriesOf .added (key :: rest) source) =
        replay (start.insert key value) (entriesOf .added rest source) := by
      simp [entriesOf, found, replay, Entry.apply]
    rw [head, later, insert_lookup]
    by_cases same : k = key
    · subst same
      simp [found]
    · simp [same]

/-- Dropping the keys that are gone or changed and adding those that are new or changed leads to the new mapping. -/
theorem replay_difference {start old new : Dict Key Value} {gone come : List Key}
    (isGone : ∀ key, key ∈ gone ↔ old.lookup key ≠ none ∧ new.lookup key ≠ old.lookup key)
    (isCome : ∀ key, key ∈ come ↔ new.lookup key ≠ none ∧ new.lookup key ≠ old.lookup key)
    (same : ∀ key, start.lookup key = old.lookup key) (k : Key) :
    (replay start (entriesOf .dropped gone old ++ entriesOf .added come new)).lookup k = new.lookup k := by
  rw [replay_append, replay_added _ fun key member => ((isCome key).mp member).1,
    replay_dropped _ fun key member => ((isGone key).mp member).1, same]
  by_cases equal : new.lookup k = old.lookup k
  · have stays : k ∉ gone := fun member => ((isGone k).mp member).2 equal
    have old_ : k ∉ come := fun member => ((isCome k).mp member).2 equal
    simp [stays, old_, equal]
  · by_cases absent : new.lookup k = none
    · have old_ : k ∉ come := fun member => ((isCome k).mp member).1 absent
      have left : k ∈ gone := (isGone k).mpr ⟨fun none_ => equal (absent.trans none_.symm), equal⟩
      simp [left, old_, absent]
    · have here : k ∈ come := (isCome k).mpr ⟨absent, equal⟩
      simp [here]

theorem mem_difference {old new : Dict Key Value} {gone come : List Key}
    (isGone : ∀ key, key ∈ gone ↔ old.lookup key ≠ none ∧ new.lookup key ≠ old.lookup key)
    (isCome : ∀ key, key ∈ come ↔ new.lookup key ≠ none ∧ new.lookup key ≠ old.lookup key)
    (entry : Entry Key Value) :
    entry ∈ entriesOf .dropped gone old ++ entriesOf .added come new ↔ IsChange old new entry := by
  obtain ⟨kind, key, value⟩ := entry
  rw [List.mem_append, mem_entriesOf, mem_entriesOf, isGone, isCome]
  cases kind with
  | dropped =>
    simp only [IsChange, true_and, reduceCtorEq, false_and, or_false]
    constructor
    · rintro ⟨⟨_, differs⟩, found⟩
      exact ⟨found, found ▸ differs⟩
    · rintro ⟨found, differs⟩
      exact ⟨⟨found ▸ Option.some_ne_none _, found ▸ differs⟩, found⟩
  | added =>
    simp only [IsChange, reduceCtorEq, false_and, false_or, true_and]
    constructor
    · rintro ⟨⟨_, differs⟩, found⟩
      exact ⟨found, fun before => differs (found.trans before.symm)⟩
    · rintro ⟨found, differs⟩
      exact ⟨⟨found ▸ Option.some_ne_none _, fun equal => differs (equal ▸ found)⟩, found⟩

theorem difference_nodup {old new : Dict Key Value} {gone come : List Key} (once : gone.Nodup) (once' : come.Nodup) :
    (entriesOf .dropped gone old ++ entriesOf .added come new).Nodup := by
  rw [List.nodup_append]
  refine ⟨entriesOf_nodup once old, entriesOf_nodup once' new, ?_⟩
  rintro entry early _ late rfl
  have kinds := (mem_entriesOf.mp early).1.symm.trans (mem_entriesOf.mp late).1
  cases kinds

end Journal
