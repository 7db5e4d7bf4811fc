import Rdst.Persistence.Merge

namespace Rdst.Registry

open Assoc Rdst.Persistence

set_option linter.unusedSectionVars false

variable {Key Atom : Type} [DecidableEq Key] [DecidableEq Atom] {depth : Nat}

/-- `==` of what `dict.get` returns. -/
def sameValue (a b : Option (Value Key Atom depth)) : Bool :=
  match a, b with
  | none, none => true
  | some a, some b => Value.same depth a b
  | _, _ => false

/-- `apply_changes` on the stored entries by hash, with the merged mapping that it returns. -/
def applyChanges (store baseline current : Mapping Key Atom depth)
    (validate : Mapping Key Atom depth → Bool) (keys : Option (List Key)) :
    Option (Mapping Key Atom depth × Mapping Key Atom depth) :=
  let latest := match keys with
    | none => store
    | some keys => restrict keys store
  let merged := mergeMappingChanges latest baseline current
  if validate merged then
    let kept := popAll (latest.keys.filter fun hash => hash ∉ merged.keys) store
    let upsert := fun (stored : Mapping Key Atom depth) hash entry =>
      if sameValue (latest.lookup hash) (some entry) then stored else stored.insert hash entry
    some (forItems merged kept upsert, merged)
  else none

/-- One writer: its entries in memory, and those that it read or last saved. -/
structure QueryRegistry (Key Atom : Type) (depth : Nat) where
  queries : Mapping Key Atom depth
  baseline : Mapping Key Atom depth
  isScoped : Bool

def QueryRegistry.dirtyHashes (registry : QueryRegistry Key Atom depth) : List Key :=
  (registry.queries.keys ++ registry.baseline.keys).filter fun hash =>
    !sameValue (registry.queries.lookup hash) (registry.baseline.lookup hash)

/-- The state that `save` leaves in memory: what it wrote, parsed again where another writer had a part
    in it, and of a scoped registry also what it did not touch. -/
def QueryRegistry.adopt (parse : Value Key Atom depth → Option (Value Key Atom depth))
    (registry : QueryRegistry Key Atom depth) (current merged : Mapping Key Atom depth) :
    QueryRegistry Key Atom depth :=
  let untouched := fun (entries : Mapping Key Atom depth) =>
    if registry.isScoped then popAll registry.dirtyHashes entries else ∅
  let entry := fun hash value =>
    if sameValue (current.lookup hash) (some value) then some value else parse value
  let refresh := fun entries =>
    forItems merged (untouched entries) fun entries hash value =>
      entries.insert hash ((entry hash value).getD value)
  if merged.entries.all fun item => (entry item.1 item.2).isSome then
    { registry with queries := refresh registry.queries, baseline := refresh registry.baseline }
  else registry

/-- `save`; `parse` is `QueryEntry.from_dict` and back, and nothing is written when a changed entry does
    not survive it. -/
def QueryRegistry.save (parse : Value Key Atom depth → Option (Value Key Atom depth))
    (store : Mapping Key Atom depth) (registry : QueryRegistry Key Atom depth) :
    Option (Mapping Key Atom depth × QueryRegistry Key Atom depth) :=
  let dirty := registry.dirtyHashes
  let current := if registry.isScoped then restrict dirty registry.queries else registry.queries
  let baseline := if registry.isScoped then restrict dirty registry.baseline else registry.baseline
  let validate := fun (merged : Mapping Key Atom depth) => dirty.all fun hash =>
    match merged.lookup hash with
    | none => true
    | some entry => (parse entry).isSome
  let keys := if registry.isScoped then some dirty else none
  (applyChanges store baseline current validate keys).map fun written =>
    (written.1, registry.adopt parse current written.2)

/-- Both lookups fail, or they give the same value up to the order of keys. -/
def Agrees (a b : Option (Value Key Atom depth)) : Prop := a = b ∨ sameValue a b = true

theorem sameItems_lookup {V : Type} {same : V → V → Bool} {a b : Dict Key V}
    (equal : sameItems same a b = true) (key : Key) :
    (a.lookup key = none ∧ b.lookup key = none) ∨
      ∃ x y, a.lookup key = some x ∧ b.lookup key = some y ∧ same x y = true := by
  simp only [sameItems, Bool.and_eq_true, List.all_eq_true, decide_eq_true_eq] at equal
  obtain ⟨items, keys⟩ := equal
  cases left : a.lookup key with
  | none =>
    left
    have absent : key ∉ a.keys := by rw [mem_keys_iff, left]; simp
    have absent' : key ∉ b.keys := fun present => absent (keys key present)
    rw [mem_keys_iff, not_not] at absent'
    exact ⟨rfl, absent'⟩
  | some x =>
    right
    have item : (⟨key, x⟩ : Sigma fun _ : Key => V) ∈ a.entries := AList.mem_lookup_iff.mp left
    have matched := items _ item
    cases right : b.lookup key with
    | none => simp [right] at matched
    | some y =>
      simp only [right] at matched
      exact ⟨x, y, rfl, rfl, matched⟩

theorem carries_congr : (depth : Nat) → (before : Option (Value Key Atom depth)) →
    (value a b : Value Key Atom depth) → Value.same depth a b = true →
    (Carries depth before value a ↔ Carries depth before value b)
  | 0, _, value, a, b, equal => by
    have : a = b := by simpa [Value.same] using equal
    rw [this]
  | depth + 1, before, value, a, b, equal => by
    rcases a with a | a <;> rcases b with b | b
    · have : a = b := by simpa [Value.same] using equal
      rw [this]
    · cases equal
    · cases equal
    · rcases value with value | value
      · exact Iff.rfl
      refine forall_congr' fun key => ?_
      rcases sameItems_lookup equal key with ⟨left, right⟩ | ⟨x, y, left, right, same⟩
      · rw [left, right]
      · rw [left, right]
        cases value.lookup key with
        | none => simp [HoldsAt]
        | some written =>
          have deeper := carries_congr depth ((inside before).lookup key) written x y same
          simp only [HoldsAt, Option.some.injEq, exists_eq_left']
          exact or_congr Iff.rfl deeper

theorem holdsAt_congr {before now a b : Option (Value Key Atom depth)} (agrees : Agrees a b) :
    HoldsAt (Value.same depth) (Carries depth) before now a ↔
      HoldsAt (Value.same depth) (Carries depth) before now b := by
  rcases agrees with rfl | equal
  · exact Iff.rfl
  cases a with
  | none =>
    cases b with
    | none => exact Iff.rfl
    | some y => cases equal
  | some x =>
    cases b with
    | none => cases equal
    | some y =>
      cases now with
      | none => simp [HoldsAt]
      | some value =>
        simp only [HoldsAt, Option.some.injEq, exists_eq_left']
        exact or_congr Iff.rfl (carries_congr depth before value x y equal)

theorem upsert_local (latest : Mapping Key Atom depth) :
    Local fun (stored : Mapping Key Atom depth) hash entry =>
      if sameValue (latest.lookup hash) (some entry) then stored else stored.insert hash entry where
  other := by
    intro stored hash entry k differs
    by_cases same : sameValue (latest.lookup hash) (some entry) = true
    · simp [same]
    · simp [same, insert_lookup, differs]
  own := by
    intro stored stored' hash entry agree
    by_cases same : sameValue (latest.lookup hash) (some entry) = true
    · simpa [same] using agree
    · simp [same, insert_lookup]

/-- What `apply_changes` leaves in the store, key by key. -/
theorem applyChanges_agrees {store baseline current : Mapping Key Atom depth}
    {validate : Mapping Key Atom depth → Bool} {keys : Option (List Key)}
    {written : Mapping Key Atom depth × Mapping Key Atom depth}
    (done : applyChanges store baseline current validate keys = some written) (hash : Key) :
    (keys.all (fun keys => hash ∈ keys) = true →
      Agrees (written.1.lookup hash) ((mergeMappingChanges store baseline current).lookup hash)) ∧
    (keys.all (fun keys => hash ∈ keys) = false → baseline.lookup hash = none →
      current.lookup hash = none → written.1.lookup hash = store.lookup hash) := by
  simp only [applyChanges] at done
  set latest := match keys with
    | none => store
    | some keys => restrict keys store with latest_def
  split at done
  swap
  · cases done
  cases done
  have latest_lookup : latest.lookup hash =
      if keys.all (fun keys => hash ∈ keys) = true then store.lookup hash else none := by
    cases keys with
    | none => simp [latest_def]
    | some keys => simp [latest_def, restrict_lookup]
  have merged := mergeItems_lookup (Value.same depth) (mergeNested depth) latest baseline current hash
  have merged' := mergeItems_lookup (Value.same depth) (mergeNested depth) store baseline current hash
  have kept : (popAll (latest.keys.filter fun hash =>
      hash ∉ (mergeMappingChanges latest baseline current).keys) store).lookup hash =
      if latest.lookup hash ≠ none ∧ (mergeMappingChanges latest baseline current).lookup hash = none
      then none else store.lookup hash := by
    rw [popAll_lookup]
    simp only [List.mem_filter, decide_eq_true_eq, mem_keys_iff, not_not]
  rw [forItems_lookup (upsert_local latest), kept]
  constructor
  · intro reread
    rw [if_pos reread] at latest_lookup
    rw [latest_lookup] at merged
    have same : (mergeMappingChanges latest baseline current).lookup hash =
        (mergeMappingChanges store baseline current).lookup hash := merged.trans merged'.symm
    rw [latest_lookup, same]
    cases result : (mergeMappingChanges store baseline current).lookup hash with
    | none =>
      by_cases absent : store.lookup hash = none
      · simp [absent, Agrees]
      · simp [absent, Agrees]
    | some entry =>
      rw [same, result, if_neg (by simp)] at kept
      by_cases equal : sameValue (store.lookup hash) (some entry) = true
      · simp only [latest_lookup, equal, if_true, kept]
        exact .inr equal
      · simp [equal, latest_lookup, Agrees, insert_lookup]
  · intro unscoped before now
    rw [if_neg (by simp [unscoped])] at latest_lookup
    rw [latest_lookup, before, now] at merged
    have none_merged : (mergeMappingChanges latest baseline current).lookup hash = none := merged
    simp [none_merged, latest_lookup]

/-- A save, whole or scoped, stores what the merge of all its entries onto the store gives. -/
theorem save_agrees {parse : Value Key Atom depth → Option (Value Key Atom depth)}
    {store stored : Mapping Key Atom depth} {registry registry' : QueryRegistry Key Atom depth}
    (saved : registry.save parse store = some (stored, registry')) (hash : Key) :
    Agrees (stored.lookup hash)
      ((mergeMappingChanges store registry.baseline registry.queries).lookup hash) := by
  simp only [QueryRegistry.save, Option.map_eq_some_iff, Prod.mk.injEq] at saved
  obtain ⟨written, done, rfl, -⟩ := saved
  have agrees := applyChanges_agrees done hash
  cases scope : registry.isScoped with
  | false =>
    simp only [scope, Bool.false_eq_true, if_false] at agrees
    exact agrees.1 rfl
  | true =>
    simp only [scope, if_true, Option.all_some, decide_eq_true_eq, decide_eq_false_iff_not] at agrees
    have whole := mergeItems_lookup (Value.same depth) (mergeNested depth) store registry.baseline
      registry.queries hash
    by_cases dirty : hash ∈ registry.dirtyHashes
    · have part := mergeItems_lookup (Value.same depth) (mergeNested depth) store
        (restrict registry.dirtyHashes registry.baseline) (restrict registry.dirtyHashes registry.queries) hash
      rw [restrict_lookup, restrict_lookup, if_pos dirty, if_pos dirty] at part
      have same := part.trans whole.symm
      have first := agrees.1 dirty
      rw [show (mergeMappingChanges store (restrict registry.dirtyHashes registry.baseline)
        (restrict registry.dirtyHashes registry.queries)).lookup hash = _ from same] at first
      exact first
    · have untouched := agrees.2 dirty (by simp [restrict_lookup, dirty]) (by simp [restrict_lookup, dirty])
      left
      rw [untouched]
      refine Eq.trans ?_ whole.symm
      -- A clean key is in neither mapping, or holds equal values.
      cases now : registry.queries.lookup hash with
      | none =>
        cases before : registry.baseline.lookup hash with
        | none => rfl
        | some previous =>
          refine absurd ?_ dirty
          simp [QueryRegistry.dirtyHashes, List.mem_filter, mem_keys_iff, now, before, sameValue]
      | some value =>
        have present : hash ∈ registry.queries.keys := by rw [mem_keys_iff, now]; simp
        cases before : registry.baseline.lookup hash with
        | none =>
          refine absurd ?_ dirty
          simp [QueryRegistry.dirtyHashes, List.mem_filter, present, now, before, sameValue]
        | some previous =>
          by_cases equal : Value.same depth value previous = true
          · simp [mergedValue, equal]
          · refine absurd ?_ dirty
            simp [QueryRegistry.dirtyHashes, List.mem_filter, present, now, before, sameValue, equal]

/-- After the saves of two writers that do not contradict each other, the store contains the changes of
    both exactly when the second spares what the first changed. -/
theorem both_saved_iff (parse : Value Key Atom depth → Option (Value Key Atom depth))
    {store stored stored' : Mapping Key Atom depth} {first second first' second' : QueryRegistry Key Atom depth}
    (compatible : Compatible first.baseline first.queries second.baseline second.queries)
    (saved : first.save parse store = some (stored, first'))
    (saved' : second.save parse stored = some (stored', second')) :
    (Holds first.baseline first.queries stored' ∧ Holds second.baseline second.queries stored') ↔
      Spares first.baseline first.queries second.baseline second.queries := by
  have one : Holds first.baseline first.queries stored := fun key =>
    (holdsAt_congr (save_agrees saved key)).mpr (merge_own store first.baseline first.queries key)
  have two : Holds second.baseline second.queries stored' := fun key =>
    (holdsAt_congr (save_agrees saved' key)).mpr (merge_own stored second.baseline second.queries key)
  have kept : Holds first.baseline first.queries stored' ↔
      Holds first.baseline first.queries
        (mergeMappingChanges stored second.baseline second.queries) :=
    forall_congr' fun key => holdsAt_congr (save_agrees saved' key)
  rw [and_iff_left two, kept]
  exact merge_keeps_iff one compatible

/-- A query as it is stored for one target. -/
def entryFor (target tag : String) : Value String String 3 :=
  let lifecycle : Mapping String String 0 := AList.singleton "saved_at" "2026-01-01T00:00:00Z"
  let targets : Mapping String String 1 := AList.singleton target (.inr lifecycle)
  let fields : Mapping String String 2 := AList.singleton "target_lifecycle" (.inr targets)
  .inr (fields.insert "tag" (.inl tag))

/-- A writer that adds one query as new. -/
def adding (target : String) : QueryRegistry String String 3 :=
  ⟨AList.singleton "5b1fe2" (entryFor target ""), ∅, true⟩

/-- A writer that found the query for one target and changed it. -/
def changing (entry : Value String String 3) : QueryRegistry String String 3 :=
  ⟨AList.singleton "5b1fe2" entry, AList.singleton "5b1fe2" (entryFor "prod" ""), false⟩

/-- The query for two targets. -/
def entryForBoth (tag : String) : Value String String 3 :=
  let lifecycle : Mapping String String 0 := AList.singleton "saved_at" "2026-01-01T00:00:00Z"
  let targets : Mapping String String 1 := AList.singleton "prod" (.inr lifecycle)
  let fields : Mapping String String 2 :=
    AList.singleton "target_lifecycle" (.inr (targets.insert "staging" (.inr lifecycle)))
  .inr (fields.insert "tag" (.inl tag))

/-- One writer tags the query, the other saves it for a second target. -/
theorem both_saved_tag_and_target :
    ∃ stored' : Mapping String String 3,
      Holds (changing (entryFor "prod" "slow")).baseline (changing (entryFor "prod" "slow")).queries stored' ∧
        Holds (changing (entryForBoth "")).baseline (changing (entryForBoth "")).queries stored' :=
  ⟨_, (both_saved_iff some ⟨AList.singleton "5b1fe2" (entryForBoth "slow"), by decide⟩
    (rfl : (changing (entryFor "prod" "slow")).save some (changing (entryForBoth "")).baseline = some (_, _))
    (rfl : (changing (entryForBoth "")).save some _ = some (_, _))).mpr (by decide)⟩

/-- Two writers add the same query as new, each for its own target: the later save drops the lifecycle
    entry of the earlier one. -/
theorem lifecycle_overwritten :
    ¬ ∀ (parse : Value String String 3 → Option (Value String String 3))
        (store stored stored' : Mapping String String 3)
        (first second first' second' : QueryRegistry String String 3),
      Compatible first.baseline first.queries second.baseline second.queries →
      first.save parse store = some (stored, first') → second.save parse stored = some (stored', second') →
      Holds first.baseline first.queries stored' ∧ Holds second.baseline second.queries stored' := by
  intro every
  have kept := every some ∅ _ _ (adding "prod") (adding "staging") _ _
    ⟨AList.singleton "5b1fe2" (entryForBoth ""), by decide⟩ rfl rfl
  revert kept
  decide

end Rdst.Registry
