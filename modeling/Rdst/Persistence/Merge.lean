import Rdst.Lib.Assoc

namespace Rdst.Persistence

open Assoc

set_option linter.unusedSectionVars false

variable {Key Atom : Type} [DecidableEq Key] [DecidableEq Atom]

/-- What a stored mapping holds: scalars and lists are atoms, mappings nest at most `depth` deep. -/
@[reducible] def Value (Key Atom : Type) : Nat → Type
  | 0 => Atom
  | depth + 1 => Atom ⊕ Dict Key (Value Key Atom depth)

abbrev Mapping (Key Atom : Type) (depth : Nat) : Type := Dict Key (Value Key Atom depth)

/-- `==` of two dicts: the same keys, and equal values at each of them, in any order. -/
def sameItems {V : Type} (same : V → V → Bool) (a b : Dict Key V) : Bool :=
  (a.entries.all fun item =>
    match b.lookup item.1 with
    | none => false
    | some other => same item.2 other) &&
  b.keys.all fun key => key ∈ a.keys

def Value.same : (depth : Nat) → Value Key Atom depth → Value Key Atom depth → Bool
  | 0, a, b => a = b
  | depth + 1, a, b =>
    match a, b with
    | .inl a, .inl b => a = b
    | .inr a, .inr b => sameItems (Value.same depth) a b
    | _, _ => false

/-- One turn of the loop of `merge_mapping_changes`; `nested` merges where all three are mappings. -/
def mergeItem {V : Type} (same : V → V → Bool) (nested : V → V → V → Option V) (baseline : Dict Key V)
    (merged : Dict Key V) (key : Key) (value : V) : Dict Key V :=
  match baseline.lookup key with
  | none => merged.insert key value
  | some previous =>
    if same value previous then merged
    else
      match (merged.lookup key).bind fun latest => nested latest previous value with
      | some inner => merged.insert key inner
      | none => merged.insert key value

def mergeItems {V : Type} (same : V → V → Bool) (nested : V → V → V → Option V)
    (latest baseline current : Dict Key V) : Dict Key V :=
  let merged := popAll (baseline.keys.filter fun key => key ∉ current.keys) latest
  forItems current merged (mergeItem same nested baseline)

/-- `merge_mapping_changes` on nested values, and nothing where one of them is not a mapping. -/
def mergeNested : (depth : Nat) → Value Key Atom depth → Value Key Atom depth → Value Key Atom depth →
    Option (Value Key Atom depth)
  | 0, _, _, _ => none
  | depth + 1, latest, previous, value =>
    match latest, previous, value with
    | .inr latest, .inr previous, .inr value =>
      some (.inr (mergeItems (Value.same depth) (mergeNested depth) latest previous value))
    | _, _, _ => none

def mergeMappingChanges {depth : Nat} (latest baseline current : Mapping Key Atom depth) :
    Mapping Key Atom depth :=
  mergeItems (Value.same depth) (mergeNested depth) latest baseline current

/-- What `merge_mapping_changes` leaves at one key. -/
def mergedValue {V : Type} (same : V → V → Bool) (nested : V → V → V → Option V) :
    Option V → Option V → Option V → Option V
  | latest, none, none => latest
  | _, some _, none => none
  | _, none, some value => some value
  | latest, some previous, some value =>
    if same value previous then latest
    else some ((latest.bind fun latest => nested latest previous value).getD value)

theorem mergeItem_local {V : Type} (same : V → V → Bool) (nested : V → V → V → Option V)
    (baseline : Dict Key V) : Local (mergeItem same nested baseline) where
  other := by
    intro merged key value k differs
    unfold mergeItem
    cases baseline.lookup key with
    | none => simp [insert_lookup, differs]
    | some previous =>
      by_cases equal : same value previous = true
      · simp [equal]
      · simp only [equal, if_false]
        cases (merged.lookup key).bind fun latest => nested latest previous value with
        | none => simp [insert_lookup, differs]
        | some inner => simp [insert_lookup, differs]
  own := by
    intro merged merged' key value agree
    unfold mergeItem
    cases baseline.lookup key with
    | none => simp [insert_lookup]
    | some previous =>
      by_cases equal : same value previous = true
      · simpa [equal] using agree
      · simp only [equal, if_false, agree]
        cases (merged'.lookup key).bind fun latest => nested latest previous value with
        | none => simp [insert_lookup]
        | some inner => simp [insert_lookup]

theorem mergeItems_lookup {V : Type} (same : V → V → Bool) (nested : V → V → V → Option V)
    (latest baseline current : Dict Key V) (k : Key) :
    (mergeItems same nested latest baseline current).lookup k =
      mergedValue same nested (latest.lookup k) (baseline.lookup k) (current.lookup k) := by
  rw [mergeItems, forItems_lookup (mergeItem_local same nested baseline)]
  cases now : current.lookup k with
  | none =>
    have absent : k ∉ current.keys := by rw [mem_keys_iff, now]; simp
    rw [popAll_lookup]
    cases before : baseline.lookup k with
    | none =>
      have absent' : k ∉ baseline.keys := by rw [mem_keys_iff, before]; simp
      simp [absent', mergedValue]
    | some previous =>
      have present : k ∈ baseline.keys := by rw [mem_keys_iff, before]; simp
      simp [present, absent, mergedValue]
  | some value =>
    have present : k ∈ current.keys := by rw [mem_keys_iff, now]; simp
    have kept : (popAll (baseline.keys.filter fun key => key ∉ current.keys) latest).lookup k =
        latest.lookup k := by
      rw [popAll_lookup]
      simp [present]
    simp only [mergeItem]
    cases before : baseline.lookup k with
    | none => simp [mergedValue]
    | some previous =>
      by_cases equal : same value previous = true
      · simpa [equal, mergedValue] using kept
      · simp only [equal, if_false, kept, mergedValue]
        cases (latest.lookup k).bind fun latest => nested latest previous value with
        | none => simp [insert_lookup]
        | some inner => simp [insert_lookup]

/-- What a stored mapping must be at one key to hold a writer's change there: nothing where the writer
    deleted, anything where it left the value alone, else a value that carries what it wrote. -/
def HoldsAt {V : Type} (same : V → V → Bool) (carries : Option V → V → V → Prop)
    (before now stored : Option V) : Prop :=
  match now with
  | none => before = none ∨ stored = none
  | some value =>
    (∃ previous, before = some previous ∧ same value previous = true) ∨
      ∃ found, stored = some found ∧ carries before value found

def HoldsAll {V : Type} (same : V → V → Bool) (carries : Option V → V → V → Prop)
    (baseline current stored : Dict Key V) : Prop :=
  ∀ key, HoldsAt same carries (baseline.lookup key) (current.lookup key) (stored.lookup key)

/-- The second writer left the key alone, or its value holds what the first changed there, or both write
    inside mappings that the second had seen. -/
def SparesAt {V : Type} (same : V → V → Bool) (carries : Option V → V → V → Prop)
    (within : Option V → V → V → V → Prop) (before now before' now' : Option V) : Prop :=
  match now' with
  | none => True
  | some value =>
    (∃ previous, before' = some previous ∧ same value previous = true) ∨
      HoldsAt same carries before now (some value) ∨
      ∃ first, now = some first ∧ ∃ previous, before' = some previous ∧ within before first previous value

def SparesAll {V : Type} (same : V → V → Bool) (carries : Option V → V → V → Prop)
    (within : Option V → V → V → V → Prop) (baseline current baseline' current' : Dict Key V) : Prop :=
  ∀ key, SparesAt same carries within (baseline.lookup key) (current.lookup key) (baseline'.lookup key)
    (current'.lookup key)

/-- The mapping in a value, and the empty one where there is none. -/
def inside {depth : Nat} : Option (Value Key Atom (depth + 1)) → Mapping Key Atom depth
  | some (.inr mapping) => mapping
  | _ => ∅

/-- A stored value carries what was written: the atom itself, and of a mapping every change in it. -/
def Carries : (depth : Nat) → Option (Value Key Atom depth) → Value Key Atom depth →
    Value Key Atom depth → Prop
  | 0, _, value, found => found = value
  | depth + 1, before, value, found =>
    match value, found with
    | .inl value, .inl found => found = value
    | .inr value, .inr found =>
      HoldsAll (Value.same depth) (Carries depth) (inside before) value found
    | _, _ => False

def SparesWithin : (depth : Nat) → Option (Value Key Atom depth) → Value Key Atom depth →
    Value Key Atom depth → Value Key Atom depth → Prop
  | 0, _, _, _, _ => False
  | depth + 1, before, first, previous, value =>
    match first, previous, value with
    | .inr first, .inr previous, .inr value =>
      SparesAll (Value.same depth) (Carries depth) (SparesWithin depth) (inside before) first previous value
    | _, _, _ => False

/-- The stored mapping contains the changes that turned `baseline` into `current`. -/
def Holds {depth : Nat} (baseline current stored : Mapping Key Atom depth) : Prop :=
  HoldsAll (Value.same depth) (Carries depth) baseline current stored

/-- The changes of two writers do not contradict each other: one mapping can hold both. -/
def Compatible {depth : Nat} (baseline current baseline' current' : Mapping Key Atom depth) : Prop :=
  ∃ joint, Holds baseline current joint ∧ Holds baseline' current' joint

/-- Wherever the second writer puts a mapping under a key at which its baseline has none, that mapping
    already holds what the first writer changed there. -/
def Spares {depth : Nat} (baseline current baseline' current' : Mapping Key Atom depth) : Prop :=
  SparesAll (Value.same depth) (Carries depth) (SparesWithin depth) baseline current baseline' current'

section Decidable

variable {V : Type} {same : V → V → Bool} {carries : Option V → V → V → Prop}
  {within : Option V → V → V → V → Prop}

instance [∀ before value found, Decidable (carries before value found)] (before now stored : Option V) :
    Decidable (HoldsAt same carries before now stored) :=
  match now with
  | none => decidable_of_iff (before.isNone ∨ stored.isNone) (by simp [HoldsAt])
  | some value =>
    have : Decidable (∃ previous, before = some previous ∧ same value previous = true) :=
      inferInstanceAs (Decidable (∃ previous ∈ before, same value previous = true))
    have : Decidable (∃ found, stored = some found ∧ carries before value found) :=
      inferInstanceAs (Decidable (∃ found ∈ stored, carries before value found))
    inferInstanceAs (Decidable (_ ∨ _))

theorem holdsAll_iff {baseline current stored : Dict Key V} :
    HoldsAll same carries baseline current stored ↔
      ∀ key ∈ current.keys ++ baseline.keys,
        HoldsAt same carries (baseline.lookup key) (current.lookup key) (stored.lookup key) := by
  refine ⟨fun holds key _ => holds key, fun listed key => ?_⟩
  by_cases present : key ∈ current.keys ++ baseline.keys
  · exact listed key present
  · rw [List.mem_append, not_or, mem_keys_iff, mem_keys_iff, not_not, not_not] at present
    rw [present.1, present.2]
    exact .inl rfl

instance [∀ before value found, Decidable (carries before value found)]
    (baseline current stored : Dict Key V) : Decidable (HoldsAll same carries baseline current stored) :=
  decidable_of_iff _ holdsAll_iff.symm

instance decidableCarries : (depth : Nat) → (before : Option (Value Key Atom depth)) →
    (value found : Value Key Atom depth) → Decidable (Carries depth before value found)
  | 0, _, value, found => inferInstanceAs (Decidable (found = value))
  | _ + 1, _, .inl value, .inl found => inferInstanceAs (Decidable (found = value))
  | _ + 1, _, .inl _, .inr _ => inferInstanceAs (Decidable False)
  | _ + 1, _, .inr _, .inl _ => inferInstanceAs (Decidable False)
  | depth + 1, before, .inr value, .inr found =>
    have (before : Option (Value Key Atom depth)) (value found : Value Key Atom depth) :
        Decidable (Carries depth before value found) := decidableCarries depth before value found
    inferInstanceAs (Decidable (HoldsAll (Value.same depth) (Carries depth) (inside before) value found))

instance {depth : Nat} (baseline current stored : Mapping Key Atom depth) :
    Decidable (Holds baseline current stored) :=
  inferInstanceAs (Decidable (HoldsAll (Value.same depth) (Carries depth) baseline current stored))

instance [∀ before value found, Decidable (carries before value found)]
    [∀ before first previous value, Decidable (within before first previous value)]
    (before now before' now' : Option V) : Decidable (SparesAt same carries within before now before' now') :=
  match now' with
  | none => isTrue trivial
  | some value =>
    have : Decidable (∃ previous, before' = some previous ∧ same value previous = true) :=
      inferInstanceAs (Decidable (∃ previous ∈ before', same value previous = true))
    have (first : V) : Decidable (∃ previous, before' = some previous ∧ within before first previous value) :=
      inferInstanceAs (Decidable (∃ previous ∈ before', within before first previous value))
    have : Decidable (∃ first, now = some first ∧
        ∃ previous, before' = some previous ∧ within before first previous value) :=
      inferInstanceAs (Decidable (∃ first ∈ now, ∃ previous, before' = some previous ∧ _))
    inferInstanceAs (Decidable (_ ∨ _ ∨ _))

theorem sparesAll_iff {baseline current baseline' current' : Dict Key V} :
    SparesAll same carries within baseline current baseline' current' ↔
      ∀ key ∈ current'.keys, SparesAt same carries within (baseline.lookup key) (current.lookup key)
        (baseline'.lookup key) (current'.lookup key) := by
  refine ⟨fun spares key _ => spares key, fun listed key => ?_⟩
  by_cases present : key ∈ current'.keys
  · exact listed key present
  · rw [mem_keys_iff, not_not] at present
    rw [present]
    trivial

instance [∀ before value found, Decidable (carries before value found)]
    [∀ before first previous value, Decidable (within before first previous value)]
    (baseline current baseline' current' : Dict Key V) :
    Decidable (SparesAll same carries within baseline current baseline' current') :=
  decidable_of_iff _ sparesAll_iff.symm

instance decidableSparesWithin : (depth : Nat) → (before : Option (Value Key Atom depth)) →
    (first previous value : Value Key Atom depth) → Decidable (SparesWithin depth before first previous value)
  | 0, _, _, _, _ => inferInstanceAs (Decidable False)
  | depth + 1, before, first, previous, value =>
    have (before : Option (Value Key Atom depth)) (first previous value : Value Key Atom depth) :
        Decidable (SparesWithin depth before first previous value) :=
      decidableSparesWithin depth before first previous value
    match first, previous, value with
    | .inr first, .inr previous, .inr value =>
      inferInstanceAs (Decidable (SparesAll _ _ (SparesWithin depth) (inside before) first previous value))
    | .inl _, _, _ => inferInstanceAs (Decidable False)
    | .inr _, .inl _, _ => inferInstanceAs (Decidable False)
    | .inr _, .inr _, .inl _ => inferInstanceAs (Decidable False)

instance {depth : Nat} (baseline current baseline' current' : Mapping Key Atom depth) :
    Decidable (Spares baseline current baseline' current') :=
  inferInstanceAs (Decidable (SparesAll _ _ (SparesWithin depth) baseline current baseline' current'))

end Decidable

section OneLevel

variable {V : Type} {same : V → V → Bool} {carries : Option V → V → V → Prop}
  {nested : V → V → V → Option V} {within : Option V → V → V → V → Prop}

theorem holdsAll_self (reflexive : ∀ before value, carries before value value)
    (baseline current : Dict Key V) : HoldsAll same carries baseline current current := by
  intro key
  cases current.lookup key with
  | none => exact .inr rfl
  | some value => exact .inr ⟨value, rfl, reflexive _ value⟩

theorem holdsAll_own (reflexive : ∀ before value, carries before value value)
    (own : ∀ latest previous value merged, nested latest previous value = some merged →
      carries (some previous) value merged)
    (latest baseline current : Dict Key V) :
    HoldsAll same carries baseline current (mergeItems same nested latest baseline current) := by
  intro key
  rw [mergeItems_lookup]
  cases current.lookup key with
  | none =>
    cases baseline.lookup key with
    | none => exact .inl rfl
    | some previous => exact .inr rfl
  | some value =>
    cases baseline.lookup key with
    | none => exact .inr ⟨value, rfl, reflexive _ value⟩
    | some previous =>
      by_cases equal : same value previous = true
      · exact .inl ⟨previous, rfl, equal⟩
      · simp only [mergedValue, equal]
        refine .inr ⟨_, rfl, ?_⟩
        cases merged : (latest.lookup key).bind fun latest => nested latest previous value with
        | none => exact reflexive _ value
        | some inner =>
          obtain ⟨found, _, result⟩ := Option.bind_eq_some_iff.mp merged
          exact own found previous value inner result

theorem sparesAll_of_holdsAll {baseline current baseline' current' : Dict Key V}
    (holds : HoldsAll same carries baseline current current') :
    SparesAll same carries within baseline current baseline' current' := by
  intro key
  have at_key := holds key
  cases written : current'.lookup key with
  | none => trivial
  | some value =>
    rw [written] at at_key
    exact .inr (.inl at_key)

theorem holdsAt_written {before : Option V} {value found : V}
    (changed : ¬ ∃ previous, before = some previous ∧ same value previous = true) :
    HoldsAt same carries before (some value) (some found) ↔ carries before value found := by
  constructor
  · intro holds
    obtain ⟨other, here, carried⟩ := holds.resolve_left changed
    cases here
    exact carried
  · exact fun carried => .inr ⟨found, rfl, carried⟩

/-- Where the first writer's change is in the store and can stand beside the second's, it survives the
    second's merge exactly when the second spares it. -/
theorem holdsAt_merge_iff
    (both : ∀ before first previous value latest joint, carries before first latest →
      carries before first joint → carries (some previous) value joint →
      (carries before first ((nested latest previous value).getD value) ↔
        carries before first value ∨ within before first previous value))
    {before now before' now' latest joint : Option V} (stored : HoldsAt same carries before now latest)
    (fits : HoldsAt same carries before now joint) (fits' : HoldsAt same carries before' now' joint) :
    HoldsAt same carries before now (mergedValue same nested latest before' now') ↔
      SparesAt same carries within before now before' now' := by
  cases now' with
  | none =>
    refine ⟨fun _ => trivial, fun _ => ?_⟩
    cases before' with
    | none => exact stored
    | some previous =>
      rcases fits' with absent | gone
      · cases absent
      · rw [gone] at fits
        exact fits
  | some value =>
    by_cases unchanged : ∃ previous, before' = some previous ∧ same value previous = true
    · have left_alone := unchanged
      obtain ⟨previous, rfl, equal⟩ := unchanged
      simp only [mergedValue, equal, if_true]
      exact ⟨fun _ => .inl left_alone, fun _ => stored⟩
    obtain ⟨shared, rfl, carried'⟩ := fits'.resolve_left unchanged
    have spares_iff : SparesAt same carries within before now before' (some value) ↔
        HoldsAt same carries before now (some value) ∨
          ∃ first, now = some first ∧ ∃ previous, before' = some previous ∧
            within before first previous value := or_iff_right unchanged
    rw [spares_iff]
    cases before' with
    | none =>
      refine ⟨.inl, fun one => one.resolve_right ?_⟩
      rintro ⟨first, -, previous, here, -⟩
      cases here
    | some previous =>
      have changed : ¬ same value previous = true := fun equal => unchanged ⟨previous, rfl, equal⟩
      simp only [mergedValue, changed]
      cases now with
      | none =>
        have untouched : before = none := fits.resolve_right (by simp)
        exact ⟨fun _ => .inl (.inl untouched), fun _ => .inl untouched⟩
      | some first =>
        by_cases kept : ∃ previous, before = some previous ∧ same first previous = true
        · exact ⟨fun _ => .inl (.inl kept), fun _ => .inl kept⟩
        obtain ⟨found, rfl, carried⟩ := stored.resolve_left kept
        have merged := both before first previous value found shared carried
          ((holdsAt_written kept).mp fits) carried'
        have result : HoldsAt same carries before (some first)
            (some (((some found).bind fun latest => nested latest previous value).getD value)) ↔ _ :=
          (holdsAt_written kept).trans merged
        refine result.trans (or_congr (holdsAt_written kept).symm ?_)
        constructor
        · exact fun deeper => ⟨first, rfl, previous, rfl, deeper⟩
        · rintro ⟨first', here, previous', here', deeper⟩
          cases here
          cases here'
          exact deeper

theorem holdsAll_merge_iff
    (both : ∀ before first previous value latest joint, carries before first latest →
      carries before first joint → carries (some previous) value joint →
      (carries before first ((nested latest previous value).getD value) ↔
        carries before first value ∨ within before first previous value))
    {baseline current baseline' current' latest joint : Dict Key V}
    (stored : HoldsAll same carries baseline current latest)
    (fits : HoldsAll same carries baseline current joint)
    (fits' : HoldsAll same carries baseline' current' joint) :
    HoldsAll same carries baseline current (mergeItems same nested latest baseline' current') ↔
      SparesAll same carries within baseline current baseline' current' := by
  refine forall_congr' fun key => ?_
  rw [mergeItems_lookup]
  exact holdsAt_merge_iff both (stored key) (fits key) (fits' key)

end OneLevel

theorem carries_self : (depth : Nat) → (before : Option (Value Key Atom depth)) →
    (value : Value Key Atom depth) → Carries depth before value value
  | 0, _, _ => rfl
  | _ + 1, _, .inl _ => rfl
  | depth + 1, _, .inr value => holdsAll_self (carries_self depth) _ value

theorem mergeNested_own : (depth : Nat) → (latest previous value merged : Value Key Atom depth) →
    mergeNested depth latest previous value = some merged → Carries depth (some previous) value merged
  | 0, _, _, _, _, found => by cases found
  | depth + 1, latest, previous, value, merged, found => by
    rcases latest with latest | latest
    · cases found
    rcases previous with previous | previous
    · cases found
    rcases value with value | value
    · cases found
    cases found
    exact holdsAll_own (carries_self depth) (mergeNested_own depth) latest previous value

/-- One level down: the merged value carries the first writer's change exactly when the second's value
    does, or the second spares it inside. -/
theorem mergeNested_both : (depth : Nat) → (before : Option (Value Key Atom depth)) →
    (first previous value latest joint : Value Key Atom depth) → Carries depth before first latest →
    Carries depth before first joint → Carries depth (some previous) value joint →
    (Carries depth before first ((mergeNested depth latest previous value).getD value) ↔
      Carries depth before first value ∨ SparesWithin depth before first previous value)
  | 0, _, _, _, _, _, _, _, _, _ => (or_iff_left id).symm
  | depth + 1, before, first, previous, value, latest, joint, stored, fits, fits' => by
    rcases first with first | first
    · have none : ¬ SparesWithin (depth + 1) before (.inl first) previous value := id
      rcases latest with latest | latest
      · exact (or_iff_left none).symm
      · exact False.elim stored
    rcases latest with latest | latest
    · exact False.elim stored
    rcases previous with previous | previous
    · exact (or_iff_left id).symm
    rcases value with value | value
    · exact (or_iff_left id).symm
    rcases joint with joint | joint
    · exact False.elim fits
    have merged : Carries (depth + 1) before (.inr first)
          (.inr (mergeItems (Value.same depth) (mergeNested depth) latest previous value)) ↔
        SparesWithin (depth + 1) before (.inr first) (.inr previous) (.inr value) :=
      holdsAll_merge_iff (mergeNested_both depth) stored fits fits'
    refine merged.trans ⟨.inr, ?_⟩
    rintro (holds | spares)
    · exact sparesAll_of_holdsAll holds
    · exact spares

theorem merge_own {depth : Nat} (latest baseline current : Mapping Key Atom depth) :
    Holds baseline current (mergeMappingChanges latest baseline current) :=
  holdsAll_own (carries_self depth) (mergeNested_own depth) latest baseline current

theorem merge_keeps_iff {depth : Nat} {latest baseline current baseline' current' : Mapping Key Atom depth}
    (stored : Holds baseline current latest) (compatible : Compatible baseline current baseline' current') :
    Holds baseline current (mergeMappingChanges latest baseline' current') ↔
      Spares baseline current baseline' current' := by
  obtain ⟨joint, fits, fits'⟩ := compatible
  exact holdsAll_merge_iff (mergeNested_both depth) stored fits fits'

end Rdst.Persistence
