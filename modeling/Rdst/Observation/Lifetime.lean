import Rdst.Observation.Delta

namespace Rdst.Observation.Delta

open Assoc Machine

section Attribution

/-- Whether a row is attributed its whole counter: it has no baseline of its epoch, or is taken for one that started
anew. -/
def countsWhole (base : Option CounterRow) (row : CounterRow) : Bool :=
  match base with
  | none => true
  | some base =>
    decide (base.epochId ≠ row.epochId) || movedForward base.statsSince row.statsSince ||
      movedForward base.firstSeen row.firstSeen || regressed base row ||
      looksReinserted base row (movedForward base.minmaxStatsSince row.minmaxStatsSince)

theorem attribution_whole {start : ℚ} {resetSuspected : Bool} {base : Option CounterRow} {row : CounterRow}
    (whole : countsWhole base row = true) :
    (processRow start resetSuspected base row).callsTotalAttribution = row.calls := by
  cases base with
  | none => rfl
  | some old =>
    simp only [countsWhole, Bool.or_eq_true, decide_eq_true_eq] at whole
    unfold processRow
    simp only
    split
    · rfl
    split
    · rfl
    split
    · rfl
    split
    · rfl
    rename_i sameEpoch notMoved forward lives
    rcases whole with (((epoch | since) | seen) | back) | anew
    · exact absurd epoch sameEpoch
    · exact absurd (.inl since) notMoved
    · exact absurd (.inr seen) notMoved
    · exact absurd back forward
    · exact absurd anew lives

/-- The others are attributed what the counter grew by. -/
theorem attribution_growth (start : ℚ) (resetSuspected : Bool) {base : Option CounterRow} {row : CounterRow}
    (grows : countsWhole base row = false) : ∃ old, base = some old ∧ old.epochId = row.epochId ∧
      (processRow start resetSuspected base row).callsTotalAttribution = row.calls - old.calls := by
  cases base with
  | none => cases grows
  | some old =>
    simp only [countsWhole, Bool.or_eq_false_iff, decide_eq_false_iff_not, not_not] at grows
    obtain ⟨⟨⟨⟨epoch, since⟩, seen⟩, forward⟩, lives⟩ := grows
    refine ⟨old, rfl, epoch, ?_⟩
    unfold processRow
    simp only
    rw [if_neg (not_not.mpr epoch), if_neg (by simp [since, seen]), if_neg (by simp [forward]), if_neg (by simp [lives])]
    split
    · rename_i idle
      split <;> exact idle.symm
    · rfl

/-- The sum of what results attribute to a key. -/
def lifetimeAttribution (key : String) (results : List DeltaResult) : Int :=
  ((results.filter fun result => result.engineKey = key).map DeltaResult.callsTotalAttribution).sum

theorem lifetimeAttribution_append (key : String) (first second : List DeltaResult) :
    lifetimeAttribution key (first ++ second) = lifetimeAttribution key first + lifetimeAttribution key second := by
  simp [lifetimeAttribution]

variable {curr : List CounterRow} {process : CounterRow → DeltaResult} {key : String}

theorem lifetimeAttribution_unread (keyed : ∀ row, (process row).engineKey = row.engineKey)
    (unread : ∀ row ∈ curr, row.engineKey ≠ key) : lifetimeAttribution key (curr.map process) = 0 := by
  have none : (curr.map process).filter (fun result => result.engineKey = key) = [] := by
    rw [List.filter_eq_nil_iff]
    intro result member
    obtain ⟨row, inside, rfl⟩ := List.mem_map.mp member
    rw [keyed]
    simpa using unread row inside
  rw [lifetimeAttribution, none]
  rfl

theorem lifetimeAttribution_read (keyed : ∀ row, (process row).engineKey = row.engineKey)
    (distinct : (curr.map CounterRow.engineKey).Nodup) {row : CounterRow} (member : row ∈ curr) :
    lifetimeAttribution row.engineKey (curr.map process) = (process row).callsTotalAttribution := by
  obtain ⟨front, back, rfl⟩ := List.append_of_mem member
  rw [List.map_append, List.map_cons] at distinct
  have apart := List.nodup_append.mp distinct
  have before : ∀ other ∈ front, other.engineKey ≠ row.engineKey := fun other inside =>
    apart.2.2 other.engineKey (List.mem_map_of_mem inside) row.engineKey List.mem_cons_self
  have behind : ∀ other ∈ back, other.engineKey ≠ row.engineKey := by
    intro other inside same
    exact (List.nodup_cons.mp apart.2.1).1 (same ▸ List.mem_map_of_mem inside)
  rw [List.map_append, List.map_cons, lifetimeAttribution_append, lifetimeAttribution_unread keyed before, zero_add,
    ← List.singleton_append, lifetimeAttribution_append, lifetimeAttribution_unread keyed behind, add_zero]
  simp [lifetimeAttribution, keyed]

theorem lifetimeAttribution_absent {keys : List String} {start stop : ℚ} (entries : List (Sigma fun _ : String => CounterRow)) :
    lifetimeAttribution key ((entries.filter fun item => item.1 ∉ keys).map fun item =>
      emitNothing item.1 .absent 0 start stop) = 0 := by
  have zero : ∀ results : List DeltaResult, (∀ result ∈ results, result.callsTotalAttribution = 0) →
      lifetimeAttribution key results = 0 := by
    intro results none
    apply List.sum_eq_zero
    intro calls member
    obtain ⟨result, inside, rfl⟩ := List.mem_map.mp member
    exact none result (List.mem_of_mem_filter inside)
  apply zero
  intro result member
  obtain ⟨item, -, rfl⟩ := List.mem_map.mp member
  rfl

end Attribution

section Ledger

/-- A lane with what the engine counted in this epoch, what was last read of every counter since it started, and what was
attributed in this epoch. -/
structure Ledger where
  lane : Lane
  lifetime : String → Nat
  lastRead : String → Nat
  attributed : String → Int

def Ledger.step (epochId : Nat → String) (ledger : Ledger) (event : EngineEvent) : Ledger :=
  let next := laneStep epochId ledger.lane event
  match event with
  | .executed key =>
    { ledger with
      lane := next.1
      lifetime := fun other => ledger.lifetime other + if other = key then 1 else 0 }
  | .reset keys => { ledger with lane := next.1, lastRead := fun key => if key ∈ keys then 0 else ledger.lastRead key }
  | .epochChanged counters => ⟨next.1, counters, fun _ => 0, fun _ => 0⟩
  | .polled reading .. =>
    { ledger with
      lane := next.1
      lastRead := fun key => if key ∈ reading.rows.map CounterRow.engineKey then ledger.lane.counters key else ledger.lastRead key
      attributed := fun key => ledger.attributed key + lifetimeAttribution key next.2 }

def Ledger.start (counters : String → Nat) : Ledger := ⟨⟨counters, 0, fun _ => 0, ∅⟩, counters, fun _ => 0, fun _ => 0⟩

/-- A poll attributes a whole counter only where nothing of that counter was read before. -/
def Unread (epochId : Nat → String) (ledger : Ledger) : EngineEvent → Prop
  | .polled reading .. =>
    ∀ row ∈ ledger.lane.answer epochId reading,
      countsWhole (ledger.lane.baseline.lookup row.engineKey) row = true → ledger.lastRead row.engineKey = 0
  | _ => True

instance (epochId : Nat → String) (ledger : Ledger) (event : EngineEvent) : Decidable (Unread epochId ledger event) :=
  match event with
  | .polled reading .. => inferInstanceAs (Decidable (∀ row ∈ ledger.lane.answer epochId reading, _))
  | .executed _ | .reset _ | .epochChanged _ => inferInstanceAs (Decidable True)

/-- What was not read of a counter is still to be attributed. -/
structure Covered (epochId : Nat → String) (ledger : Ledger) : Prop where
  room : ∀ key, ledger.attributed key + ledger.lane.counters key ≤ ledger.lifetime key + ledger.lastRead key
  within : ∀ key, ledger.lastRead key ≤ ledger.lane.counters key
  based : ∀ key row, ledger.lane.baseline.lookup key = some row → row.epochId = epochId ledger.lane.epoch →
    ledger.lastRead key ≤ row.calls
  known : ∀ key row, ledger.lane.baseline.lookup key = some row → ∃ epoch ≤ ledger.lane.epoch,
    row.epochId = epochId epoch ∧ 0 ≤ row.calls

variable {epochId : Nat → String} {ledger : Ledger}

theorem Covered.attributed_le (covered : Covered epochId ledger) (key : String) :
    ledger.attributed key ≤ ledger.lifetime key := by
  have room := covered.room key
  have within := covered.within key
  omega

theorem covered_start (counters : String → Nat) : Covered epochId (Ledger.start counters) where
  room key := by simp [Ledger.start]
  within key := by simp [Ledger.start]
  based key row found := by cases found
  known key row found := by cases found

/-- What a poll attributes to a key leaves room for what was read. -/
theorem Covered.attribution (covered : Covered epochId ledger) {reading : Reading} (start stop : ℚ)
    (resetSuspected : Bool) (unread : ∀ row ∈ ledger.lane.answer epochId reading,
      countsWhole (ledger.lane.baseline.lookup row.engineKey) row = true → ledger.lastRead row.engineKey = 0)
    (key : String) :
    lifetimeAttribution key (processSnapshot ledger.lane.baseline (ledger.lane.answer epochId reading) start stop
      resetSuspected) ≤
        if key ∈ reading.rows.map CounterRow.engineKey then (ledger.lane.counters key : Int) - ledger.lastRead key else 0 := by
  have keyed : ∀ row, (processRow start resetSuspected (ledger.lane.baseline.lookup row.engineKey) row).engineKey =
      row.engineKey := fun row => processRow_key start resetSuspected _ row
  have keys : (ledger.lane.answer epochId reading).map CounterRow.engineKey = reading.rows.map CounterRow.engineKey := by
    simp only [Lane.answer, List.map_map, Function.comp_def]
  rw [processSnapshot, lifetimeAttribution_append, lifetimeAttribution_absent, add_zero]
  by_cases read : key ∈ reading.rows.map CounterRow.engineKey
  · rw [if_pos read]
    rw [← keys] at read
    obtain ⟨row, member, rfl⟩ := List.mem_map.mp read
    have own : row.calls = ledger.lane.counters row.engineKey ∧ row.epochId = epochId ledger.lane.epoch := by
      obtain ⟨_, -, rfl⟩ := List.mem_map.mp member
      exact ⟨rfl, rfl⟩
    rw [lifetimeAttribution_read keyed (keys ▸ reading.distinct) member]
    cases whole : countsWhole (ledger.lane.baseline.lookup row.engineKey) row with
    | true =>
      have nothing := unread row member whole
      rw [attribution_whole whole, own.1, nothing]
      omega
    | false =>
      obtain ⟨old, base, epoch, grown⟩ := attribution_growth start resetSuspected whole
      have based := covered.based row.engineKey old base (epoch.trans own.2)
      rw [grown, own.1]
      omega
  · rw [if_neg read]
    apply le_of_eq
    apply lifetimeAttribution_unread keyed
    intro row member same
    exact read (keys ▸ same ▸ List.mem_map_of_mem member)

theorem Covered.step (distinct : Function.Injective epochId) (event : EngineEvent) (unread : Unread epochId ledger event)
    (covered : Covered epochId ledger) : Covered epochId (ledger.step epochId event) := by
  cases event with
  | executed key =>
    constructor
    case room =>
      intro other
      have before := covered.room other
      simp only [Ledger.step, laneStep]
      push_cast
      omega
    case within =>
      intro other
      have before := covered.within other
      simp only [Ledger.step, laneStep]
      omega
    case based => exact covered.based
    case known => exact covered.known
  | reset keys =>
    constructor
    case room =>
      intro key
      have before := covered.room key
      have within := covered.within key
      simp only [Ledger.step, laneStep]
      split
      · push_cast
        omega
      · exact before
    case within =>
      intro key
      simp only [Ledger.step, laneStep]
      split
      · exact Nat.le_refl 0
      · exact covered.within key
    case based =>
      intro key row found current
      have before := covered.based key row found current
      obtain ⟨-, -, -, counted⟩ := covered.known key row found
      simp only [Ledger.step]
      split
      · exact counted
      · exact before
    case known => exact covered.known
  | epochChanged counters =>
    constructor
    case room =>
      intro key
      simp [Ledger.step, laneStep]
    case within => exact fun key => Nat.zero_le _
    case based =>
      intro key row found current
      obtain ⟨epoch, old, same, -⟩ := covered.known key row found
      rw [same] at current
      have later : epoch = ledger.lane.epoch + 1 := distinct current
      omega
    case known =>
      intro key row found
      obtain ⟨epoch, old, same⟩ := covered.known key row found
      exact ⟨epoch, Nat.le_succ_of_le old, same⟩
  | polled reading start stop resetSuspected staleAfter maxKeys =>
    constructor
    case room =>
      intro key
      have before := covered.room key
      have attributed := covered.attribution start stop resetSuspected unread key
      simp only [Ledger.step, laneStep]
      by_cases read : key ∈ reading.rows.map CounterRow.engineKey
      · rw [if_pos read] at attributed ⊢
        omega
      · rw [if_neg read] at attributed ⊢
        omega
    case within =>
      intro key
      simp only [Ledger.step, laneStep]
      split
      · exact Nat.le_refl _
      · exact covered.within key
    case based =>
      intro key row found current
      simp only [Ledger.step]
      rcases lookup_advanceBaseline found with ⟨member, rfl⟩ | ⟨absent, before⟩
      · obtain ⟨answered, inside, rfl⟩ := List.mem_map.mp member
        rw [if_pos (List.mem_map_of_mem inside)]
      · have unread' : key ∉ reading.rows.map CounterRow.engineKey := by
          simpa only [Lane.answer, List.map_map, Function.comp_def] using absent
        rw [if_neg unread']
        exact covered.based key row before current
    case known =>
      intro key row found
      rcases lookup_advanceBaseline found with ⟨member, -⟩ | ⟨-, before⟩
      · obtain ⟨_, -, rfl⟩ := List.mem_map.mp member
        exact ⟨ledger.lane.epoch, Nat.le_refl _, rfl, Int.natCast_nonneg _⟩
      · exact covered.known key row before

/-- In every run whose polls attribute a whole counter only where nothing of it was read before, no key is attributed more
than the engine counted of it in its epoch. -/
theorem lifetime_never_exceeded (epochId : Nat → String) (distinct : Function.Injective epochId) (counters : String → Nat)
    (events : List EngineEvent) (unread : EveryTurn (Ledger.step epochId) (Unread epochId) (Ledger.start counters) events)
    (key : String) :
    (events.foldl (Ledger.step epochId) (Ledger.start counters)).attributed key ≤
      (events.foldl (Ledger.step epochId) (Ledger.start counters)).lifetime key := by
  have covered : Covered epochId (events.foldl (Ledger.step epochId) (Ledger.start counters)) :=
    foldl_invariant (Covered epochId) (fun ledger event _ unread covered => covered.step distinct event unread) unread
      (covered_start counters)
  exact covered.attributed_le key

theorem lifetime_never_exceeded_resetBetween :
    (resetBetween.foldl (Ledger.step marks) (Ledger.start fun _ => 0)).attributed "a" ≤
      (resetBetween.foldl (Ledger.step marks) (Ledger.start fun _ => 0)).lifetime "a" :=
  lifetime_never_exceeded marks marks_injective (fun _ => 0) resetBetween (by decide +kernel) "a"

/-- A poll that reads one statement. -/
def readAt (maxKeys : Int) (key : String) (capturedAt : ℚ) : EngineEvent :=
  .polled ⟨[⟨key, 0, 0, 0, 0, 0, 0, capturedAt, "", none, none, none, 0, 0, 0⟩], by simp⟩ 0 capturedAt false 3600 maxKeys

/-- One statement that no poll reads for more than an hour. -/
def expired : Ledger :=
  [readAt 10 "a" 0, readAt 10 "b" 4000, readAt 10 "a" 4100].foldl (Ledger.step marks) (Ledger.start fun _ => 10)

/-- One whose baseline makes room for another's. -/
def dropped : Ledger :=
  [readAt 1 "a" 0, readAt 1 "b" 60, readAt 1 "a" 120].foldl (Ledger.step marks) (Ledger.start fun _ => 10)

theorem read_again_counted_twice :
    (expired.attributed "a" = 20 ∧ expired.lifetime "a" = 10) ∧
      dropped.attributed "a" = 20 ∧ dropped.lifetime "a" = 10 := by
  decide +kernel

end Ledger

end Rdst.Observation.Delta
