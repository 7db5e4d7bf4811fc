import Mathlib.Algebra.Order.Ring.Unbundled.Rat
import Mathlib.Algebra.BigOperators.Group.List.Basic
import Rdst.Lib.Assoc
import Rdst.Lib.Run

namespace Rdst.Observation.Delta

open Assoc Machine

inductive Completeness
  | complete
  | counterRegression
  | reinserted
  | absent
  | indeterminate
  | epochChanged
deriving DecidableEq

/-- One row of the engine's statement statistics. -/
structure CounterRow where
  engineKey : String
  calls : Int
  rows : Int
  totalExecTime : ℚ
  meanExecTime : ℚ
  minExecTime : ℚ
  maxExecTime : ℚ
  capturedAt : ℚ
  epochId : String
  statsSince : Option ℚ
  firstSeen : Option ℚ
  minmaxStatsSince : Option ℚ
  blksHit : Int
  blksRead : Int
  tempBlks : Int

structure DeltaResult where
  engineKey : String
  windowStart : ℚ
  windowEnd : ℚ
  completeness : Completeness
  callsDelta : Option Int
  execTimeDelta : Option ℚ
  approximateQps : Option ℚ
  callsTotalAttribution : Int
  isBaseline : Bool

def movedForward (prevValue currValue : Option ℚ) : Bool :=
  prevValue.any fun before => currValue.any fun after => decide (before < after)

def looksReinserted (prev curr : CounterRow) (minmaxReset : Bool) : Bool :=
  let callsDelta := curr.calls - prev.calls
  let timeDelta := curr.totalExecTime - prev.totalExecTime
  if callsDelta = 0 ∧ 0 < timeDelta then true
  else !minmaxReset && decide (prev.minExecTime < curr.minExecTime)

/-- Whether a monotonic counter went backward. -/
def regressed (base row : CounterRow) : Bool :=
  row.calls < base.calls || row.totalExecTime < base.totalExecTime || row.rows < base.rows ||
    row.blksHit < base.blksHit || row.blksRead < base.blksRead

/-- The result of a window that could not be computed. -/
def emitNothing (key : String) (completeness : Completeness) (attribution : Int) (start stop : ℚ) : DeltaResult where
  engineKey := key
  windowStart := start
  windowEnd := stop
  completeness := completeness
  callsDelta := none
  execTimeDelta := none
  approximateQps := none
  callsTotalAttribution := attribution
  isBaseline := false

/-- The body of the loop over the rows; a row has its capture time, as its type says. -/
def processRow (windowStart : ℚ) (resetSuspected : Bool) (base : Option CounterRow) (row : CounterRow) : DeltaResult :=
  match base with
  | none => { emitNothing row.engineKey .complete row.calls windowStart row.capturedAt with isBaseline := true }
  | some base =>
    if base.epochId ≠ row.epochId then
      emitNothing row.engineKey .epochChanged row.calls base.capturedAt row.capturedAt
    else if movedForward base.statsSince row.statsSince = true ∨ movedForward base.firstSeen row.firstSeen = true then
      emitNothing row.engineKey .reinserted row.calls base.capturedAt row.capturedAt
    else if regressed base row = true then
      emitNothing row.engineKey .counterRegression row.calls base.capturedAt row.capturedAt
    else if looksReinserted base row (movedForward base.minmaxStatsSince row.minmaxStatsSince) = true then
      emitNothing row.engineKey .reinserted row.calls base.capturedAt row.capturedAt
    else
      let callsDelta := row.calls - base.calls
      if callsDelta = 0 then
        if resetSuspected = true then emitNothing row.engineKey .indeterminate 0 base.capturedAt row.capturedAt
        else { emitNothing row.engineKey .complete 0 base.capturedAt row.capturedAt with
          callsDelta := some 0, execTimeDelta := some 0, approximateQps := some 0 }
      else { emitNothing row.engineKey .complete callsDelta base.capturedAt row.capturedAt with
        callsDelta := some callsDelta
        execTimeDelta := some (row.totalExecTime - base.totalExecTime)
        approximateQps := some (callsDelta / max (row.capturedAt - base.capturedAt) 1) }

/-- A baseline is a mapping from keys to rows whose entries stand with the newest first. -/
abbrev Baseline := Dict String CounterRow

def processSnapshot (prev : Baseline) (curr : List CounterRow) (windowStart windowEnd : ℚ) (resetSuspected : Bool) :
    List DeltaResult :=
  (curr.map fun row => processRow windowStart resetSuspected (prev.lookup row.engineKey) row) ++
    ((prev.entries.reverse.filter fun item => item.1 ∉ curr.map CounterRow.engineKey).map fun item =>
      emitNothing item.1 .absent 0 windowStart windowEnd)

/-- `popitem(last=False)`. -/
def popOldest (merged : Baseline) : Baseline :=
  ⟨merged.entries.dropLast, List.NodupKeys.sublist (List.dropLast_sublist _) merged.nodupKeys⟩

/-- Put a row last in the order, and drop the first one where the mapping grew too large. -/
def push (maxKeys : Int) (merged : Baseline) (key : String) (row : CounterRow) : Baseline :=
  let merged := merged.insert key row
  if maxKeys < merged.entries.length then popOldest merged else merged

def advanceBaseline (prev : Baseline) (curr : List CounterRow) (staleAfter : ℚ) (maxKeys : Int) : Baseline :=
  if maxKeys ≤ 0 then ∅
  else
    let kept := prev.entries.reverse.foldl (fun merged item => push maxKeys merged item.1 item.2) ∅
    let merged := curr.foldl (fun merged row => push maxKeys merged row.engineKey row) kept
    match (merged.entries.map fun item => item.2.capturedAt).max? with
    | none => merged
    | some newest =>
      ⟨merged.entries.filter fun item => newest - item.2.capturedAt ≤ staleAfter,
        List.NodupKeys.sublist List.filter_sublist merged.nodupKeys⟩

section Baseline

variable {merged prev : Baseline} {curr : List CounterRow} {key : String} {row : CounterRow}

theorem lookup_sublist {entries : List (Sigma fun _ : String => CounterRow)} {nodup : entries.NodupKeys}
    (less : entries.Sublist merged.entries) (found : AList.lookup key ⟨entries, nodup⟩ = some row) :
    merged.lookup key = some row := by
  have member := AList.mem_lookup_iff.mp (show row ∈ AList.lookup key ⟨entries, nodup⟩ from found)
  exact AList.mem_lookup_iff.mpr (less.subset member)

/-- A push leaves the new row, or the old ones where it drops none of them. -/
theorem lookup_push {maxKeys : Int} {new : String} {newRow : CounterRow}
    (found : (push maxKeys merged new newRow).lookup key = some row) :
    (key = new ∧ row = newRow) ∨ (key ≠ new ∧ merged.lookup key = some row) := by
  have inserted : (merged.insert new newRow).lookup key = some row := by
    unfold push at found
    simp only at found
    split at found
    · exact lookup_sublist (List.dropLast_sublist _) found
    · exact found
  rw [insert_lookup] at inserted
  split at inserted
  · rename_i same
    exact .inl ⟨same, (Option.some.inj inserted).symm⟩
  · rename_i other
    exact .inr ⟨other, inserted⟩

theorem lookup_kept {maxKeys : Int} {items : List (Sigma fun _ : String => CounterRow)}
    (known : ∀ item ∈ items, prev.lookup item.1 = some item.2)
    (start : ∀ key row, merged.lookup key = some row → prev.lookup key = some row)
    (found : (items.foldl (fun merged item => push maxKeys merged item.1 item.2) merged).lookup key = some row) :
    prev.lookup key = some row := by
  induction items generalizing merged with
  | nil => exact start key row found
  | cons item rest ih =>
    apply ih (fun other member => known other (List.mem_cons_of_mem item member)) _ found
    intro other otherRow here
    rcases lookup_push here with ⟨rfl, rfl⟩ | ⟨-, before⟩
    · exact known item List.mem_cons_self
    · exact start other otherRow before

theorem lookup_observed {maxKeys : Int}
    (found : (curr.foldl (fun merged row => push maxKeys merged row.engineKey row) merged).lookup key = some row) :
    (row ∈ curr ∧ row.engineKey = key) ∨ (key ∉ curr.map CounterRow.engineKey ∧ merged.lookup key = some row) := by
  induction curr generalizing merged with
  | nil => exact .inr ⟨by simp, found⟩
  | cons first rest ih =>
    rcases ih found with ⟨member, same⟩ | ⟨absent, before⟩
    · exact .inl ⟨List.mem_cons_of_mem first member, same⟩
    · rcases lookup_push before with ⟨rfl, rfl⟩ | ⟨other, earlier⟩
      · exact .inl ⟨List.mem_cons_self, rfl⟩
      · exact .inr ⟨by simp [other, absent], earlier⟩

/-- A row of the next baseline was just observed, or is the old one of a key that was not. -/
theorem lookup_advanceBaseline {staleAfter : ℚ} {maxKeys : Int}
    (found : (advanceBaseline prev curr staleAfter maxKeys).lookup key = some row) :
    (row ∈ curr ∧ row.engineKey = key) ∨ (key ∉ curr.map CounterRow.engineKey ∧ prev.lookup key = some row) := by
  unfold advanceBaseline at found
  split at found
  · cases found
  · simp only at found
    have merged : (curr.foldl (fun merged row => push maxKeys merged row.engineKey row)
        (prev.entries.reverse.foldl (fun merged item => push maxKeys merged item.1 item.2) ∅)).lookup key =
          some row := by
      split at found
      · exact found
      · exact lookup_sublist List.filter_sublist found
    rcases lookup_observed merged with observed | ⟨absent, kept⟩
    · exact .inl observed
    · have known : ∀ item ∈ prev.entries.reverse, prev.lookup item.1 = some item.2 := by
        intro item member
        exact AList.mem_lookup_iff.mpr (List.mem_reverse.mp member)
      exact .inr ⟨absent, lookup_kept known (by simp) kept⟩

end Baseline

section Calls

variable {key : String} {row : CounterRow} {curr : List CounterRow}

/-- What a result attributes to a key as the calls of a complete window. -/
def DeltaResult.attributed (key : String) (result : DeltaResult) : Int :=
  if result.engineKey = key ∧ result.completeness = .complete then result.callsDelta.getD 0 else 0

/-- The sum over all complete windows. -/
def attributedCalls (key : String) (results : List DeltaResult) : Int :=
  (results.map (DeltaResult.attributed key)).sum

theorem attributedCalls_append (key : String) (first second : List DeltaResult) :
    attributedCalls key (first ++ second) = attributedCalls key first + attributedCalls key second := by
  simp [attributedCalls]

theorem attributedCalls_nothing {results : List DeltaResult} (none : ∀ result ∈ results, result.attributed key = 0) :
    attributedCalls key results = 0 := by
  induction results with
  | nil => rfl
  | cons result rest ih =>
    have first := none result List.mem_cons_self
    have others := ih fun other member => none other (List.mem_cons_of_mem result member)
    rw [attributedCalls] at others ⊢
    rw [List.map_cons, List.sum_cons, first, others]
    rfl

/-- A window has no calls, or the growth of the counter since a baseline of the same epoch. -/
theorem processRow_calls (start : ℚ) (resetSuspected : Bool) (base : Option CounterRow) (row : CounterRow) :
    (processRow start resetSuspected base row).callsDelta.getD 0 = 0 ∨
      ∃ old, base = some old ∧ old.epochId = row.epochId ∧
        (processRow start resetSuspected base row).callsDelta.getD 0 = row.calls - old.calls := by
  cases base with
  | none => exact .inl rfl
  | some old =>
    unfold processRow
    simp only
    split
    · exact .inl rfl
    rename_i same
    split
    · exact .inl rfl
    split
    · exact .inl rfl
    split
    · exact .inl rfl
    split
    · left
      split <;> rfl
    · right
      exact ⟨old, rfl, by simpa using same, rfl⟩

theorem processRow_key (start : ℚ) (resetSuspected : Bool) (base : Option CounterRow) (row : CounterRow) :
    (processRow start resetSuspected base row).engineKey = row.engineKey := by
  unfold processRow
  cases base with
  | none => rfl
  | some old =>
    simp only
    split
    · rfl
    split
    · rfl
    split
    · rfl
    split
    · rfl
    split
    · split <;> rfl
    · rfl

/-- A window with calls reaches from the capture of the baseline on, and its calls are the growth since. -/
theorem processRow_window {start : ℚ} {resetSuspected : Bool} {base : Option CounterRow} {row : CounterRow} {calls : Int}
    (counted : (processRow start resetSuspected base row).callsDelta = some calls) :
    0 ≤ calls ∧ ∃ old, base = some old ∧
      (processRow start resetSuspected base row).windowStart = old.capturedAt := by
  cases base with
  | none => cases counted
  | some old =>
    unfold processRow at counted ⊢
    simp only at counted ⊢
    split at counted
    · cases counted
    rename_i sameEpoch
    split at counted
    · cases counted
    rename_i notMoved
    split at counted
    · cases counted
    rename_i forward
    split at counted
    · cases counted
    rename_i lives
    have grown : old.calls ≤ row.calls := by
      by_contra less
      exact forward (by simp [regressed, not_le.mp less])
    rw [if_neg sameEpoch, if_neg notMoved, if_neg forward, if_neg lives]
    split at counted
    · rename_i idle
      split at counted
      · cases counted
      · rename_i quiet
        rw [if_pos idle, if_neg quiet]
        exact ⟨(Option.some.inj counted).le, old, rfl, rfl⟩
    · rename_i busy
      rw [if_neg busy]
      have same := Option.some.inj counted
      exact ⟨by omega, old, rfl, rfl⟩

/-- Only an observed row has a window with calls. -/
theorem processSnapshot_window {prev : Baseline} {start stop : ℚ} {resetSuspected : Bool} {result : DeltaResult}
    {calls : Int} (member : result ∈ processSnapshot prev curr start stop resetSuspected)
    (counted : result.callsDelta = some calls) :
    0 ≤ calls ∧ ∃ row ∈ curr, result.engineKey = row.engineKey ∧ ∃ old, prev.lookup row.engineKey = some old ∧
      result.windowStart = old.capturedAt := by
  rcases List.mem_append.mp member with observed | absent
  · obtain ⟨row, there, rfl⟩ := List.mem_map.mp observed
    obtain ⟨grown, old, base, opened⟩ := processRow_window counted
    exact ⟨grown, row, there, processRow_key start resetSuspected _ row, old, base, opened⟩
  · obtain ⟨item, -, rfl⟩ := List.mem_map.mp absent
    cases counted

theorem attributed_other {result : DeltaResult} (other : result.engineKey ≠ key) : result.attributed key = 0 := by
  rw [DeltaResult.attributed, if_neg]
  exact fun both => other both.1

theorem attributed_cases (key : String) (result : DeltaResult) :
    result.attributed key = 0 ∨ (result.engineKey = key ∧ result.attributed key = result.callsDelta.getD 0) := by
  unfold DeltaResult.attributed
  split
  · rename_i both
    exact .inr ⟨both.1, rfl⟩
  · exact .inl rfl

/-- Rows of different keys attribute to a key what one of them does. -/
theorem attributedCalls_rows {process : CounterRow → DeltaResult} (keyed : ∀ row, (process row).engineKey = row.engineKey)
    (distinct : (curr.map CounterRow.engineKey).Nodup) (key : String) :
    attributedCalls key (curr.map process) = 0 ∨
      ∃ row ∈ curr, row.engineKey = key ∧ attributedCalls key (curr.map process) = (process row).callsDelta.getD 0 := by
  induction curr with
  | nil => exact .inl rfl
  | cons row rest ih =>
    obtain ⟨apart, distinct⟩ := List.nodup_cons.mp distinct
    have split : attributedCalls key ((row :: rest).map process) =
        (process row).attributed key + attributedCalls key (rest.map process) := by
      simp [attributedCalls]
    rw [split]
    by_cases same : row.engineKey = key
    · have others : attributedCalls key (rest.map process) = 0 := by
        apply attributedCalls_nothing
        intro result member
        obtain ⟨other, inside, rfl⟩ := List.mem_map.mp member
        apply attributed_other
        rw [keyed]
        intro again
        exact apart (List.mem_map.mpr ⟨other, inside, again.trans same.symm⟩)
      rw [others, add_zero]
      rcases attributed_cases key (process row) with nothing | ⟨-, calls⟩
      · exact .inl nothing
      · exact .inr ⟨row, List.mem_cons_self, same, calls⟩
    · rw [attributed_other (by rwa [keyed]), zero_add]
      rcases ih distinct with nothing | ⟨found, member, calls⟩
      · exact .inl nothing
      · exact .inr ⟨found, List.mem_cons_of_mem row member, calls⟩

theorem processSnapshot_calls (prev : Baseline) (start stop : ℚ) (resetSuspected : Bool)
    (distinct : (curr.map CounterRow.engineKey).Nodup) (key : String) :
    attributedCalls key (processSnapshot prev curr start stop resetSuspected) = 0 ∨
      ∃ row ∈ curr, row.engineKey = key ∧ ∃ old, prev.lookup key = some old ∧ old.epochId = row.epochId ∧
        attributedCalls key (processSnapshot prev curr start stop resetSuspected) = row.calls - old.calls := by
  have absent : attributedCalls key ((prev.entries.reverse.filter fun item =>
      item.1 ∉ curr.map CounterRow.engineKey).map fun item => emitNothing item.1 .absent 0 start stop) = 0 := by
    apply attributedCalls_nothing
    intro result member
    obtain ⟨item, -, rfl⟩ := List.mem_map.mp member
    rcases attributed_cases key (emitNothing item.1 .absent 0 start stop) with nothing | ⟨-, calls⟩
    · exact nothing
    · exact calls
  rw [processSnapshot, attributedCalls_append, absent, add_zero]
  rcases attributedCalls_rows (fun row => processRow_key start resetSuspected (prev.lookup row.engineKey) row) distinct
    key with nothing | ⟨row, member, same, calls⟩
  · exact .inl nothing
  · rcases processRow_calls start resetSuspected (prev.lookup row.engineKey) row with none | ⟨old, base, epoch, grown⟩
    · exact .inl (calls.trans none)
    · exact .inr ⟨row, member, same, old, same ▸ base, epoch, calls.trans grown⟩

end Calls

section Lane

/-- The rows of one poll, one a statement: the engine's statistics are keyed by the statement. -/
structure Reading where
  rows : List CounterRow
  distinct : (rows.map CounterRow.engineKey).Nodup

/-- The engine's counters with the executions that really took place, and the collector's baseline. -/
structure Lane where
  counters : String → Nat
  epoch : Nat
  executions : String → Nat
  baseline : Baseline

inductive EngineEvent
  | executed (key : String)
  /-- Statements were reset, or evicted; one that comes back starts anew. -/
  | reset (keys : List String)
  /-- Another start of the engine, or another engine, with whatever counters it has. -/
  | epochChanged (counters : String → Nat)
  /-- A poll reads some of the statements. -/
  | polled (reading : Reading) (windowStart windowEnd : ℚ) (resetSuspected : Bool) (staleAfter : ℚ) (maxKeys : Int)

/-- What the engine answers to a poll: its own counters, under its own epoch. -/
def Lane.answer (epochId : Nat → String) (lane : Lane) (reading : Reading) : List CounterRow :=
  reading.rows.map fun row => { row with calls := lane.counters row.engineKey, epochId := epochId lane.epoch }

def laneStep (epochId : Nat → String) (lane : Lane) : EngineEvent → Lane × List DeltaResult
  | .executed key =>
    ({ lane with
        counters := fun other => lane.counters other + if other = key then 1 else 0
        executions := fun other => lane.executions other + if other = key then 1 else 0 }, [])
  | .reset keys => ({ lane with counters := fun other => if other ∈ keys then 0 else lane.counters other }, [])
  | .epochChanged counters => ({ lane with counters := counters, epoch := lane.epoch + 1 }, [])
  | .polled reading windowStart windowEnd resetSuspected staleAfter maxKeys =>
    let curr := lane.answer epochId reading
    ({ lane with baseline := advanceBaseline lane.baseline curr staleAfter maxKeys },
      processSnapshot lane.baseline curr windowStart windowEnd resetSuspected)

variable {epochId : Nat → String} {lane : Lane} {trace : List DeltaResult}

/-- What was attributed was executed; and what a baseline of this epoch can still give is not more than what was
    executed since. -/
structure NeverOver (epochId : Nat → String) (lane : Lane) (trace : List DeltaResult) : Prop where
  attributed : ∀ key, attributedCalls key trace ≤ lane.executions key
  growth : ∀ key row, lane.baseline.lookup key = some row → row.epochId = epochId lane.epoch →
    attributedCalls key trace + lane.counters key ≤ lane.executions key + row.calls
  known : ∀ key row, lane.baseline.lookup key = some row → ∃ epoch ≤ lane.epoch, row.epochId = epochId epoch ∧
    0 ≤ row.calls

theorem step_neverOver (distinct : Function.Injective epochId) (event : EngineEvent)
    (inv : NeverOver epochId lane trace) :
    NeverOver epochId (laneStep epochId lane event).1 (trace ++ (laneStep epochId lane event).2) := by
  cases event with
  | executed key =>
    rw [show (laneStep epochId lane (.executed key)).2 = [] from rfl, List.append_nil]
    refine ⟨?_, ?_, inv.known⟩
    · intro other
      have before := inv.attributed other
      simp only [laneStep]
      push_cast
      split <;> omega
    · intro other row found current
      have before := inv.growth other row found current
      simp only [laneStep]
      push_cast
      omega
  | reset keys =>
    rw [show (laneStep epochId lane (.reset keys)).2 = [] from rfl, List.append_nil]
    refine ⟨inv.attributed, ?_, inv.known⟩
    intro key row found current
    have before := inv.growth key row found current
    have already := inv.attributed key
    obtain ⟨-, -, -, counted⟩ := inv.known key row found
    simp only [laneStep]
    split
    · push_cast
      omega
    · exact before
  | epochChanged counters =>
    rw [show (laneStep epochId lane (.epochChanged counters)).2 = [] from rfl, List.append_nil]
    refine ⟨inv.attributed, ?_, ?_⟩
    · intro key row found current
      obtain ⟨epoch, old, same, -⟩ := inv.known key row found
      rw [same] at current
      have later : epoch = lane.epoch + 1 := distinct current
      omega
    · intro key row found
      obtain ⟨epoch, old, same⟩ := inv.known key row found
      exact ⟨epoch, Nat.le_succ_of_le old, same⟩
  | polled reading windowStart windowEnd resetSuspected staleAfter maxKeys =>
    have keys : (lane.answer epochId reading).map CounterRow.engineKey = reading.rows.map CounterRow.engineKey := by
      simp only [Lane.answer, List.map_map, Function.comp_def]
    have own : ∀ row ∈ lane.answer epochId reading,
        row.calls = lane.counters row.engineKey ∧ row.epochId = epochId lane.epoch := by
      intro row member
      obtain ⟨_, -, rfl⟩ := List.mem_map.mp member
      exact ⟨rfl, rfl⟩
    have window := processSnapshot_calls lane.baseline windowStart windowEnd resetSuspected
      (keys ▸ reading.distinct : ((lane.answer epochId reading).map CounterRow.engineKey).Nodup)
    have attributed : ∀ key, attributedCalls key (trace ++ processSnapshot lane.baseline (lane.answer epochId reading)
        windowStart windowEnd resetSuspected) ≤ lane.executions key := by
      intro key
      have before := inv.attributed key
      rw [attributedCalls_append]
      rcases window key with nothing | ⟨row, member, same, old, base, epoch, calls⟩
      · omega
      · obtain ⟨counter, current⟩ := own row member
        have room := inv.growth key old base (epoch.trans current)
        rw [same] at counter
        omega
    refine ⟨attributed, ?_, ?_⟩
    · intro key row found current
      rcases lookup_advanceBaseline found with ⟨member, same⟩ | ⟨absent, before⟩
      · have counter := (own row member).1
        have already := attributed key
        rw [same] at counter
        simp only [laneStep]
        omega
      · have room := inv.growth key row before current
        have nothing : attributedCalls key (processSnapshot lane.baseline (lane.answer epochId reading) windowStart
            windowEnd resetSuspected) = 0 := by
          rcases window key with nothing | ⟨row', member, same, -⟩
          · exact nothing
          · exact absurd (List.mem_map.mpr ⟨row', member, same⟩) absent
        simp only [laneStep, attributedCalls_append]
        omega
    · intro key row found
      rcases lookup_advanceBaseline found with ⟨member, -⟩ | ⟨-, before⟩
      · obtain ⟨counter, current⟩ := own row member
        exact ⟨lane.epoch, Nat.le_refl _, current, by omega⟩
      · exact inv.known key row before

/-- Whatever the engine and the polls do, no more calls are attributed to a statement than were executed. -/
theorem never_over_counts (epochId : Nat → String) (distinct : Function.Injective epochId) (counters : String → Nat)
    (events : List EngineEvent) (key : String) :
    attributedCalls key (exec (laneStep epochId) ⟨counters, 0, fun _ => 0, ∅⟩ events).2 ≤
      (exec (laneStep epochId) ⟨counters, 0, fun _ => 0, ∅⟩ events).1.executions key := by
  have step : ∀ (lane : Lane) (trace : List DeltaResult) (event : EngineEvent), True → NeverOver epochId lane trace →
      NeverOver epochId (laneStep epochId lane event).1 (trace ++ (laneStep epochId lane event).2) :=
    fun lane trace event _ inv => step_neverOver distinct event inv
  have start : NeverOver epochId ⟨counters, 0, fun _ => 0, ∅⟩ [] :=
    ⟨by simp [attributedCalls], by simp, by simp⟩
  exact (exec_invariant (NeverOver epochId) (fun _ _ => True) step _ events (everyStep_trivial _ _) start).attributed key

/-- A name for each start of the engine. -/
def marks (epoch : Nat) : String := String.ofList (List.replicate epoch 'x')

theorem marks_injective : Function.Injective marks := by
  intro first second same
  have lists := congrArg String.toList same
  simpa [marks] using congrArg List.length lists

def oneStatement : Reading where
  rows := [⟨"a", 0, 0, 0, 0, 0, 0, 0, "", none, none, none, 0, 0, 0⟩]
  distinct := by decide

/-- Between the first two polls the statement runs three times and is reset in between. -/
def resetBetween : List EngineEvent :=
  [.polled oneStatement 0 0 false 3600 10, .executed "a", .executed "a", .reset ["a"], .executed "a",
    .polled oneStatement 0 60 false 3600 10, .executed "a", .polled oneStatement 60 120 false 3600 10]

theorem never_over_counts_resetBetween :
    attributedCalls "a" (exec (laneStep marks) ⟨fun _ => 0, 0, fun _ => 0, ∅⟩ resetBetween).2 ≤
      (exec (laneStep marks) ⟨fun _ => 0, 0, fun _ => 0, ∅⟩ resetBetween).1.executions "a" :=
  never_over_counts marks marks_injective (fun _ => 0) resetBetween "a"

example : attributedCalls "a" (exec (laneStep marks) ⟨fun _ => 0, 0, fun _ => 0, ∅⟩ resetBetween).2 = 2 := by
  decide +kernel

end Lane

end Rdst.Observation.Delta
