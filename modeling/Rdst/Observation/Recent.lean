import Rdst.Observation.Delta

namespace Rdst.Observation.SelfTraffic

open Assoc Delta

/-- The completeness of a window: that of its deltas, or "partial". -/
inductive RowCompleteness
  | delta (completeness : Completeness)
  | partly
deriving DecidableEq

inductive Attribution
  | productionOnly
  | containsRdstTraffic
deriving DecidableEq

/-- What `record_recent_observations` is given of one window of one statement; a row without an attribution of its own
is stored as production only. -/
structure ObservationRow where
  normalizedHash : String
  windowStart : ℚ
  windowEnd : ℚ
  callsDelta : Option Int
  execTimeDelta : Option ℚ
  approximateQps : Option ℚ
  completeness : RowCompleteness
  attribution : Attribution
deriving DecidableEq

def fullDetailQueries : Nat := 1000

/-- The least length of a window of a statement that is not in full detail. -/
def coarseWindowSeconds : ℚ := 300

/-- The row of one delta. -/
def windowRow (normalized : String) (delta : DeltaResult) : ObservationRow where
  normalizedHash := normalized
  windowStart := delta.windowStart
  windowEnd := delta.windowEnd
  callsDelta := delta.callsDelta
  execTimeDelta := delta.execTimeDelta
  approximateQps := delta.approximateQps
  completeness := .delta delta.completeness
  attribution := .productionOnly

/-- `+=` on a metric; one of a complete window is a number. -/
def addMetric {Number : Type} [Add Number] (metric more : Option Number) : Option Number :=
  metric.bind fun value => more.map fun added => value + added

/-- Two rows of one statement in one poll. -/
def joined (current row : ObservationRow) : ObservationRow :=
  if current.completeness = .delta .complete ∧ row.completeness = .delta .complete then
    { current with
      callsDelta := addMetric current.callsDelta row.callsDelta
      execTimeDelta := addMetric current.execTimeDelta row.execTimeDelta
      approximateQps := addMetric current.approximateQps row.approximateQps }
  else if current.completeness = .delta .complete then row
  else current

/-- `merged`, in the order of its keys. -/
def mergeRow (merged : List ObservationRow) (row : ObservationRow) : List ObservationRow :=
  if row.normalizedHash ∈ merged.map ObservationRow.normalizedHash then
    merged.map fun current => if current.normalizedHash = row.normalizedHash then joined current row else current
  else merged ++ [row]

/-- The identities of the engine keys, `_alias_map`. -/
abbrev Aliases := String → Option String

/-- The rank of every statement of `query_tier`. -/
abbrev Tiers := String → Option Nat

/-- The row that a delta adds to, where it counts. -/
def reportedRow (aliases : Aliases) (tiers : Option Tiers) (incremental : Bool) (delta : DeltaResult) :
    Option ObservationRow :=
  if delta.isBaseline = true then none
  else if incremental = true ∧ delta.completeness = .absent then none
  else match aliases delta.engineKey with
    | none => none
    | some normalized =>
      if tiers.all (fun rank => (rank normalized).isSome) = true then some (windowRow normalized delta) else none

/-- A row of this poll together with what was kept back of the windows before it. -/
def accumulated (prior row : ObservationRow) : ObservationRow :=
  let start := min prior.windowStart row.windowStart
  if prior.completeness = .delta .complete ∧ row.completeness = .delta .complete then
    { row with
      windowStart := start
      callsDelta := addMetric row.callsDelta prior.callsDelta
      execTimeDelta := addMetric row.execTimeDelta prior.execTimeDelta
      approximateQps := (addMetric row.callsDelta prior.callsDelta).map fun calls =>
        calls / max 1 (row.windowEnd - start) }
  else
    { row with
      windowStart := start
      callsDelta := none
      execTimeDelta := none
      approximateQps := none
      completeness := if prior.completeness ≠ .delta .complete then prior.completeness else row.completeness }

/-- `_coarse_observations`. -/
abbrev Coarse := Dict String ObservationRow

def withPrior (coarse : Coarse) (row : ObservationRow) : ObservationRow :=
  match coarse.lookup row.normalizedHash with
  | none => row
  | some prior => accumulated prior row

/-- The body of the loop over the merged rows, with the rows completed so far. -/
def fileRow (tiers : Tiers) (filed : Coarse × List ObservationRow) (row : ObservationRow) :
    Coarse × List ObservationRow :=
  if (tiers row.normalizedHash).getD 0 ≤ fullDetailQueries then (filed.1, filed.2 ++ [row])
  else
    let row := withPrior filed.1 row
    if coarseWindowSeconds ≤ row.windowEnd - row.windowStart then
      (filed.1.erase row.normalizedHash, filed.2 ++ [row])
    else (filed.1.insert row.normalizedHash row, filed.2)

def mergedRows (aliases : Aliases) (tiers : Option Tiers) (incremental : Bool) (deltas : List DeltaResult) :
    List ObservationRow :=
  (deltas.filterMap (reportedRow aliases tiers incremental)).foldl mergeRow []

/-- The windows that a poll reports, and the ones it keeps back; without a monitor nothing is kept back. -/
def recentObservationRows (aliases : Aliases) (tiers : Option Tiers) (coarse : Coarse) (deltas : List DeltaResult)
    (incremental : Bool) : Coarse × List ObservationRow :=
  let merged := mergedRows aliases tiers incremental deltas
  match tiers with
  | none => (coarse, merged)
  | some rank =>
    merged.foldl (fileRow rank) (keepKeys (fun key => decide (fullDetailQueries < (rank key).getD 0)) coarse, [])

section Merged

variable {merged : List ObservationRow} {row : ObservationRow}

theorem joined_hash {current : ObservationRow} (same : current.normalizedHash = row.normalizedHash) :
    (joined current row).normalizedHash = row.normalizedHash := by
  unfold joined
  split
  · exact same
  · split
    · rfl
    · exact same

theorem withPrior_hash (coarse : Coarse) (row : ObservationRow) :
    (withPrior coarse row).normalizedHash = row.normalizedHash := by
  unfold withPrior
  split
  · rfl
  · unfold accumulated
    simp only
    split <;> rfl

theorem mergeRow_hashes (merged : List ObservationRow) (row : ObservationRow) :
    (mergeRow merged row).map ObservationRow.normalizedHash =
      if row.normalizedHash ∈ merged.map ObservationRow.normalizedHash then merged.map ObservationRow.normalizedHash
      else merged.map ObservationRow.normalizedHash ++ [row.normalizedHash] := by
  unfold mergeRow
  split
  · rw [List.map_map]
    apply List.map_congr_left
    intro current _
    by_cases same : current.normalizedHash = row.normalizedHash
    · simp only [Function.comp_apply, if_pos same]
      exact (joined_hash same).trans same.symm
    · simp only [Function.comp_apply, if_neg same]
  · rw [List.map_append, List.map_singleton]

/-- A poll has one row for a statement. -/
theorem mergedRows_distinct (aliases : Aliases) (tiers : Option Tiers) (incremental : Bool)
    (deltas : List DeltaResult) :
    ((mergedRows aliases tiers incremental deltas).map ObservationRow.normalizedHash).Nodup := by
  have folded : ∀ (rows merged : List ObservationRow), (merged.map ObservationRow.normalizedHash).Nodup →
      ((rows.foldl mergeRow merged).map ObservationRow.normalizedHash).Nodup := by
    intro rows
    induction rows with
    | nil => exact fun _ distinct => distinct
    | cons row rest ih =>
      intro merged distinct
      apply ih
      rw [mergeRow_hashes]
      split
      · exact distinct
      · rename_i absent
        exact List.nodup_append.mpr ⟨distinct, List.nodup_singleton _, fun hash member other last same =>
          absent (List.mem_singleton.mp last ▸ same ▸ member)⟩
  exact folded _ [] List.nodup_nil

/-- What joining rows of one statement keeps, every merged row has. -/
theorem mergedRows_all {good : ObservationRow → Prop} {aliases : Aliases} {tiers : Option Tiers} {incremental : Bool}
    {deltas : List DeltaResult}
    (single : ∀ delta ∈ deltas, ∀ row, reportedRow aliases tiers incremental delta = some row → good row)
    (join : ∀ current row, good current → good row → current.normalizedHash = row.normalizedHash →
      good (joined current row)) :
    ∀ row ∈ mergedRows aliases tiers incremental deltas, good row := by
  have folded : ∀ (rows merged : List ObservationRow), (∀ row ∈ rows, good row) → (∀ row ∈ merged, good row) →
      ∀ row ∈ rows.foldl mergeRow merged, good row := by
    intro rows
    induction rows with
    | nil => exact fun _ _ held => held
    | cons first rest ih =>
      intro merged fine held
      apply ih _ fun row member => fine row (List.mem_cons_of_mem first member)
      have new := fine first List.mem_cons_self
      intro row member
      unfold mergeRow at member
      split at member
      · obtain ⟨current, there, rfl⟩ := List.mem_map.mp member
        split
        · rename_i same
          exact join current first (held current there) new same
        · exact held current there
      · rcases List.mem_append.mp member with old | last
        · exact held row old
        · rwa [List.mem_singleton.mp last]
  apply folded _ [] _ (by simp)
  intro row member
  obtain ⟨delta, there, reported⟩ := List.mem_filterMap.mp member
  exact single delta there row reported

theorem addMetric_some {Number : Type} [Add Number] {metric more : Option Number} {sum : Number}
    (added : addMetric metric more = some sum) : ∃ a b, metric = some a ∧ more = some b ∧ sum = a + b := by
  obtain ⟨a, first, rest⟩ := Option.bind_eq_some_iff.mp added
  obtain ⟨b, second, same⟩ := Option.map_eq_some_iff.mp rest
  exact ⟨a, b, first, second, same.symm⟩

/-- Where a row has calls, they are not negative and its window starts where it may. -/
def Measured (allowed : String → ℚ → Prop) (row : ObservationRow) : Prop :=
  ∀ calls, row.callsDelta = some calls → 0 ≤ calls ∧ allowed row.normalizedHash row.windowStart

variable {allowed : String → ℚ → Prop}

theorem joined_measured {current : ObservationRow} (first : Measured allowed current) (second : Measured allowed row) :
    Measured allowed (joined current row) := by
  unfold joined
  split
  · intro calls counted
    obtain ⟨a, b, own, more, rfl⟩ := addMetric_some counted
    have sum := (second b more).1
    exact ⟨by have := (first a own).1; omega, (first a own).2⟩
  · split
    · exact second
    · exact first

theorem withPrior_measured {coarse : Coarse} (measured : Measured allowed row)
    (prior : ∀ start, allowed row.normalizedHash start → ∀ kept, coarse.lookup row.normalizedHash = some kept →
      ∀ calls, kept.callsDelta = some calls → 0 ≤ calls ∧ allowed row.normalizedHash kept.windowStart) :
    Measured allowed (withPrior coarse row) := by
  unfold withPrior
  cases found : coarse.lookup row.normalizedHash with
  | none => exact measured
  | some kept =>
    simp only [accumulated]
    split
    · intro calls counted
      obtain ⟨a, b, own, more, rfl⟩ := addMetric_some counted
      obtain ⟨grown, here⟩ := measured a own
      obtain ⟨before, there⟩ := prior _ here kept found b more
      refine ⟨by omega, ?_⟩
      rcases min_choice kept.windowStart row.windowStart with least | least
      · simpa only [least] using there
      · simpa only [least] using here
    · intro calls counted
      cases counted

end Merged

section Filed

variable {rank : Tiers} {filed : Coarse × List ObservationRow} {row : ObservationRow}

/-- What the loop over the merged rows has done with some of them. -/
structure Filed (rows : List ObservationRow) (before after : Coarse × List ObservationRow) : Prop where
  completed : ∀ row ∈ after.2, row ∈ before.2 ∨ ∃ merged ∈ rows, row = merged ∨ row = withPrior before.1 merged
  kept : ∀ key row, after.1.lookup key = some row →
    before.1.lookup key = some row ∨ ∃ merged ∈ rows, row = withPrior before.1 merged
  once : ∃ hashes, hashes.Sublist (rows.map ObservationRow.normalizedHash) ∧
    after.2.map ObservationRow.normalizedHash = before.2.map ObservationRow.normalizedHash ++ hashes

theorem fileRow_filed (rank : Tiers) (filed : Coarse × List ObservationRow) (row : ObservationRow) :
    Filed [row] filed (fileRow rank filed row) := by
  unfold fileRow
  split
  · refine ⟨?_, fun key row found => .inl found, [row.normalizedHash], List.Sublist.refl _, by simp⟩
    intro done member
    rcases List.mem_append.mp member with old | new
    · exact .inl old
    · exact .inr ⟨row, by simp, .inl (List.mem_singleton.mp new)⟩
  · simp only
    split
    · refine ⟨?_, ?_, [row.normalizedHash], List.Sublist.refl _, by simp [withPrior_hash]⟩
      · intro done member
        rcases List.mem_append.mp member with old | new
        · exact .inl old
        · exact .inr ⟨row, by simp, .inr (List.mem_singleton.mp new)⟩
      · intro key other found
        by_cases same : key = (withPrior filed.1 row).normalizedHash
        · subst same
          rw [AList.lookup_erase] at found
          cases found
        · rw [AList.lookup_erase_ne same] at found
          exact .inl found
    · refine ⟨fun done member => .inl member, ?_, [], List.nil_sublist _, by simp⟩
      intro key other found
      rw [insert_lookup] at found
      split at found
      · exact .inr ⟨row, by simp, (Option.some.inj found).symm⟩
      · exact .inl found

theorem fileRow_other (rank : Tiers) (filed : Coarse × List ObservationRow) (row : ObservationRow) {key : String}
    (other : key ≠ row.normalizedHash) : (fileRow rank filed row).1.lookup key = filed.1.lookup key := by
  unfold fileRow
  split
  · rfl
  · simp only [withPrior_hash]
    split
    · exact AList.lookup_erase_ne other
    · rw [insert_lookup, if_neg other]

theorem withPrior_congr {coarse other : Coarse}
    (same : coarse.lookup row.normalizedHash = other.lookup row.normalizedHash) :
    withPrior coarse row = withPrior other row := by
  unfold withPrior
  rw [same]

theorem fileRows_filed (rank : Tiers) (filed : Coarse × List ObservationRow) (rows : List ObservationRow)
    (distinct : (rows.map ObservationRow.normalizedHash).Nodup) : Filed rows filed (rows.foldl (fileRow rank) filed) := by
  induction rows generalizing filed with
  | nil => exact ⟨fun row member => .inl member, fun key row found => .inl found, [], List.Sublist.refl _, by simp⟩
  | cons first rest ih =>
    obtain ⟨apart, distinct⟩ := List.nodup_cons.mp distinct
    have step := fileRow_filed rank filed first
    have others := ih (fileRow rank filed first) distinct
    -- The rows still to come have other hashes, and come upon what was kept for them at the start.
    have prior : ∀ merged ∈ rest, withPrior (fileRow rank filed first).1 merged = withPrior filed.1 merged := by
      intro merged member
      apply withPrior_congr
      apply fileRow_other
      intro same
      exact apart (List.mem_map.mpr ⟨merged, member, same⟩)
    rw [List.foldl_cons]
    refine ⟨?_, ?_, ?_⟩
    · intro row member
      rcases others.completed row member with before | ⟨merged, there, done⟩
      · rcases step.completed row before with old | ⟨merged, there, done⟩
        · exact .inl old
        · exact .inr ⟨merged, by simp [List.mem_singleton.mp there], done⟩
      · rw [prior merged there] at done
        exact .inr ⟨merged, List.mem_cons_of_mem first there, done⟩
    · intro key row found
      rcases others.kept key row found with before | ⟨merged, there, done⟩
      · rcases step.kept key row before with old | ⟨merged, there, done⟩
        · exact .inl old
        · exact .inr ⟨merged, by simp [List.mem_singleton.mp there], done⟩
      · rw [prior merged there] at done
        exact .inr ⟨merged, List.mem_cons_of_mem first there, done⟩
    · obtain ⟨hashes, less, same⟩ := others.once
      obtain ⟨own, little, before⟩ := step.once
      refine ⟨own ++ hashes, ?_, by rw [same, before, List.append_assoc]⟩
      exact little.append less

end Filed

section Recent

variable {aliases : Aliases} {tiers : Option Tiers} {coarse : Coarse} {deltas : List DeltaResult} {incremental : Bool}

/-- A poll reports a statement once. -/
theorem recentObservationRows_distinct :
    ((recentObservationRows aliases tiers coarse deltas incremental).2.map ObservationRow.normalizedHash).Nodup := by
  have distinct := mergedRows_distinct aliases tiers incremental deltas
  unfold recentObservationRows
  cases tiers with
  | none => exact distinct
  | some rank =>
    obtain ⟨hashes, less, same⟩ := (fileRows_filed rank
      (keepKeys (fun key => decide (fullDetailQueries < (rank key).getD 0)) coarse, []) _ distinct).once
    have only : (List.map ObservationRow.normalizedHash ((mergedRows aliases (some rank) incremental deltas).foldl
        (fileRow rank) (keepKeys (fun key => decide (fullDetailQueries < (rank key).getD 0)) coarse, [])).2) = hashes :=
      same
    exact only ▸ distinct.sublist less

theorem keepKeys_some {Value : Type} {test : String → Bool} {dict : Dict String Value} {key : String} {value : Value}
    (found : (keepKeys test dict).lookup key = some value) : dict.lookup key = some value := by
  rw [keepKeys_lookup] at found
  split at found
  · exact found
  · cases found

variable {allowed : String → ℚ → Prop}

/-- What is kept back of a statement may be added to a row of it. -/
def Addable (allowed : String → ℚ → Prop) (coarse : Coarse) : Prop :=
  ∀ key start, allowed key start → ∀ kept, coarse.lookup key = some kept → ∀ calls, kept.callsDelta = some calls →
    0 ≤ calls ∧ allowed key kept.windowStart

theorem recentObservationRows_measured
    (single : ∀ row ∈ mergedRows aliases tiers incremental deltas, Measured allowed row)
    (addable : tiers.isSome = true → Addable allowed coarse) :
    ∀ row ∈ (recentObservationRows aliases tiers coarse deltas incremental).2, Measured allowed row := by
  have distinct := mergedRows_distinct aliases tiers incremental deltas
  unfold recentObservationRows
  cases tiers with
  | none => exact single
  | some rank =>
    intro row member
    rcases (fileRows_filed rank _ _ distinct).completed row member with nothing | ⟨merged, there, rfl | rfl⟩
    · cases nothing
    · exact single row there
    · exact withPrior_measured (single merged there) fun start here kept found =>
        addable rfl _ start here kept (keepKeys_some found)

/-- What is kept back has no negative calls. -/
theorem recentObservationRows_kept
    (single : ∀ row ∈ mergedRows aliases tiers incremental deltas, Measured (fun _ _ => True) row)
    (before : ∀ key kept, coarse.lookup key = some kept → Measured (fun _ _ => True) kept) {key : String}
    {kept : ObservationRow}
    (found : (recentObservationRows aliases tiers coarse deltas incremental).1.lookup key = some kept) :
    Measured (fun _ _ => True) kept := by
  have distinct := mergedRows_distinct aliases tiers incremental deltas
  unfold recentObservationRows at found
  cases tiers with
  | none => exact before key kept found
  | some rank =>
    rcases (fileRows_filed rank _ _ distinct).kept key kept found with old | ⟨merged, there, rfl⟩
    · exact before key kept (keepKeys_some old)
    · apply withPrior_measured (single merged there)
      intro start here prior known
      exact before _ prior (keepKeys_some known)

end Recent

end Rdst.Observation.SelfTraffic
