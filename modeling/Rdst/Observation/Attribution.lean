import Rdst.Observation.Executions
import Rdst.Observation.Recent

namespace Rdst.Observation.SelfTraffic

open Assoc Delta Machine

def attributionSkewAllowanceSeconds : ℚ := 2

/-- The overlaps of the window itself, in RDST's time; the others are there by the allowance only. -/
def inWindow (localStart localEnd : ℚ) (overlaps : List Execution) : List Execution :=
  overlaps.filter fun overlap => overlap.startedAt ≤ localEnd ∧ overlap.endedAt.all (fun ended => decide (localStart < ended))

def fullyContained (localStart localEnd : ℚ) (overlaps : List Execution) : Bool :=
  overlaps.all fun overlap => decide (localStart < overlap.startedAt) &&
    overlap.endedAt.any fun ended => decide (ended ≤ localEnd)

/-- Whether the calls of the executions in a window are subtracted; a span of the window's edge leaves all of them. -/
def subtracts (localStart localEnd : ℚ) (overlaps : List Execution) : Bool :=
  overlaps.all (fun overlap => overlap.execCount.isSome) && fullyContained localStart localEnd overlaps

/-- The sum of the counts. -/
def totalCount (overlaps : List Execution) : Int := (overlaps.map fun overlap => overlap.execCount.getD 0).sum

/-- One turn of the loop of `_apply_rdst_attribution`. -/
def attributedRow (offset : ℚ) (overlaps : List Execution) (row : ObservationRow) : ObservationRow :=
  if overlaps = [] then row
  else
    let row := { row with attribution := .containsRdstTraffic }
    let localStart := row.windowStart - offset
    let localEnd := row.windowEnd - offset
    let inside := inWindow localStart localEnd overlaps
    if inside = [] then row
    else if subtracts localStart localEnd inside = false then { row with completeness := .partly }
    else
      let adjusted := row.callsDelta.map fun calls => max 0 (calls - totalCount inside)
      { row with
        callsDelta := adjusted
        approximateQps := adjusted.map fun calls => calls / max (row.windowEnd - row.windowStart) 1 }

/-- The executions whose counts a window's calls lost. -/
def subtracted (offset : ℚ) (overlaps : List Execution) (row : ObservationRow) : List Execution :=
  let inside := inWindow (row.windowStart - offset) (row.windowEnd - offset) overlaps
  if subtracts (row.windowStart - offset) (row.windowEnd - offset) inside = true then inside else []

/-- A window that a poll hands to the store, with how it came about. -/
structure Window where
  measured : ObservationRow
  offset : ℚ
  subtracted : List Execution
  row : ObservationRow
deriving DecidableEq

def plainWindow (offset : ℚ) (row : ObservationRow) : Window := ⟨row, offset, [], row⟩

/-- The row of the batched overlap read, and what is made of it; a row without calls is not looked up. -/
def attributedWindow (executions : Executions) (offset : ℚ) (row : ObservationRow) : Window :=
  if row.callsDelta = none then plainWindow offset row
  else
    let overlaps := executions.executionsOverlapping row.normalizedHash
      (row.windowStart - offset - attributionSkewAllowanceSeconds)
      (row.windowEnd - offset + attributionSkewAllowanceSeconds)
    ⟨row, offset, subtracted offset overlaps row, attributedRow offset overlaps row⟩

/-- Where the lookup fails, the cycle's windows stay as they are. -/
def applyRdstAttribution (executions : Executions) (lookupFails : Bool) (offset : ℚ) (rows : List ObservationRow) :
    List Window :=
  rows.map (if lookupFails = true then plainWindow offset else attributedWindow executions offset)

section Windows

variable {executions : Executions} {offset : ℚ} {row : ObservationRow} {overlap : Execution}

theorem mem_inWindow {localStart localEnd : ℚ} {overlaps : List Execution}
    (member : overlap ∈ inWindow localStart localEnd overlaps) : overlap ∈ overlaps ∧ overlap.startedAt ≤ localEnd := by
  obtain ⟨there, meets⟩ := List.mem_filter.mp member
  exact ⟨there, (of_decide_eq_true meets).1⟩

/-- An execution that lies in the window as a whole. -/
def Inside (localStart localEnd : ℚ) (overlap : Execution) : Prop :=
  localStart < overlap.startedAt ∧ overlap.startedAt ≤ localEnd ∧
    (∃ ended, overlap.endedAt = some ended ∧ ended ≤ localEnd) ∧ overlap.execCount ≠ none

theorem mem_subtracted {overlaps : List Execution} (member : overlap ∈ subtracted offset overlaps row) :
    overlap ∈ overlaps ∧ Inside (row.windowStart - offset) (row.windowEnd - offset) overlap := by
  simp only [subtracted] at member
  split at member
  · rename_i allowed
    obtain ⟨there, starts⟩ := mem_inWindow member
    obtain ⟨counts, contained⟩ := Bool.and_eq_true_iff.mp allowed
    have count := List.all_eq_true.mp counts overlap member
    obtain ⟨after, ends⟩ := Bool.and_eq_true_iff.mp (List.all_eq_true.mp contained overlap member)
    obtain ⟨ended, same, before⟩ := (Option.any_eq_true _ _).mp ends
    exact ⟨there, of_decide_eq_true after, starts, ⟨ended, same, of_decide_eq_true before⟩,
      Option.isSome_iff_ne_none.mp count⟩
  · exact absurd member List.not_mem_nil

theorem attributedRow_calls (offset : ℚ) (overlaps : List Execution) (row : ObservationRow) :
    (attributedRow offset overlaps row).callsDelta =
      if subtracted offset overlaps row = [] then row.callsDelta
      else row.callsDelta.map fun calls => max 0 (calls - totalCount (subtracted offset overlaps row)) := by
  unfold attributedRow subtracted
  by_cases none : overlaps = []
  · subst none
    simp [inWindow]
  · rw [if_neg none]
    simp only
    by_cases outside : inWindow (row.windowStart - offset) (row.windowEnd - offset) overlaps = []
    · simp [outside]
    · rw [if_neg outside]
      cases allowed : subtracts (row.windowStart - offset) (row.windowEnd - offset)
        (inWindow (row.windowStart - offset) (row.windowEnd - offset) overlaps) with
      | false => simp
      | true => simp [outside]

/-- The executions of a window are runs of its statement, each of them once. -/
theorem attributedWindow_subtracted (executions : Executions) (offset : ℚ) (row : ObservationRow) :
    ((attributedWindow executions offset row).subtracted.map Execution.key).Nodup ∧
      ∀ overlap ∈ (attributedWindow executions offset row).subtracted, overlap ∈ executions.rows ∧
        overlap.normalizedHash = row.normalizedHash ∧
          Inside (row.windowStart - offset) (row.windowEnd - offset) overlap := by
  unfold attributedWindow
  split
  · exact ⟨List.nodup_nil, fun overlap member => absurd member List.not_mem_nil⟩
  · constructor
    · simp only [subtracted]
      split
      · exact (executions.executionsOverlapping_keyed _ _ _).sublist (List.filter_sublist.map Execution.key)
      · exact List.nodup_nil
    · intro overlap member
      obtain ⟨there, inside⟩ := mem_subtracted member
      obtain ⟨recorded, same, -⟩ := Executions.mem_executionsOverlapping.mp there
      exact ⟨recorded, same, inside⟩

theorem attributedWindow_measured (executions : Executions) (offset : ℚ) (row : ObservationRow) :
    (attributedWindow executions offset row).measured = row ∧
      (attributedWindow executions offset row).offset = offset := by
  unfold attributedWindow
  split <;> exact ⟨rfl, rfl⟩

theorem attributedWindow_calls (executions : Executions) (offset : ℚ) (row : ObservationRow) :
    (attributedWindow executions offset row).row.callsDelta =
      if (attributedWindow executions offset row).subtracted = [] then row.callsDelta
      else row.callsDelta.map fun calls =>
        max 0 (calls - totalCount (attributedWindow executions offset row).subtracted) := by
  unfold attributedWindow
  split
  · rfl
  · exact attributedRow_calls offset _ row

end Windows

end Rdst.Observation.SelfTraffic
