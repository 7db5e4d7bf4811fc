import Mathlib.Data.List.Sort
import Rdst.Lib.Chunks
import Rdst.Lib.Double
import Rdst.Observation.Recent

namespace Rdst.Observation.RowCap

open Chunks SelfTraffic

/-- A row of `recent_observation`. -/
structure WindowRow where
  targetId : String
  window : ObservationRow
  deriving DecidableEq

def WindowRow.key (row : WindowRow) : String × String × ℚ := (row.targetId, row.window.normalizedHash, row.window.windowEnd)

/-- `recent_observation`, with its primary key. -/
structure WindowTable where
  rows : List WindowRow
  primaryKey : (rows.map WindowRow.key).Nodup

/-- `value + 1e-6`, in doubles. -/
def justAfter (value : ℚ) : ℚ := Float64.nearest (value + Float64.nearest (1 / 1000000))

/-- The ends of windows, the newest first. -/
def endsOf (windows : List WindowRow) : List ℚ :=
  (windows.map fun row => row.window.windowEnd).insertionSort (· ≥ ·)

/-- The cutoff for a target's windows. -/
def targetCutoff (cutoff : ℚ) (maxRows : Nat) (windows : List WindowRow) : ℚ :=
  match (endsOf windows)[maxRows]? with
  | none => cutoff
  | some windowEnd => max cutoff (justAfter windowEnd)

/-- The loop of `prune_observations` for one target. -/
def pruneTarget (cutoff : ℚ) (maxRows chunk : Nat) : List WindowRow → String → Option (List WindowRow) :=
  deleteGroup WindowRow.targetId (fun windows row => row.window.windowEnd < targetCutoff cutoff maxRows windows)
    WindowRow.key chunk

/-- `prune_observations`: the rows that it leaves. -/
def pruneObservations (cutoff : ℚ) (maxRows chunk : Nat) (table : WindowTable) : Option (List WindowRow) :=
  (table.rows.map WindowRow.targetId).dedup.foldlM (pruneTarget cutoff maxRows chunk) table.rows

def windowsOf (rows : List WindowRow) (targetId : String) : List WindowRow :=
  rows.filter fun row => row.targetId = targetId

/-- So many windows are left, and none of those that are gone is newer. -/
structure LeavesNewest (count : Nat) (before after : List WindowRow) : Prop where
  among : after.Sublist before
  count : after.length = count
  newest : ∀ row ∈ before, row ∉ after → ∀ kept ∈ after, row.window.windowEnd ≤ kept.window.windowEnd

/-- Behind the newest windows there is a cut: the cutoff, or the end of the next window and a microsecond, lies after the
next window and not after any of the newest. -/
def CleanCut (cutoff : ℚ) (maxRows : Nat) (windows : List WindowRow) : Prop :=
  ∃ next, (endsOf windows)[maxRows]? = some next ∧ next < max cutoff (justAfter next) ∧
    ∀ windowEnd ∈ (endsOf windows).take maxRows, max cutoff (justAfter next) ≤ windowEnd

theorem endsOf_perm (windows : List WindowRow) :
    (endsOf windows).Perm (windows.map fun row => row.window.windowEnd) := List.perm_insertionSort _ _

theorem endsOf_sorted (windows : List WindowRow) : (endsOf windows).Pairwise (· ≥ ·) :=
  List.pairwise_insertionSort _ _

theorem pruneObservations_rows (cutoff : ℚ) (maxRows : Nat) {chunk : Nat} (positive : 0 < chunk)
    (table : WindowTable) :
    pruneObservations cutoff maxRows chunk table = some (table.rows.filter fun row =>
      targetCutoff cutoff maxRows (windowsOf table.rows row.targetId) ≤ row.window.windowEnd) := by
  rw [pruneObservations, pruneTarget, deleteGroups_eq _ _ positive (List.nodup_dedup _) table.primaryKey]
  congr 1
  apply List.filter_congr
  intro row member
  have listed : row.targetId ∈ (table.rows.map WindowRow.targetId).dedup :=
    List.mem_dedup.mpr (List.mem_map_of_mem member)
  simp only [listed, decide_true, Bool.true_and, windowsOf, ← decide_not, not_lt]
  exact decide_eq_decide.mpr Iff.rfl

theorem windowsOf_filter (rows : List WindowRow) (bound : String → ℚ) (targetId : String) :
    windowsOf (rows.filter fun row => bound row.targetId ≤ row.window.windowEnd) targetId =
      (windowsOf rows targetId).filter fun row => bound targetId ≤ row.window.windowEnd := by
  rw [windowsOf, windowsOf, List.filter_filter, List.filter_filter]
  apply List.filter_congr
  intro row _
  by_cases own : row.targetId = targetId
  · simp [own]
  · simp [own]

/-- How many numbers of a falling list are above a bound tells whether the bound is a cut. -/
theorem countP_falling {ends : List ℚ} (falling : ends.Pairwise (· ≥ ·)) {count : Nat} {next : ℚ}
    (found : ends[count]? = some next) (bound : ℚ) :
    ends.countP (fun windowEnd => bound ≤ windowEnd) = count ↔
      next < bound ∧ ∀ windowEnd ∈ ends.take count, bound ≤ windowEnd := by
  obtain ⟨inside, value⟩ := List.getElem?_eq_some_iff.mp found
  have split : ends.take count ++ next :: ends.drop (count + 1) = ends := by
    rw [← value, ← List.drop_eq_getElem_cons inside, List.take_append_drop]
  have length : (ends.take count).length = count := by rw [List.length_take]; omega
  have sum : ends.countP (fun windowEnd => decide (bound ≤ windowEnd)) =
      (ends.take count).countP (fun windowEnd => decide (bound ≤ windowEnd)) +
        (next :: ends.drop (count + 1)).countP fun windowEnd => decide (bound ≤ windowEnd) := by
    rw [← List.countP_append, split]
  have parts := falling
  rw [← split, List.pairwise_append, List.pairwise_cons] at parts
  have head : (ends.take count).countP (fun windowEnd => decide (bound ≤ windowEnd)) = count ↔
      ∀ windowEnd ∈ ends.take count, bound ≤ windowEnd := by
    have all : (ends.take count).countP (fun windowEnd => decide (bound ≤ windowEnd)) = (ends.take count).length ↔
        ∀ windowEnd ∈ ends.take count, decide (bound ≤ windowEnd) = true := List.countP_eq_length
    rw [length] at all
    simpa using all
  have tail (below : next < bound) :
      (next :: ends.drop (count + 1)).countP (fun windowEnd => decide (bound ≤ windowEnd)) = 0 := by
    rw [List.countP_eq_zero]
    intro windowEnd member
    rcases List.mem_cons.mp member with rfl | later
    · simpa using below
    · simpa using (parts.2.1.1 windowEnd later).trans_lt below
  by_cases below : next < bound
  · rw [sum, tail below, Nat.add_zero, head]
    exact (and_iff_right below).symm
  · have high : ∀ windowEnd ∈ ends.take count, bound ≤ windowEnd := fun windowEnd member =>
      (not_lt.mp below).trans (parts.2.2 windowEnd member next List.mem_cons_self)
    rw [sum, head.mpr high, List.countP_cons_of_pos (by simpa using below)]
    simp [below]

theorem length_kept (windows : List WindowRow) (bound : ℚ) :
    (windows.filter fun row => bound ≤ row.window.windowEnd).length =
      (endsOf windows).countP fun windowEnd => bound ≤ windowEnd := by
  rw [(endsOf_perm windows).countP_eq, List.countP_map, List.countP_eq_length_filter]
  rfl

/-- What is not before a bound is newer than what is. -/
theorem leavesNewest_iff (windows : List WindowRow) (bound : ℚ) (count : Nat) :
    LeavesNewest count windows (windows.filter fun row => bound ≤ row.window.windowEnd) ↔
      (endsOf windows).countP (fun windowEnd => bound ≤ windowEnd) = count := by
  rw [← length_kept]
  constructor
  · exact fun leaves => leaves.count
  · intro length
    refine ⟨List.filter_sublist, length, ?_⟩
    intro row member gone kept inside
    have above := (List.mem_filter.mp inside).2
    have below : ¬ bound ≤ row.window.windowEnd := fun high => gone (List.mem_filter.mpr ⟨member, decide_eq_true high⟩)
    exact (not_le.mp below).le.trans (of_decide_eq_true above)

/-- A target with too many windows is left with its newest, as many as it may have, exactly where there is a clean cut
behind them. -/
theorem row_cap_iff (table : WindowTable) (cutoff : ℚ) (maxRows chunk : Nat) (positive : 0 < chunk) (targetId : String)
    (over_ : maxRows < (windowsOf table.rows targetId).length) :
    ∃ left, pruneObservations cutoff maxRows chunk table = some left ∧
      (LeavesNewest maxRows (windowsOf table.rows targetId) (windowsOf left targetId) ↔
        CleanCut cutoff maxRows (windowsOf table.rows targetId)) := by
  refine ⟨_, pruneObservations_rows cutoff maxRows positive table, ?_⟩
  rw [windowsOf_filter table.rows fun targetId => targetCutoff cutoff maxRows (windowsOf table.rows targetId)]
  have long : maxRows < (endsOf (windowsOf table.rows targetId)).length := by
    rw [(endsOf_perm _).length_eq, List.length_map]
    exact over_
  have found := List.getElem?_eq_getElem long
  rw [leavesNewest_iff, targetCutoff, found]
  have cut := countP_falling (endsOf_sorted (windowsOf table.rows targetId)) found
    (max cutoff (justAfter (endsOf (windowsOf table.rows targetId))[maxRows]))
  rw [cut, CleanCut, found]
  constructor
  · exact fun clean => ⟨_, rfl, clean⟩
  · rintro ⟨next, same, clean⟩
    cases same
    exact clean

section Cycle

def window (normalizedHash : String) (windowEnd : ℚ) : WindowRow :=
  ⟨"t", ⟨normalizedHash, windowEnd - 60, windowEnd, some 1, some 1, some 1, .delta .complete, .productionOnly⟩⟩

/-- Windows that end one after the other, and a cycle whose windows end together. -/
def steady : WindowTable := ⟨[window "a" 60, window "a" 120, window "b" 180], by decide +kernel⟩

def together : WindowTable := ⟨[window "a" 60, window "b" 60, window "c" 60], by decide +kernel⟩

theorem row_cap_iff_steady : ∃ left, pruneObservations 0 2 1 steady = some left ∧
    (LeavesNewest 2 (windowsOf steady.rows "t") (windowsOf left "t") ↔ CleanCut 0 2 (windowsOf steady.rows "t")) :=
  row_cap_iff steady 0 2 1 Nat.one_pos "t" (by decide +kernel)

/-- Of a cycle's three windows two may stay, and none does. -/
theorem cycle_lost : pruneObservations 0 2 10 together = some [] ∧
    ¬ LeavesNewest 2 (windowsOf together.rows "t") (windowsOf [] "t") := by
  constructor
  · decide +kernel
  · exact fun leaves => absurd leaves.count (by decide)

end Cycle

end Rdst.Observation.RowCap
