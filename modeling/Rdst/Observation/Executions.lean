import Mathlib.Algebra.Order.Ring.Unbundled.Rat
import Mathlib.Data.List.Sort

namespace Rdst.Observation.SelfTraffic

/-- A row of `rdst_execution` of one target: what a run of RDST executed of a statement. -/
structure Execution where
  normalizedHash : String
  lane : String
  runId : String
  startedAt : ℚ
  endedAt : Option ℚ
  /-- `none` where the count is not known exactly. -/
  execCount : Option Int
deriving DecidableEq

def Execution.key (row : Execution) : String × String := (row.runId, row.normalizedHash)

def openExecutionMaxAgeSeconds : ℚ := 3600

/-- The table, with its primary key. -/
structure Executions where
  rows : List Execution
  keyed : (rows.map Execution.key).Nodup

namespace Executions

def empty : Executions := ⟨[], List.nodup_nil⟩

/-- `INSERT .. ON CONFLICT(target_id, run_id, normalized_hash) DO UPDATE`. -/
def upsert (table : Executions) (row : Execution) : Executions where
  rows := table.rows.filter (fun other => other.key ≠ row.key) ++ [row]
  keyed := by
    have others : ((table.rows.filter fun other => other.key ≠ row.key).map Execution.key).Nodup :=
      table.keyed.sublist (List.filter_sublist.map Execution.key)
    rw [List.map_append, List.nodup_append]
    refine ⟨others, List.nodup_singleton _, ?_⟩
    intro key member key' last same
    obtain ⟨other, kept, rfl⟩ := List.mem_map.mp member
    rw [List.map_singleton, List.mem_singleton] at last
    simpa [same.trans last] using (List.mem_filter.mp kept).2

/-- Only a row with an unknown count or a positive one is evidence. -/
def isEvidence (row : Execution) : Bool := row.execCount.all fun count => decide (0 < count)

def recordRdstExecutions (table : Executions) (rows : List Execution) : Executions :=
  (rows.filter isEvidence).foldl upsert table

/-- An open row that is too old gets the end that the overlap reader assumes. -/
def closed (now : ℚ) (row : Execution) : Execution :=
  if row.endedAt = none ∧ row.startedAt < now - openExecutionMaxAgeSeconds then
    { row with endedAt := some (row.startedAt + openExecutionMaxAgeSeconds) }
  else row

theorem closed_key (now : ℚ) (row : Execution) : (closed now row).key = row.key := by
  unfold closed
  split <;> rfl

theorem closed_startedAt (now : ℚ) (row : Execution) : (closed now row).startedAt = row.startedAt := by
  unfold closed
  split <;> rfl

def pruneRdstExecutions (table : Executions) (cutoff now : ℚ) : Executions where
  rows := (table.rows.map (closed now)).filter fun row => row.endedAt.all fun ended => decide (cutoff ≤ ended)
  keyed := by
    have same : (table.rows.map (closed now)).map Execution.key = table.rows.map Execution.key := by
      rw [List.map_map]
      exact List.map_congr_left fun row _ => closed_key now row
    exact (same ▸ table.keyed).sublist (List.filter_sublist.map Execution.key)

/-- The executions of a statement whose span overlaps the window (start, stop], oldest first. -/
def executionsOverlapping (table : Executions) (normalizedHash : String) (start stop : ℚ) : List Execution :=
  (table.rows.filter fun row => row.normalizedHash = normalizedHash ∧ row.startedAt ≤ stop ∧
    start < row.endedAt.getD (row.startedAt + openExecutionMaxAgeSeconds)).insertionSort
      fun a b => a.startedAt ≤ b.startedAt

theorem mem_executionsOverlapping {table : Executions} {normalizedHash : String} {start stop : ℚ} {row : Execution} :
    row ∈ table.executionsOverlapping normalizedHash start stop ↔ row ∈ table.rows ∧
      row.normalizedHash = normalizedHash ∧ row.startedAt ≤ stop ∧
        start < row.endedAt.getD (row.startedAt + openExecutionMaxAgeSeconds) := by
  rw [executionsOverlapping, List.mem_insertionSort, List.mem_filter, decide_eq_true_iff]

theorem executionsOverlapping_keyed (table : Executions) (normalizedHash : String) (start stop : ℚ) :
    ((table.executionsOverlapping normalizedHash start stop).map Execution.key).Nodup := by
  have sorted := List.perm_insertionSort (fun a b : Execution => a.startedAt ≤ b.startedAt) (table.rows.filter
    fun row => row.normalizedHash = normalizedHash ∧ row.startedAt ≤ stop ∧
      start < row.endedAt.getD (row.startedAt + openExecutionMaxAgeSeconds))
  exact (sorted.map Execution.key).nodup_iff.mpr (table.keyed.sublist (List.filter_sublist.map Execution.key))

theorem eq_of_key {table : Executions} {row other : Execution} (member : row ∈ table.rows)
    (there : other ∈ table.rows) (same : row.key = other.key) : row = other :=
  List.inj_on_of_nodup_map table.keyed member there same

theorem mem_upsert {table : Executions} {row other : Execution} (member : other ∈ (table.upsert row).rows) :
    other = row ∨ other ∈ table.rows := by
  rcases List.mem_append.mp member with old | new
  · exact .inr (List.mem_filter.mp old).1
  · exact .inl (List.mem_singleton.mp new)

theorem mem_recorded {table : Executions} {rows : List Execution} {row : Execution}
    (member : row ∈ (table.recordRdstExecutions rows).rows) : row ∈ rows ∨ row ∈ table.rows := by
  have folded : ∀ (more : List Execution) (table : Executions), row ∈ (more.foldl upsert table).rows →
      row ∈ more ∨ row ∈ table.rows := by
    intro more
    induction more with
    | nil => exact fun _ there => .inr there
    | cons first rest ih =>
      intro table there
      rcases ih (table.upsert first) there with later | before
      · exact .inl (List.mem_cons_of_mem first later)
      · rcases mem_upsert before with rfl | old
        · exact .inl List.mem_cons_self
        · exact .inr old
  rcases folded _ table member with new | old
  · exact .inl (List.mem_filter.mp new).1
  · exact .inr old

theorem mem_pruned {table : Executions} {cutoff now : ℚ} {row : Execution}
    (member : row ∈ (table.pruneRdstExecutions cutoff now).rows) :
    ∃ old ∈ table.rows, row.key = old.key ∧ row.startedAt = old.startedAt := by
  obtain ⟨old, there, rfl⟩ := List.mem_map.mp (List.mem_filter.mp member).1
  exact ⟨old, there, closed_key now old, closed_startedAt now old⟩

end Executions

end Rdst.Observation.SelfTraffic
