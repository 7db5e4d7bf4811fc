import Mathlib.Algebra.Group.Prod
import Rdst.Series.CompleteRows

namespace Rdst.Series

open Assoc Buckets Totals

structure StmtRow where
  queryKey : String
  ts : Nat
  res : Nat
  calls : Int
  totalMs : ℚ
  tempBlks : Int
deriving DecidableEq

def stmtFields (row : Sigma fun _ : RowKey => Counters) : StmtRow :=
  ⟨row.1.queryKey, row.1.bucketStart, row.1.res, row.2.calls, row.2.totalMs, row.2.tempBlks⟩

/-- `complete_rows` of the statement rows. -/
def completeRows (h : History) (w : Window) : List StmtRow :=
  ((selected h w).map stmtFields).mergeSort fun a b => a.ts ≤ b.ts

/-- The key, time and width that a row is summed under. -/
def stepKey (step : Nat) (row : StmtRow) : String × Nat × Nat :=
  (row.queryKey, if row.res ≤ step then row.ts / step * step else row.ts, if row.res ≤ step then step else row.res)

def sumGroup (group : (String × Nat × Nat) × List StmtRow) : StmtRow where
  queryKey := group.1.1
  ts := group.1.2.1
  res := group.1.2.2
  calls := (group.2.map StmtRow.calls).sum
  totalMs := (group.2.map StmtRow.totalMs).sum
  tempBlks := (group.2.map StmtRow.tempBlks).sum

def stepped (h : History) (w : Window) (step : Nat) : List StmtRow :=
  ((grouped (stepKey step) ((selected h w).map stmtFields)).map sumGroup).mergeSort fun a b =>
    a.ts < b.ts || (a.ts = b.ts && a.queryKey ≤ b.queryKey)

/-- `stmt_rows`, without `chart`. -/
def stmtRows (h : History) (w : Window) : List StmtRow :=
  match w.step with
  | none => completeRows h w
  | some step => stepped h w step

/-- The recorded calls and execution time of each query; the step of the window is not read. -/
def stmtTotals (h : History) (w : Window) : List (String × Int × ℚ) :=
  (grouped StmtRow.queryKey ((selected h { w with step := none }).map stmtFields)).map fun group =>
    (group.1, (group.2.map StmtRow.calls).sum, (group.2.map StmtRow.totalMs).sum)

section Sums

variable {h : History} {w : Window} {queryKey : String}

/-- Neither the grouping nor the order of the rows changes what the rows of an identity add up to. -/
theorem total_stepped {M : Type*} [AddCommMonoid M] (column : StmtRow → M) (step : Nat) (queryKey : String)
    (summed : ∀ group, column (sumGroup group) = (group.2.map column).sum) :
    total column (fun row => row.queryKey = queryKey) (stepped h w step) =
      total column (fun row => row.queryKey = queryKey) ((selected h w).map stmtFields) := by
  unfold stepped
  rw [total_perm (List.mergeSort_perm _ _), total_map]
  simp only [summed]
  exact sum_grouped fun name : String × Nat × Nat => name.1 = queryKey

theorem total_stmtRows {M : Type*} [AddCommMonoid M] (column : StmtRow → M)
    (summed : ∀ group, column (sumGroup group) = (group.2.map column).sum) :
    total column (fun row => row.queryKey = queryKey) (stmtRows h w) =
      total (fun row => column (stmtFields row)) (fun row => row.1.queryKey = queryKey) (selected h w) := by
  unfold stmtRows
  split
  · unfold completeRows
    rw [total_perm (List.mergeSort_perm _ _), total_map]
    rfl
  · rw [total_stepped column _ queryKey summed, total_map]
    rfl

theorem sum_pair (rows : List StmtRow) :
    ((rows.map StmtRow.calls).sum, (rows.map StmtRow.totalMs).sum) =
      (rows.map fun row => (row.calls, row.totalMs)).sum := by
  induction rows with
  | nil => rfl
  | cons row rest ih => simp only [List.map_cons, List.sum_cons, ← ih, Prod.mk_add_mk]

theorem total_stmtTotals (whole : w.step = none) :
    total Prod.snd (fun row => row.1 = queryKey) (stmtTotals h w) =
      total (fun row => (row.2.calls, row.2.totalMs)) (fun row => row.1.queryKey = queryKey) (selected h w) := by
  have same : { w with step := none } = w := by
    cases w
    simp_all
  unfold stmtTotals
  rw [same, total_map]
  simp only [sum_pair]
  have ungrouped : total (fun group : String × List StmtRow => (group.2.map fun row => (row.calls, row.totalMs)).sum)
      (fun group => group.1 = queryKey) (grouped StmtRow.queryKey ((selected h w).map stmtFields)) =
        total (fun row => (row.calls, row.totalMs)) (fun row => row.queryKey = queryKey)
          ((selected h w).map stmtFields) := sum_grouped fun name => name = queryKey
  exact ungrouped.trans (total_map _ _)

def callsColumn : Counters →+ Int := ⟨⟨Counters.calls, rfl⟩, fun _ _ => rfl⟩

def totalMsColumn : Counters →+ ℚ := ⟨⟨Counters.totalMs, rfl⟩, fun _ _ => rfl⟩

end Sums

/-- The rows of a read account for the readings of its window. -/
structure Accounted (h : History) (w : Window) : Prop where
  apart : (selected h w).Pairwise fun a b => a.1.queryKey = b.1.queryKey →
    ∀ time, ¬ (a.1.Spans time ∧ b.1.Spans time)
  once : ∀ reading ∈ h.readings, w.asks reading.queryKey = true → w.Inside reading →
    cover (fun row : Sigma fun _ : RowKey => Counters => row.1.Holds) (selected h w) reading = 1
  calls : ∀ queryKey, w.asks queryKey = true →
    total StmtRow.calls (fun row => row.queryKey = queryKey) (stmtRows h w) =
      total (fun reading => reading.counters.calls)
        (fun reading => reading.queryKey = queryKey ∧ w.Inside reading) h.readings
  totalMs : ∀ queryKey, w.asks queryKey = true →
    total StmtRow.totalMs (fun row => row.queryKey = queryKey) (stmtRows h w) =
      total (fun reading => reading.counters.totalMs)
        (fun reading => reading.queryKey = queryKey ∧ w.Inside reading) h.readings
  totals : w.step = none → ∀ queryKey, w.asks queryKey = true →
    total Prod.snd (fun row => row.1 = queryKey) (stmtTotals h w) =
      total (fun reading => (reading.counters.calls, reading.counters.totalMs))
        (fun reading => reading.queryKey = queryKey ∧ w.Inside reading) h.readings

/-- A reading with rows is reached where no bucket lost its finer row and kept others. -/
theorem reached_of_unbroken {h : History} {w : Window} {reading : Reading}
    (there : ∃ row, Counts h row ∧ row.Holds reading)
    (unbroken : ∀ row, Counts h row → row.Holds reading → kept h row = true →
      ∃ fine, Counts h fine ∧ fine.res < row.res ∧ fine.Holds reading) : Reached h w reading := by
  obtain ⟨row, counts, held⟩ := there
  induction size : row.res using Nat.strong_induction_on generalizing row with
  | _ size ih =>
    subst size
    by_cases inner : kept h row = true
    · obtain ⟨fine, fineCounts, finer, fineHeld⟩ := unbroken row counts held inner
      exact ih _ finer fine fineCounts fineHeld rfl
    · exact ⟨row, counts, held, .inl (Bool.eq_false_iff.mpr inner)⟩

/-- Every read with no row across an edge of its window accounts for the readings that are reached, and for them only. -/
theorem accounted_iff (h : History) (w : Window) (within : ∀ row ∈ selected h w, w.Surrounds row.1) :
    Accounted h w ↔
      ∀ reading ∈ h.readings, w.asks reading.queryKey = true → w.Inside reading → Reached h w reading := by
  constructor
  · intro accounted reading member asked window
    have once := accounted.once reading member asked window
    exact (held_iff asked window).mp (cover_pos_iff.mp (by rw [once]; exact Nat.one_pos))
  · intro reached
    exact {
      apart := selected_apart
      once := by
        intro reading member asked window
        have apart : (selected h w).Pairwise fun a b => ∀ r, ¬ (a.1.Holds r ∧ b.1.Holds r) := by
          apply selected_apart.imp
          intro a b apart r both
          exact apart (both.1.key.symm.trans both.2.key) r.ts ⟨both.1.spans, both.2.spans⟩
        exact (cover_eq_one_iff apart).mpr ((held_iff asked window).mpr (reached reading member asked window))
      calls := by
        intro queryKey asked
        rw [total_stmtRows StmtRow.calls fun _ => rfl]
        exact sum_selected callsColumn within reached asked
      totalMs := by
        intro queryKey asked
        rw [total_stmtRows StmtRow.totalMs fun _ => rfl]
        exact sum_selected totalMsColumn within reached asked
      totals := by
        intro whole queryKey asked
        rw [total_stmtTotals whole]
        exact sum_selected (callsColumn.prod totalMsColumn) within reached asked }

/-- An hour of readings whose first six five-minute rows were pruned, as a batch over all identities leaves it. -/
def halfPruned : History where
  readings := (List.range 12).map fun i => ⟨"orders", 300 * i, ⟨1, 2, 0, 0, 0, 0⟩⟩
  series := ⟨⟨⟨"orders", 3600, 0⟩, ⟨12, 24, 0, 0, 0, 0⟩⟩ ::
    (List.range 6).map fun i => ⟨⟨"orders", 300, 1800 + 300 * i⟩, ⟨1, 2, 0, 0, 0, 0⟩⟩, by unfold List.NodupKeys; decide +kernel⟩
  minuteMark := some 3600
  aligned := by decide +kernel
  summed := by decide +kernel

theorem accounted_iff_hour : Accounted halfPruned ⟨0, 3600, none, some 3600⟩ :=
  (accounted_iff _ _ (by decide +kernel)).mpr fun reading member _ _ =>
    ⟨⟨"orders", 3600, 0⟩, by decide +kernel, by revert reading; decide +kernel, .inr (by decide +kernel)⟩

theorem pruned_half_is_lost : (∀ row ∈ selected halfPruned ⟨0, 3600, none, some 300⟩,
    (⟨0, 3600, none, some 300⟩ : Window).Surrounds row.1) ∧
      ¬ Accounted halfPruned ⟨0, 3600, none, some 300⟩ := by
  constructor
  · decide +kernel
  · intro accounted
    have once := accounted.once ⟨"orders", 0, ⟨1, 2, 0, 0, 0, 0⟩⟩ (by decide +kernel) (by decide +kernel) (by decide +kernel)
    revert once
    decide +kernel

end Rdst.Series
