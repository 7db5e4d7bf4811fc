import Mathlib.Algebra.Order.Ring.Unbundled.Rat
import Rdst.Lib.Assoc
import Rdst.Lib.Buckets
import Rdst.Lib.Totals

namespace Rdst.Series

open Assoc Buckets Totals

/-- The columns of `stmt_series` that count. `total_ms` is an exact number here. -/
@[ext] structure Counters where
  calls : Int
  totalMs : ℚ
  rows : Int
  blksHit : Int
  blksRead : Int
  tempBlks : Int
deriving DecidableEq

instance : Zero Counters := ⟨⟨0, 0, 0, 0, 0, 0⟩⟩

instance : Add Counters where
  add a b := {
    calls := a.calls + b.calls
    totalMs := a.totalMs + b.totalMs
    rows := a.rows + b.rows
    blksHit := a.blksHit + b.blksHit
    blksRead := a.blksRead + b.blksRead
    tempBlks := a.tempBlks + b.tempBlks }

section Columns

variable (a b : Counters)

@[simp] theorem add_calls : (a + b).calls = a.calls + b.calls := rfl
@[simp] theorem add_totalMs : (a + b).totalMs = a.totalMs + b.totalMs := rfl
@[simp] theorem add_rows : (a + b).rows = a.rows + b.rows := rfl
@[simp] theorem add_blksHit : (a + b).blksHit = a.blksHit + b.blksHit := rfl
@[simp] theorem add_blksRead : (a + b).blksRead = a.blksRead + b.blksRead := rfl
@[simp] theorem add_tempBlks : (a + b).tempBlks = a.tempBlks + b.tempBlks := rfl
@[simp] theorem zero_calls : (0 : Counters).calls = 0 := rfl
@[simp] theorem zero_totalMs : (0 : Counters).totalMs = 0 := rfl
@[simp] theorem zero_rows : (0 : Counters).rows = 0 := rfl
@[simp] theorem zero_blksHit : (0 : Counters).blksHit = 0 := rfl
@[simp] theorem zero_blksRead : (0 : Counters).blksRead = 0 := rfl
@[simp] theorem zero_tempBlks : (0 : Counters).tempBlks = 0 := rfl

end Columns

instance : AddCommMonoid Counters where
  add_assoc a b c := by ext <;> simp [add_assoc]
  zero_add a := by ext <;> simp
  add_zero a := by ext <;> simp
  add_comm a b := by ext <;> simp [add_comm]
  nsmul := nsmulRec

def resolutions : List Nat := [60, 300, 3600, 86400]

def retention (res : Nat) : Option Nat :=
  match res with
  | 60 => some (48 * 3600)
  | 300 => some (7 * 86400)
  | 3600 => some (90 * 86400)
  | 86400 => some (2 * 365 * 86400)
  | _ => none

theorem resolution_cases {res : Nat} (known : res ∈ resolutions) :
    res = 60 ∨ res = 300 ∨ res = 3600 ∨ res = 86400 := by
  simpa [resolutions] using known

theorem resolution_pos {res : Nat} (known : res ∈ resolutions) : 0 < res := by
  have := resolution_cases known
  omega

/-- Every resolution is made of whole buckets of the finer ones. -/
theorem resolution_dvd {fine coarse : Nat} (knownFine : fine ∈ resolutions) (knownCoarse : coarse ∈ resolutions)
    (le : fine ≤ coarse) : fine ∣ coarse := by
  rcases resolution_cases knownFine with rfl | rfl | rfl | rfl <;>
    rcases resolution_cases knownCoarse with rfl | rfl | rfl | rfl <;> omega

/-- The primary key of `stmt_series` within one target; every statement on the table names its target. -/
structure RowKey where
  queryKey : String
  res : Nat
  bucketStart : Nat
deriving DecidableEq

abbrev StmtSeries := Dict RowKey Counters

/-- What the collector read of one identity at one time. -/
structure Reading where
  queryKey : String
  ts : Nat
  counters : Counters
deriving DecidableEq

/-- A reading is filed under its minute, and the table does not know its time any closer. -/
def Reading.minute (reading : Reading) : Nat := start 60 reading.ts

/-- The row of a resolution that a reading belongs to. -/
def Reading.row (reading : Reading) (res : Nat) : RowKey := ⟨reading.queryKey, res, start res reading.ts⟩

def RowKey.Spans (row : RowKey) (time : Nat) : Prop := row.bucketStart ≤ time ∧ time < row.bucketStart + row.res

instance (row : RowKey) (time : Nat) : Decidable (row.Spans time) := inferInstanceAs (Decidable (_ ∧ _))

structure RowKey.Holds (row : RowKey) (reading : Reading) : Prop where
  key : reading.queryKey = row.queryKey
  spans : row.Spans reading.ts

instance (row : RowKey) : DecidablePred row.Holds := fun reading =>
  decidable_of_iff (reading.queryKey = row.queryKey ∧ row.Spans reading.ts)
    ⟨fun both => ⟨both.1, both.2⟩, fun held => ⟨held.key, held.spans⟩⟩

/-- A bucket begins at a multiple of its resolution. -/
structure RowKey.Aligned (row : RowKey) : Prop where
  known : row.res ∈ resolutions
  whole : row.res ∣ row.bucketStart

instance : DecidablePred RowKey.Aligned := fun row =>
  decidable_of_iff (row.res ∈ resolutions ∧ row.res ∣ row.bucketStart)
    ⟨fun both => ⟨both.1, both.2⟩, fun aligned => ⟨aligned.known, aligned.whole⟩⟩

theorem Reading.row_aligned (reading : Reading) {res : Nat} (known : res ∈ resolutions) :
    (reading.row res).Aligned := ⟨known, dvd_start⟩

/-- What the readings of a bucket add up to. -/
def recorded (readings : List Reading) (row : RowKey) : Counters := total Reading.counters row.Holds readings

section Spans

variable {row fine coarse : RowKey} {reading : Reading} {time : Nat}

theorem RowKey.Spans.start_eq (spans : row.Spans time) (aligned : row.Aligned) :
    start row.res time = row.bucketStart := Buckets.start_eq aligned.whole spans.1 spans.2

theorem spans_row (reading : Reading) {res : Nat} (known : res ∈ resolutions) : (reading.row res).Spans reading.ts :=
  ⟨start_le, lt_start_add (resolution_pos known)⟩

/-- The row of a reading is the one that holds it. -/
theorem holds_iff (aligned : row.Aligned) : row.Holds reading ↔ reading.row row.res = row := by
  obtain ⟨queryKey, res, bucketStart⟩ := row
  constructor
  · intro held
    have bucket : start res reading.ts = bucketStart := held.spans.start_eq aligned
    have key : reading.queryKey = queryKey := held.key
    rw [Reading.row, key, bucket]
  · intro same
    simp only [Reading.row, RowKey.mk.injEq, true_and] at same
    exact ⟨same.1, (mem_iff (resolution_pos aligned.known) aligned.whole).mpr same.2⟩

/-- A bucket that holds a reading holds its minute. -/
theorem RowKey.Spans.minute (spans : row.Spans reading.ts) (aligned : row.Aligned) : row.Spans reading.minute := by
  have le : 60 ≤ row.res := by
    have := resolution_cases aligned.known
    omega
  have nested : 60 ∣ row.res := resolution_dvd (by decide) aligned.known le
  apply (mem_iff (resolution_pos aligned.known) aligned.whole).mpr
  rw [Reading.minute, start_start nested]
  exact spans.start_eq aligned

/-- Of two buckets with a time in common the coarser one has the finer one inside it. -/
theorem RowKey.Spans.nested (inFine : fine.Spans time) (inCoarse : coarse.Spans time)
    (alignedFine : fine.Aligned) (alignedCoarse : coarse.Aligned) (le : fine.res ≤ coarse.res) :
    coarse.bucketStart ≤ fine.bucketStart ∧ fine.bucketStart + fine.res ≤ coarse.bucketStart + coarse.res := by
  have divides := resolution_dvd alignedFine.known alignedCoarse.known le
  rw [← inFine.start_eq alignedFine, ← inCoarse.start_eq alignedCoarse]
  exact ⟨start_le_start divides, start_add_le divides (resolution_pos alignedCoarse.known)⟩

/-- A bucket that begins in a coarser one lies inside it. -/
theorem RowKey.Spans.widen (spans : fine.Spans time) (alignedFine : fine.Aligned) (alignedCoarse : coarse.Aligned)
    (le : fine.res ≤ coarse.res) (begins : coarse.Spans fine.bucketStart) : coarse.Spans time := by
  have divides := resolution_dvd alignedFine.known alignedCoarse.known le
  apply (mem_iff (resolution_pos alignedCoarse.known) alignedCoarse.whole).mpr
  rw [← start_start divides, spans.start_eq alignedFine]
  exact begins.start_eq alignedCoarse

end Spans

end Rdst.Series
