import Rdst.Lib.RowTable

namespace Rdst.Reports

open RowTable

inductive Trigger
  | nightly
  | user
deriving DecidableEq

inductive ReportState
  | running
  | done
  | failed
  | cancelled
deriving DecidableEq

/-- What `progress_json` says. -/
inductive Progress
  | count (message : String) (done total : Nat)
  | error (text : String)
deriving DecidableEq

/-- A row of `report_run`, with what its report says left open. -/
structure ReportRow (Report : Type*) where
  target : String
  ts : Int
  trigger : Trigger
  state : ReportState
  top : Option (List String)
  report : Option Report
  provisional : Bool
  progress : Option Progress
  finishedAt : Option Int
  heartbeatAt : Option Int
  billableCalls : Nat
  periodStart : Option Int
  periodEnd : Option Int
  sample : Bool
deriving DecidableEq

/-- The arguments of `update_report` after the id. -/
structure Update (Report : Type*) where
  progress : Option Progress
  top : Option (List String)
  report : Option Report
  provisional : Bool
  state : Option ReportState
  finishedAt : Option Int
  billableCalls : Nat
  period : Option (Int × Int)
deriving DecidableEq

variable {Report : Type*}

/-- A call that leaves every argument out. -/
def Update.empty : Update Report := ⟨none, none, none, false, none, none, 0, none⟩

/-- Cancelled or failed. -/
def ReportState.stopped : ReportState → Bool
  | .failed | .cancelled => true
  | .running | .done => false

def ReportRow.started (target : String) (trigger : Trigger) (now : Int) (periodStart : Option Int) : ReportRow Report where
  target := target
  ts := now
  trigger := trigger
  state := .running
  top := none
  report := none
  provisional := false
  progress := some (.count "Selecting top queries" 0 0)
  finishedAt := none
  heartbeatAt := some now
  billableCalls := 0
  periodStart := periodStart
  periodEnd := none
  sample := false

def ReportRow.isRunning (target : String) (row : ReportRow Report) : Bool :=
  row.target = target && row.state = .running

/-- A finished run that answers a request for the period. -/
def ReportRow.answers (target : String) (now : Int) (periodStart : Option Int) (row : ReportRow Report) : Bool :=
  row.target = target && row.state = .done && !row.sample && decide (row.finishedAt.getD row.ts > now - 900) &&
    (periodStart.isNone || row.periodStart = periodStart)

/-- Answers the id of the run and whether this call started it. -/
def claimReport (t : Table (ReportRow Report)) (target : String) (trigger : Trigger) (now : Int)
    (periodStart : Option Int) : Table (ReportRow Report) × Nat × Bool :=
  match t.last (ReportRow.isRunning target) with
  | some row => (t, row.1, false)
  | none =>
    match t.last (ReportRow.answers target now periodStart) with
    | some row => (t, row.1, false)
    | none => (t.insert (.started target trigger now periodStart), t.nextId, true)

/-- What one `update_report` makes of its row at the time `now`. -/
def ReportRow.updated (now : Int) (u : Update Report) (row : ReportRow Report) : ReportRow Report :=
  { row with
    state := u.state.getD row.state
    top := u.top.or row.top
    report := u.report.or row.report
    provisional := if u.report.isSome then u.provisional else row.provisional
    progress := u.progress.or row.progress
    finishedAt := u.finishedAt.or row.finishedAt
    heartbeatAt := some now
    billableCalls := row.billableCalls + u.billableCalls
    periodStart := if let some period := u.period then some period.1 else row.periodStart
    periodEnd := if let some period := u.period then some period.2 else row.periodEnd }

/-- A change of the row with the id. -/
def change (t : Table (ReportRow Report)) (id : Nat) (f : ReportRow Report → ReportRow Report) :
    Table (ReportRow Report) :=
  t.update fun other row => if other = id then f row else row

/-- None where the row is not found, which the code raises. -/
def updateReport (t : Table (ReportRow Report)) (id : Nat) (u : Update Report) (now : Int) :
    Option (Table (ReportRow Report)) :=
  (t.lookup id).map fun _ => change t id (.updated now u)

def ReportRow.touched (now : Int) (row : ReportRow Report) : ReportRow Report :=
  if row.state = .running then { row with heartbeatAt := some now } else row

def touchReport (t : Table (ReportRow Report)) (id : Nat) (now : Int) : Table (ReportRow Report) × Bool :=
  (change t id (.touched now), (t.lookup id).any fun row => row.state = .running)

def ReportRow.cancelled (now : Int) (row : ReportRow Report) : ReportRow Report :=
  if row.state = .running then
    { row with
      state := .cancelled
      finishedAt := some now
      progress := some (.count "Report cancelled" 0 0) }
  else row

def cancelReport (t : Table (ReportRow Report)) (id : Nat) (now : Int) :
    Table (ReportRow Report) × Option (ReportRow Report) :=
  (change t id (.cancelled now), (t.lookup id).map (.cancelled now))

def staleSeconds : Int := 900

def ReportRow.recovered (now : Int) (row : ReportRow Report) : ReportRow Report :=
  if row.state = .running ∧ row.heartbeatAt.getD row.ts < now - staleSeconds then { row with state := .failed } else row

def recoverReports (t : Table (ReportRow Report)) (now : Int) : Table (ReportRow Report) :=
  t.update fun _ => .recovered now

@[simp] theorem ReportRow.updated_target (now : Int) (u : Update Report) (row : ReportRow Report) :
    (row.updated now u).target = row.target := rfl

@[simp] theorem ReportRow.updated_state (now : Int) (u : Update Report) (row : ReportRow Report) :
    (row.updated now u).state = u.state.getD row.state := rfl

@[simp] theorem ReportRow.touched_target (now : Int) (row : ReportRow Report) :
    (row.touched now).target = row.target := by
  unfold touched
  split <;> rfl

@[simp] theorem ReportRow.touched_state (now : Int) (row : ReportRow Report) :
    (row.touched now).state = row.state := by
  unfold touched
  split <;> rfl

@[simp] theorem ReportRow.cancelled_target (now : Int) (row : ReportRow Report) :
    (row.cancelled now).target = row.target := by
  unfold cancelled
  split <;> rfl

theorem ReportRow.cancelled_state (now : Int) (row : ReportRow Report) :
    (row.cancelled now).state = if row.state = .running then .cancelled else row.state := by
  unfold cancelled
  split <;> rfl

@[simp] theorem ReportRow.recovered_target (now : Int) (row : ReportRow Report) :
    (row.recovered now).target = row.target := by
  unfold recovered
  split <;> rfl

/-- A recovery fails a running row or leaves its state. -/
theorem ReportRow.recovered_state (now : Int) (row : ReportRow Report) :
    (row.recovered now).state = row.state ∨ row.state = .running ∧ (row.recovered now).state = .failed := by
  unfold recovered
  split
  next stale => exact .inr ⟨stale.1, rfl⟩
  next => exact .inl rfl

@[simp] theorem lookup_change (t : Table (ReportRow Report)) (id other : Nat) (f : ReportRow Report → ReportRow Report) :
    (change t id f).lookup other = (t.lookup other).map fun row => if other = id then f row else row := by
  rw [change, Table.lookup_update]

theorem claimReport_spec (t : Table (ReportRow Report)) (target : String) (trigger : Trigger) (now : Int)
    (periodStart : Option Int) :
    (claimReport t target trigger now periodStart).1 = t ∧ (claimReport t target trigger now periodStart).2.2 = false ∨
      t.last (ReportRow.isRunning target) = none ∧ t.last (ReportRow.answers target now periodStart) = none ∧
        claimReport t target trigger now periodStart =
          (t.insert (.started target trigger now periodStart), t.nextId, true) := by
  unfold claimReport
  split
  next => exact .inl ⟨rfl, rfl⟩
  next quiet =>
    split
    next => exact .inl ⟨rfl, rfl⟩
    next unanswered => exact .inr ⟨quiet, unanswered, rfl⟩

/-- A claim starts a run only where none of its target is running. -/
theorem not_running {t : Table (ReportRow Report)} {target : String} (quiet : t.last (ReportRow.isRunning target) = none)
    {id : Nat} {row : ReportRow Report} (found : t.lookup id = some row) (same : row.target = target) :
    row.state ≠ .running := by
  intro running
  have := t.last_none.mp quiet id row found
  simp [ReportRow.isRunning, same, running] at this

end Rdst.Reports
