import Mathlib.Logic.Function.Basic
import Rdst.Lib.Run
import Rdst.Reports.Store

namespace Rdst.Reports

open RowTable Machine

variable {Report : Type*}

/-- How far the task of a run has come. -/
inductive Stage
  | waiting
  | starting
  | opening
  | registered
  | working
  | finished
  | handling
  | over
deriving DecidableEq

/-- The task of a run. -/
structure Task (Report : Type*) where
  stage : Stage
  /-- The store write that the task waits for. -/
  awaited : Option (Update Report)
  /-- Writes whose waiting was cancelled while a worker thread was at them. -/
  loose : List (Update Report)
  /-- The id is in `_cancel_requested`. -/
  cancelRequested : Bool
deriving DecidableEq

def Task.gone : Task Report := ⟨.over, none, [], false⟩

def Task.claimed (scheduled : Bool) : Task Report := ⟨if scheduled then .waiting else .starting, none, [], false⟩

/-- The updates of a run that leave its state. -/
inductive Note
  | selected (keys : List String)
  | analyzing (ready total : Nat)
  | writing (total : Nat)

def Note.update : Note → Update Report
  | .selected keys => { Update.empty with top := some keys }
  | .analyzing ready total =>
    { (Update.empty : Update Report) with
      progress := some (.count s!"Analyzing top queries, {ready} of {total}" ready total) }
  | .writing total => { Update.empty with progress := some (.count "Writing report" total total) }

def periodUpdate (period : Int × Int) : Update Report := { Update.empty with period := some period }

def signedOutUpdate (now : Int) : Update Report :=
  { (Update.empty : Update Report) with
    state := some .cancelled
    finishedAt := some now
    progress := some (.error "signed out") }

def finalUpdate (report : Report) (provisional : Bool) (calls total : Nat) (now : Int) : Update Report :=
  { (Update.empty : Update Report) with
    report := some report
    provisional := provisional
    state := some .done
    finishedAt := some now
    billableCalls := calls
    progress := some (.count "Report ready" total total) }

/-- What the handler of `CancelledError` writes. -/
def interruptedUpdate (cancelled : Bool) (now : Int) : Update Report :=
  { (Update.empty : Update Report) with
    state := some (if cancelled then .cancelled else .failed)
    finishedAt := some now
    progress := some (.count (if cancelled then "Report cancelled" else "Report interrupted") 0 0) }

/-- What the handler of any other exception writes. -/
def failedUpdate (now : Int) : Update Report :=
  { (Update.empty : Update Report) with
    state := some .failed
    finishedAt := some now
    progress := some (.count "Report failed" 0 0) }

/-- The writes that can still reach the store. -/
def Task.inFlight (t : Task Report) : List (Update Report) := t.awaited.toList ++ t.loose

def Task.issue (t : Task Report) (stage : Stage) (u : Update Report) : Task Report :=
  { t with
    stage := stage
    awaited := some u }

/-- Stop waiting for a write: where a thread was at it, the thread goes on. -/
def Task.letGo (t : Task Report) (begun : Bool) : Task Report :=
  { t with
    awaited := none
    loose := if begun then t.awaited.toList ++ t.loose else t.loose }

def Task.leave (t : Task Report) : Task Report := { t with stage := .over }

/-- A cancellation of the task at the point where it waits. -/
def Task.interrupt (t : Task Report) (begun : Bool) (now : Int) : Task Report :=
  match t.stage with
  | .working | .finished => (t.letGo begun).issue .handling (interruptedUpdate t.cancelRequested now)
  | _ => (t.letGo begun).leave

/-- Another exception, in a task that waits for no write or whose write was refused. -/
def Task.fail (t : Task Report) (now : Int) : Task Report :=
  match t.stage with
  | .working | .finished => { t with awaited := none }.issue .handling (failedUpdate now)
  | _ => { t with awaited := none }.leave

/-- The rows and the task of each run. -/
structure World (Report : Type*) where
  rows : Table (ReportRow Report)
  task : Nat → Task Report

/-- Nothing at work, whatever was stored before. -/
def World.idle (rows : Table (ReportRow Report)) : World Report := ⟨rows, fun _ => .gone⟩

inductive Step (Report : Type*)
  /-- `claim_report` and the task of the run it starts, scheduled to wait for a slot or not. -/
  | claim (target : String) (trigger : Trigger) (now : Int) (periodStart : Option Int) (scheduled : Bool)
  /-- The heartbeat of a run that waits for a slot. -/
  | touch (id : Nat) (now : Int)
  /-- Its last heartbeat, in the slot. -/
  | slot (id : Nat) (now : Int)
  | signedOut (id : Nat) (now : Int)
  | openPeriod (id : Nat) (period : Int × Int)
  /-- The task is in `_running` from here on, and in the part whose exceptions are handled from `enter` on. -/
  | register (id : Nat)
  | enter (id : Nat)
  | note (id : Nat) (n : Note)
  | finish (id : Nat) (report : Report) (provisional : Bool) (calls total : Nat) (now : Int)
  /-- The awaited write reaches the store. -/
  | land (id : Nat) (now : Int)
  /-- A write reaches it that nothing awaits. -/
  | landLoose (id index : Nat) (now : Int)
  | interrupt (id : Nat) (begun : Bool) (now : Int)
  /-- An exception, of the awaited write or of other code. -/
  | fail (id : Nat) (now : Int)
  | leave (id : Nat)
  /-- The part of `request_cancel` in the process of the task, and the store's part in any process. -/
  | requestCancel (id : Nat)
  | cancelReport (id : Nat) (now : Int)
  | recover (now : Int)
  /-- The end of the process of the task. -/
  | crash (id : Nat)

def World.set (w : World Report) (id : Nat) (t : Task Report) : World Report :=
  { w with task := Function.update w.task id t }

/-- Raises, and changes nothing, where the row is not found. -/
def World.write (w : World Report) (id : Nat) (u : Update Report) (now : Int) : World Report :=
  { w with rows := (updateReport w.rows id u now).getD w.rows }

def step (w : World Report) : Step Report → World Report
  | .claim target trigger now periodStart scheduled =>
    let result := claimReport w.rows target trigger now periodStart
    if result.2.2 then { w with rows := result.1 }.set result.2.1 (.claimed scheduled) else { w with rows := result.1 }
  | .touch id now =>
    if (w.task id).stage = .waiting then
      let result := touchReport w.rows id now
      if result.2 then { w with rows := result.1 } else { w with rows := result.1 }.set id (w.task id).leave
    else w
  | .slot id now =>
    if (w.task id).stage = .waiting then
      let result := touchReport w.rows id now
      if result.2 then { w with rows := result.1 }.set id { w.task id with stage := .starting }
      else { w with rows := result.1 }.set id (w.task id).leave
    else w
  | .signedOut id now =>
    if (w.task id).stage = .starting ∧ (w.rows.lookup id).any (fun row => row.trigger = .nightly) then
      w.set id ((w.task id).issue .handling (signedOutUpdate now))
    else w
  | .openPeriod id period =>
    if (w.task id).stage = .starting then w.set id ((w.task id).issue .opening (periodUpdate period)) else w
  | .register id =>
    if (w.task id).stage = .opening ∧ (w.task id).awaited = none then
      w.set id { w.task id with stage := .registered }
    else w
  | .enter id => if (w.task id).stage = .registered then w.set id { w.task id with stage := .working } else w
  | .note id n =>
    if (w.task id).stage = .working ∧ (w.task id).awaited = none then
      w.set id ((w.task id).issue .working n.update)
    else w
  | .finish id report provisional calls total now =>
    if (w.task id).stage = .working ∧ (w.task id).awaited = none then
      w.set id ((w.task id).issue .finished (finalUpdate report provisional calls total now))
    else w
  | .land id now =>
    match (w.task id).awaited with
    | some u => (w.write id u now).set id { w.task id with awaited := none }
    | none => w
  | .landLoose id index now =>
    match (w.task id).loose[index]? with
    | some u => (w.write id u now).set id { w.task id with loose := (w.task id).loose.eraseIdx index }
    | none => w
  | .interrupt id begun now =>
    if (w.task id).stage ≠ .over then w.set id ((w.task id).interrupt begun now) else w
  | .fail id now => if (w.task id).stage ≠ .over then w.set id ((w.task id).fail now) else w
  | .leave id =>
    if ((w.task id).stage = .finished ∨ (w.task id).stage = .handling) ∧ (w.task id).awaited = none then
      w.set id (w.task id).leave
    else w
  | .requestCancel id =>
    if (w.task id).stage ∈ [.registered, .working, .finished, .handling] then
      w.set id { w.task id with cancelRequested := true }
    else w
  | .cancelReport id now => { w with rows := (cancelReport w.rows id now).1 }
  | .recover now => { w with rows := recoverReports w.rows now }
  | .crash id => w.set id .gone

/-- The task has code before it, or a write on its way, that can change the state of its row. -/
def Task.canWrite (t : Task Report) : Prop :=
  t.stage ∈ [.starting, .opening, .registered, .working, .finished] ∨ t.inFlight ≠ []

/-- A run as the other runs of its target see it. -/
structure Run (Report : Type*) where
  state : ReportState
  task : Task Report

def World.target (w : World Report) (id : Nat) : Option String := (w.rows.lookup id).map ReportRow.target

def World.run (w : World Report) (id : Nat) : Option (Run Report) :=
  (w.rows.lookup id).map fun row => ⟨row.state, w.task id⟩

def World.Stopped (w : World Report) (id : Nat) : Prop := ∃ r, w.run id = some r ∧ r.state.stopped = true

/-- A stopped run of a target can still overwrite its result when a newer run of the target has been started. -/
def World.Overwrites (w : World Report) : Prop :=
  ∃ id later, id < later ∧ w.run later ≠ none ∧ w.target id = w.target later ∧ w.Stopped id ∧ (w.task id).canWrite

/-- The write, where it says done, comes upon a running row, as those of `touch_report` and `cancel_report` must. -/
def Welcome (w : World Report) (id : Nat) (u : Update Report) : Prop :=
  u.state = some .done → ∀ row ∈ w.rows.lookup id, row.state = .running

/-- Every final write comes upon a running row, and a run is started only where those of its target that were stopped
have come to their end. -/
def Sound (w : World Report) : Step Report → Prop
  | .land id _ => ∀ u ∈ (w.task id).awaited, Welcome w id u
  | .landLoose id index _ => ∀ u ∈ (w.task id).loose[index]?, Welcome w id u
  | .claim target _ now periodStart _ =>
    w.rows.last (ReportRow.isRunning target) = none → w.rows.last (ReportRow.answers target now periodStart) = none →
      ∀ row ∈ w.rows.rows, row.2.target = target → row.2.state.stopped = true → ¬ (w.task row.1).canWrite
  | _ => True

instance (w : World Report) (id : Nat) (u : Update Report) : Decidable (Welcome w id u) :=
  inferInstanceAs (Decidable (u.state = some .done → ∀ row ∈ w.rows.lookup id, row.state = .running))

instance (t : Task Report) : Decidable t.canWrite :=
  decidable_of_iff (t.stage ∈ [.starting, .opening, .registered, .working, .finished] ∨ t.inFlight.isEmpty = false) (by
    simp [Task.canWrite])

instance [DecidableEq Report] (w : World Report) (s : Step Report) : Decidable (Sound w s) := by
  cases s <;> unfold Sound <;> infer_instance

end Rdst.Reports
