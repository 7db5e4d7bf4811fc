import Mathlib.Data.List.Basic
import Rdst.Lib.Run
import Rdst.Reports.Runs

namespace Rdst.Reports

open RowTable Machine

/-- A report as far as the retries of its narrative go. -/
structure StoredReport (Narrative : Type*) where
  narrative : Narrative
  provisionalQueryKeys : List String
  narrativeError : Option String
  narrativeRetryAt : Option Int
  narrativeRetryCount : Nat
deriving DecidableEq

variable {Narrative : Type*}

def narrativeRetryLimit : Nat := 4

def narrativeRetryWindowSeconds : Int := 86400

/-- The report of `run_report`. -/
def StoredReport.written (narrative : Narrative) (keys : List String) (error : Option String) (now : Int) :
    StoredReport Narrative where
  narrative := narrative
  provisionalQueryKeys := keys
  narrativeError := error
  narrativeRetryAt := if error.any (· ≠ "") then some (now + 900) else none
  narrativeRetryCount := 0

/-- Whether `_plan` retries the narrative. -/
def StoredReport.due (now : Int) (report : StoredReport Narrative) : Bool :=
  report.narrativeError.any (· ≠ "") && decide (report.narrativeRetryCount < narrativeRetryLimit) &&
    decide (report.narrativeRetryAt.getD 0 ≤ now)

def StoredReport.postponed (now : Int) (report : StoredReport Narrative) : StoredReport Narrative :=
  { report with narrativeRetryAt := some (now + 900) }

def StoredReport.narrated (narrative : Narrative) (report : StoredReport Narrative) : StoredReport Narrative :=
  { report with
    narrative := narrative
    narrativeError := none
    narrativeRetryAt := none }

def StoredReport.failedAgain (error : String) (report : StoredReport Narrative) : StoredReport Narrative :=
  { report with
    narrativeError := some error
    narrativeRetryCount := report.narrativeRetryCount + 1 }

/-- A row that a planning pass has read and not come to yet. -/
structure Reading (Narrative : Type*) where
  reportId : Nat
  target : String
  report : StoredReport Narrative
  provisional : Bool
  now : Int
deriving DecidableEq

inductive RetryStage
  | waiting
  | calling
  | filing
deriving DecidableEq

/-- A retry with its copy of the report as it last wrote it. -/
structure Retry (Narrative : Type*) where
  number : Nat
  reportId : Nat
  target : String
  report : StoredReport Narrative
  stage : RetryStage
  billableCalls : Nat
deriving DecidableEq

/-- The rows, the passes of `_plan` under way and the retries that were launched, numbered in the order of their planning. -/
structure Desk (Narrative : Type*) where
  rows : Table (ReportRow (StoredReport Narrative))
  reading : List (Reading Narrative)
  retries : List (Retry Narrative)
  planned : Nat

def Desk.empty : Desk Narrative := ⟨Table.empty, [], [], 0⟩

inductive RetryStep (Narrative : Type*)
  /-- The final write of a run. -/
  | written (target : String) (trigger : Trigger) (now : Int) (periodStart : Option Int) (narrative : Narrative)
      (keys : List String) (error : Option String) (calls total : Nat)
  /-- A run that fails after that. -/
  | runFails (id : Nat) (now : Int)
  | read (now : Int)
  | plan (index : Nat) (paused : Bool) (time : Int)
  | call (index : Nat) (paused : Bool)
  | succeed (index : Nat) (narrative : Narrative) (calls : Nat) (time : Int)
  /-- An exception in or after the call, whose failed write is `recorded` or raises in its turn. -/
  | fail (index : Nat) (got : Option Narrative) (error : String) (calls : Nat) (recorded : Bool) (time : Int)
  | filed (index : Nat)
  | filingFails (index : Nat) (error : String) (recorded : Bool) (time : Int)
  /-- The end of the process that the pass or the retry runs in. -/
  | loseReading (index : Nat)
  | loseRetry (index : Nat)

inductive RetryEvent
  | succeeded (reportId number : Nat)
  | failed (reportId number : Nat)
deriving DecidableEq

/-- The row of a run after its final write. -/
def reportRow (target : String) (trigger : Trigger) (now : Int) (periodStart : Option Int)
    (report : StoredReport Narrative) (calls total : Nat) : ReportRow (StoredReport Narrative) :=
  (ReportRow.started target trigger now periodStart).updated now
    (finalUpdate report (!report.provisionalQueryKeys.isEmpty) calls total now)

/-- The update with a whole report. -/
def Desk.write (d : Desk Narrative) (id : Nat) (report : StoredReport Narrative) (provisional : Bool) (calls : Nat)
    (time : Int) : Desk Narrative :=
  let u : Update (StoredReport Narrative) :=
    { (Update.empty : Update (StoredReport Narrative)) with
      report := some report
      provisional := provisional
      billableCalls := calls }
  { d with rows := (updateReport d.rows id u time).getD d.rows }

section Planning

/- Whether the text of a report holds `narrative_retry_at`. -/
variable (mentions : StoredReport Narrative → Bool)

def readable (now : Int) (row : Nat × ReportRow (StoredReport Narrative)) : Option (Reading Narrative) :=
  row.2.report.bind fun report =>
    if row.2.state = .done ∧ row.2.ts ≥ now - narrativeRetryWindowSeconds ∧ mentions report = true then
      some ⟨row.1, row.2.target, report, row.2.provisional, now⟩
    else none

def Desk.plan (d : Desk Narrative) (index : Nat) (e : Reading Narrative) (paused : Bool) (time : Int) :
    Desk Narrative :=
  let rest := { d with reading := d.reading.eraseIdx index }
  if paused = false ∧ e.report.due e.now = true then
    { rest.write e.reportId (e.report.postponed e.now) e.provisional 0 time with
      retries := d.retries ++ [⟨d.planned, e.reportId, e.target, e.report.postponed e.now, .waiting, 0⟩]
      planned := d.planned + 1 }
  else rest

/-- The handler of a retry's exceptions. -/
def Desk.handle (d : Desk Narrative) (index : Nat) (r : Retry Narrative) (report : StoredReport Narrative)
    (error : String) (calls : Nat) (recorded : Bool) (time : Int) : Desk Narrative :=
  let rest := { d with retries := d.retries.eraseIdx index }
  if recorded then
    rest.write r.reportId (report.failedAgain error) (!report.provisionalQueryKeys.isEmpty) calls time
  else rest

def retryStep (d : Desk Narrative) : RetryStep Narrative → Desk Narrative × List RetryEvent
  | .written target trigger now periodStart narrative keys error calls total =>
    let row := reportRow target trigger now periodStart (.written narrative keys error now) calls total
    ({ d with rows := d.rows.insert row }, [])
  | .runFails id now => ({ d with rows := (updateReport d.rows id (failedUpdate now) now).getD d.rows }, [])
  | .read now => ({ d with reading := d.reading ++ d.rows.rows.filterMap (readable mentions now) }, [])
  | .plan index paused time =>
    match d.reading[index]? with
    | some e => (d.plan index e paused time, [])
    | none => (d, [])
  | .call index paused =>
    match d.retries[index]? with
    | some r =>
      if r.stage = .waiting then
        if paused then ({ d with retries := d.retries.eraseIdx index }, [])
        else ({ d with retries := d.retries.set index { r with stage := .calling } }, [])
      else (d, [])
    | none => (d, [])
  | .succeed index narrative calls time =>
    match d.retries[index]? with
    | some r =>
      if r.stage = .calling then
        let report := r.report.narrated narrative
        let rest :=
          { d with
            retries := d.retries.set index { r with report := report, stage := .filing, billableCalls := calls } }
        (rest.write r.reportId report (!report.provisionalQueryKeys.isEmpty) calls time,
          [.succeeded r.reportId r.number])
      else (d, [])
    | none => (d, [])
  | .fail index got error calls recorded time =>
    match d.retries[index]? with
    | some r =>
      if r.stage = .calling then
        let report := match got with
          | some narrative => r.report.narrated narrative
          | none => r.report
        (d.handle index r report error calls recorded time, [.failed r.reportId r.number])
      else (d, [])
    | none => (d, [])
  | .filed index =>
    match d.retries[index]? with
    | some r => if r.stage = .filing then ({ d with retries := d.retries.eraseIdx index }, []) else (d, [])
    | none => (d, [])
  | .filingFails index error recorded time =>
    match d.retries[index]? with
    | some r =>
      if r.stage = .filing then
        (d.handle index r r.report error r.billableCalls recorded time, [.failed r.reportId r.number])
      else (d, [])
    | none => (d, [])
  | .loseReading index => ({ d with reading := d.reading.eraseIdx index }, [])
  | .loseRetry index => ({ d with retries := d.retries.eraseIdx index }, [])

end Planning

/-- The report of a row. -/
def Desk.report (d : Desk Narrative) (id : Nat) : Option (StoredReport Narrative) :=
  (d.rows.lookup id).bind ReportRow.report

/-- Every write of a whole report comes upon the report that its copy was taken from, and no failure goes unrecorded. -/
def UpToDate (d : Desk Narrative) : RetryStep Narrative → Prop
  | .plan index paused _ =>
    ∀ e ∈ d.reading[index]?, paused = false → e.report.due e.now = true → d.report e.reportId = some e.report
  | .succeed index _ _ _ =>
    ∀ r ∈ d.retries[index]?, r.stage = .calling → d.report r.reportId = some r.report
  | .fail index _ _ _ recorded _ =>
    ∀ r ∈ d.retries[index]?, r.stage = .calling → recorded = true ∧ d.report r.reportId = some r.report
  | .filingFails index _ recorded _ =>
    ∀ r ∈ d.retries[index]?, r.stage = .filing → recorded = true ∧ d.report r.reportId = some r.report
  | _ => True

instance [DecidableEq Narrative] (d : Desk Narrative) (s : RetryStep Narrative) : Decidable (UpToDate d s) := by
  cases s <;> unfold UpToDate <;> infer_instance

end Rdst.Reports
