import Mathlib.Algebra.Order.Ring.Unbundled.Rat
import Mathlib.Data.List.Infix
import Mathlib.Data.List.Sort
import Mathlib.Data.Rat.Defs
import Rdst.Lib.PyText
import Rdst.Lib.RowTable

namespace Rdst.Analysis

open RowTable

inductive Reason
  | new
  | top15Stale
  | user
  | report
deriving DecidableEq

inductive JobState
  | queued
  | running
  | done
  | failed
  | skipped
deriving DecidableEq

inductive Mode
  | analyze
  | explain
deriving DecidableEq

inductive ParamSource
  | sampled
  | tableSampled
  | none
  | estimated
deriving DecidableEq

/-- A row of `analyze_job`. -/
structure Job where
  target : String
  queryKey : String
  reason : Reason
  state : JobState
  priority : ℚ
  paramSource : Option ParamSource
  mode : Option Mode
  enqueuedAt : Int
  startedAt : Option Int
  finishedAt : Option Int
  error : Option String
  analysisRef : Option String
  owner : Option String
  attempt : Nat
  ownerHost : Option String
  ownerPid : Option Nat
  ownerStart : Option ℚ
  billableCalls : Option Nat
deriving DecidableEq

/-- A row of `query_text`. -/
structure QueryText where
  target : String
  queryKey : String
  text : String
  firstSeen : Int
  lastSeen : Int
deriving DecidableEq

/-- The tables of the store that the queue reads and writes. -/
structure Store where
  jobs : Table Job
  /-- `monitor_setting`, by target and key. -/
  settings : String → String → Option String
  /-- `db_series`: target, start and length of each bucket. -/
  dbSeries : List (String × Int × Int)
  queryText : List QueryText
  /-- The targets and keys of `query_load` and of `query_sample`. -/
  queryLoad : List (String × String)
  querySample : List (String × String)
  stuckSample : List (String × Option String)

/-- The tables of a new file. -/
def Store.new : Store := ⟨Table.empty, fun _ _ => none, [], [], [], [], []⟩

/-- What `_process_start` answers for a process id. -/
inductive ProcessStart
  | gone
  | denied
  | started (time : ℚ)
deriving DecidableEq

/-- The process that makes a call, with what its operating system knows at that moment. -/
structure Process where
  collectorProcess : String
  ownerHost : String
  pid : Nat
  start : Nat → ProcessStart
  defaultNewcomerCap : Int

/-- A worker whose machine knows of no live process but its own. -/
def lonelyWorker (name : String) (pid : Nat) : Process where
  collectorProcess := name
  ownerHost := "host"
  pid := pid
  start other := if other = pid then .started other else .gone
  defaultNewcomerCap := 100

/-- The machine's time zone: the local day that holds an instant. -/
structure Calendar where
  localDayBounds : Int → Int × Int
  holds : ∀ now, (localDayBounds now).1 ≤ now ∧ now < (localDayBounds now).2
  same_day : ∀ now later, (localDayBounds now).1 ≤ later → later < (localDayBounds now).2 →
    localDayBounds later = localDayBounds now

/-- A machine whose clock runs on UTC. -/
def Calendar.utc : Calendar where
  localDayBounds now := (now / 86400 * 86400, now / 86400 * 86400 + 86400)
  holds := by
    intro now
    constructor <;> simp only <;> omega
  same_day := by
    intro now later after before
    simp only at *
    have same : later / 86400 = now / 86400 := by omega
    rw [same]

def newcomerReasons : List Reason := [.new]

def reanalysisReasons : List Reason := [.top15Stale, .report]

def automaticReasons : List Reason := [.new, .top15Stale]

def firstHourSeconds : Int := 3600

def planAnalysisConcurrency : Nat := 3

def seriesQueries : Nat := 10000

/-- `LIKE '%needle%'`, which ignores the case of ASCII letters. -/
def like (needle : String) (text : Option String) : Bool :=
  decide (needle.toList.map Char.toLower <:+: ((text.getD "").toList.map Char.toLower))

/-- `ANALYSIS_SPENDS_CAP`. -/
def Job.spendsCap (job : Job) : Bool :=
  job.reason ≠ .user && !(job.state = .skipped || (job.state = .failed &&
    ((job.billableCalls.getD 0 = 0 && !like "timed out" job.error) ||
      like "Failed to parse LLM response" job.error)))

/-- `FIRST_HOUR_JOB`. -/
def Job.inFirstHour (hour : Int × Int) (job : Job) : Bool :=
  job.reason ∈ automaticReasons ∧ hour.1 ≤ job.enqueuedAt ∧ job.enqueuedAt < hour.2

/-- `HISTORY_BEFORE`. -/
def Store.historyBefore (s : Store) (target : String) (start : Int) : Bool :=
  s.dbSeries.any fun row => row.1 = target && decide (row.2.1 + row.2.2 < start)

/-- `first_hour_window`; the store writes the start as a plain number. -/
def firstHourWindow (s : Store) (target : String) : Int × Int :=
  let start := ((s.settings target "enabled_at").bind fun value =>
    PyText.parseInt PyText.asciiTables value.toList).getD 0
  if start = 0 ∨ s.historyBefore target start = true then (0, 0)
  else (start, start + firstHourSeconds)

/-- A job that counts against an allowance of the day. -/
def Job.startedIn (day hour : Int × Int) (target : String) (reasons : Option (List Reason)) (job : Job) : Bool :=
  job.target = target && (job.startedAt.any fun at_ => decide (day.1 ≤ at_) && decide (at_ < day.2)) &&
    job.spendsCap && !job.inFirstHour hour && reasons.all fun list => decide (job.reason ∈ list)

def startedInDay (calendar : Calendar) (s : Store) (target : String) (now : Int)
    (reasons : Option (List Reason)) : Nat :=
  s.jobs.count (Job.startedIn (calendar.localDayBounds now) (firstHourWindow s target) target reasons)

def allowanceReasons (reason : Reason) : List Reason :=
  if reason ∈ newcomerReasons then newcomerReasons else reanalysisReasons

def deadAnalysisOwner (process : Process) (job : Job) : Bool :=
  match job.ownerPid, job.ownerStart with
  | some pid, some start =>
    job.ownerHost = some process.ownerHost && match process.start pid with
      | .gone => true
      | .denied => false
      | .started time => time ≠ start
  | _, _ => false

abbrev Row := Nat × Job

def Heavier (a b : Row) : Prop :=
  b.2.priority < a.2.priority ∨ a.2.priority = b.2.priority ∧
    (a.2.enqueuedAt < b.2.enqueuedAt ∨ a.2.enqueuedAt = b.2.enqueuedAt ∧ a.1 ≤ b.1)

instance : DecidableRel Heavier := fun _ _ => inferInstanceAs (Decidable (_ ∨ _ ∧ (_ ∨ _ ∧ _)))

def Reason.rank : Reason → Nat
  | .user => 0
  | .report => 1
  | .new | .top15Stale => 2

/-- `ANALYSIS_CLAIM_ORDER`. -/
def ClaimOrder (a b : Row) : Prop :=
  a.2.reason.rank < b.2.reason.rank ∨ a.2.reason.rank = b.2.reason.rank ∧ Heavier a b

instance : DecidableRel ClaimOrder := fun _ _ => inferInstanceAs (Decidable (_ ∨ _ ∧ _))

end Rdst.Analysis
