import Rdst.Analysis.Job

namespace Rdst.Analysis

open RowTable

def Job.isLive (target key : String) (job : Job) : Bool :=
  job.target = target && job.queryKey = key && (job.state = .queued || job.state = .running)

def Job.isFor (target key : String) (state : JobState) (job : Job) : Bool :=
  job.target = target && job.queryKey = key && job.state = state

def Store.row (s : Store) (id : Nat) : Option Row := (s.jobs.lookup id).map fun job => (id, job)

/-- The columns that an INSERT does not name. -/
def blankJob (target key : String) (reason : Reason) (state : JobState) (now : Int) : Job where
  target := target
  queryKey := key
  reason := reason
  state := state
  priority := 0
  paramSource := none
  mode := none
  enqueuedAt := now
  startedAt := none
  finishedAt := none
  error := none
  analysisRef := none
  owner := none
  attempt := 0
  ownerHost := none
  ownerPid := none
  ownerStart := none
  billableCalls := some 0

def Store.insertJob (s : Store) (job : Job) : Store × Option Row :=
  ({ s with jobs := s.jobs.insert job }, some (s.jobs.nextId, job))

def Store.updateJob (s : Store) (id : Nat) (change : Job → Job) : Store :=
  { s with jobs := s.jobs.update fun other job => if other = id then change job else job }

def enqueueAnalysis (calendar : Calendar) (s : Store) (target key : String) (reason : Reason) (priority : ℚ)
    (now : Int) (cap : Option Int) : Store × Option Row :=
  match s.jobs.last (Job.isLive target key) with
  | some (id, existing) =>
    if existing.state = .queued ∧ (reason = .user ∨ reason = .report) then
      let s := s.updateJob id fun job => { job with reason := reason, priority := priority }
      (s, s.row id)
    else (s, none)
  | none =>
    let used : Int := startedInDay calendar s target now (some (allowanceReasons reason))
    if reason ≠ .user ∧ cap.any (fun cap => decide (cap ≤ used)) = true then (s, none)
    else s.insertJob { blankJob target key reason .queued now with priority := priority }

def skipAnalysisOnce (s : Store) (target key : String) (reason : Reason) (now : Int) (explanation : String) :
    Store × Option Row :=
  match s.jobs.last (Job.isFor target key .skipped) with
  | some row => (s, some row)
  | none =>
    match s.jobs.last (Job.isLive target key) with
    | some (id, existing) =>
      if existing.reason = .user then (s, some (id, existing))
      else if existing.state = .queued then
        let s := s.updateJob id fun job =>
          { job with state := .skipped, finishedAt := some now, error := some explanation }
        (s, s.row id)
      else (s, some (id, existing))
    | none =>
      s.insertJob { blankJob target key reason .skipped now with finishedAt := some now, error := some explanation }

/-- The claim that a call names is the one that runs. -/
def Job.claimedBy (owner : String) (attempt : Nat) (job : Job) : Prop :=
  job.state = .running ∧ job.owner = some owner ∧ job.attempt = attempt

instance (owner : String) (attempt : Nat) (job : Job) : Decidable (job.claimedBy owner attempt) :=
  inferInstanceAs (Decidable (_ ∧ _))

/-- `UPDATE ... WHERE id=? AND state='running' AND owner=? AND attempt=?`, and whether it found a row. -/
def Store.updateClaimed (s : Store) (id : Nat) (owner : String) (attempt : Nat) (change : Job → Job) :
    Store × Bool :=
  (s.updateJob id fun job => if job.claimedBy owner attempt then change job else job,
    (s.jobs.lookup id).any fun job => decide (job.claimedBy owner attempt))

def holdAnalysis (s : Store) (jobId : Nat) (owner : String) (attempt : Nat) : Store × Bool :=
  s.updateClaimed jobId owner attempt fun job =>
    { job with state := .queued, startedAt := none, error := some "signed out", owner := none }

def recoveryErrors : List String := ["recovered_once", "retrying_after_recovery"]

/-- The error of a job that was already taken back once. -/
def Job.recovered (job : Job) : Bool := job.error.any fun error => decide (error ∈ recoveryErrors)

def retryAnalysis (s : Store) (jobId : Nat) (owner : String) (attempt : Nat) : Store × Bool :=
  s.updateClaimed jobId owner attempt fun job =>
    { job with error := some (if job.recovered = true then "retrying_after_recovery" else "retrying") }

/-- What `claim_analysis` is asked for. -/
structure ClaimOptions where
  cap : Int
  reserve : Int
  newcomerCap : Option Int
  allowAutomatic : Bool
  allowReport : Bool
  allowUser : Bool
  eligibleKeys : Option (List String)

def openOptions : ClaimOptions where
  cap := 15
  reserve := 3
  newcomerCap := some 100
  allowAutomatic := true
  allowReport := true
  allowUser := true
  eligibleKeys := none

def Job.reclaim (process : Process) (target : String) (job : Job) : Job :=
  if job.target = target ∧ job.state = .running ∧ deadAnalysisOwner process job = true then
    { job with state := .queued, startedAt := none, owner := none, attempt := job.attempt + 1 }
  else job

/-- The jobs of dead workers go back to the queue before anything is claimed. -/
def reclaimDead (process : Process) (s : Store) (target : String) : Store :=
  { s with jobs := s.jobs.update fun _ => Job.reclaim process target }

def Store.inState (s : Store) (target : String) (state : JobState) : List Row :=
  s.jobs.rows.filter fun row => row.2.target = target ∧ row.2.state = state

def Store.executes (s : Store) (target : String) : Bool := s.settings target "execute" = some "1"

def inFirstPass (s : Store) (target : String) (now : Int) : Bool :=
  (firstHourWindow s target).1 ≤ now ∧ now < (firstHourWindow s target).2

/-- Whether the jobs that run leave no room for another one. -/
def occupied (s : Store) (target : String) (now : Int) : Bool :=
  let running := s.inState target .running
  let limit := if (s.executes target && !inFirstPass s target now) = true then 1 else planAnalysisConcurrency
  decide (limit ≤ running.length) || (!inFirstPass s target now &&
    running.any fun row => decide (row.2.mode ≠ some .explain))

/-- What the two allowances of the day still admit. -/
structure Allowance where
  used : Nat
  newcomers : Nat

def allowanceUsed (calendar : Calendar) (s : Store) (target : String) (now : Int) : Allowance :=
  ⟨startedInDay calendar s target now (some reanalysisReasons),
    startedInDay calendar s target now (some newcomerReasons)⟩

/-- The conditions under which the next job is picked. -/
def admits (options : ClaimOptions) (newcomerCap : Int) (allowance : Allowance) (hour : Int × Int) (job : Job) :
    Bool :=
  (job.reason = .user || options.eligibleKeys.all fun keys => decide (job.queryKey ∈ keys)) &&
  (job.reason ≠ .report || options.allowReport) &&
  ((job.reason = .user && options.allowUser) ||
    (job.reason = .report && (options.allowReport && decide ((allowance.used : Int) < options.cap))) ||
    (job.reason = .top15Stale &&
      (options.allowAutomatic && decide ((allowance.used : Int) < options.cap - options.reserve))) ||
    (job.reason = .new && (options.allowAutomatic && decide ((allowance.newcomers : Int) < newcomerCap))) ||
    (options.allowAutomatic && job.inFirstHour hour))

def claimChoice (calendar : Calendar) (process : Process) (s : Store) (target : String) (now : Int)
    (options : ClaimOptions) : Option Row :=
  let newcomerCap := options.newcomerCap.getD process.defaultNewcomerCap
  (((s.inState target .queued).filter fun row =>
      admits options newcomerCap (allowanceUsed calendar s target now) (firstHourWindow s target) row.2).insertionSort
    ClaimOrder).head?

def Job.start (process : Process) (now : Int) (execute : Bool) (ownStart : Option ℚ) (job : Job) : Job :=
  { job with
    state := .running
    startedAt := some now
    owner := some process.collectorProcess
    attempt := job.attempt + 1
    mode := some (if execute = true then .analyze else .explain)
    ownerHost := some process.ownerHost
    ownerPid := some process.pid
    ownerStart := ownStart }

/-- `_process_start` of the process itself; being denied it raises. -/
def ownStart (process : Process) : Option (Option ℚ) :=
  match process.start process.pid with
  | .gone => some none
  | .denied => none
  | .started time => some (some time)

/-- `None` is `nothing`; what raises is rolled back. -/
inductive ClaimResult
  | raised
  | nothing
  | started (row : Row)
deriving DecidableEq

def claimAnalysis (calendar : Calendar) (process : Process) (s : Store) (target : String) (now : Int)
    (options : ClaimOptions) : Store × ClaimResult :=
  let reclaimed := reclaimDead process s target
  if occupied reclaimed target now = true then (reclaimed, .nothing)
  else
    match claimChoice calendar process reclaimed target now options with
    | none => (reclaimed, .nothing)
    | some (id, job) =>
      match ownStart process with
      | none => (s, .raised)
      | some ownStart =>
        let start := Job.start process now (reclaimed.executes target) ownStart
        (reclaimed.updateJob id start, .started (id, start job))

def weightOf (weights : List (String × ℚ)) (key : String) : Option ℚ :=
  (weights.find? fun item => item.1 = key).map Prod.snd

def updateAnalysisPriorities (s : Store) (target : String) (weights : List (String × ℚ)) : Store :=
  { s with jobs := s.jobs.update fun _ job =>
      if job.target = target ∧ job.state = .queued then
        { job with priority := (weightOf weights job.queryKey).getD 0 }
      else job }

def reprioritizeQueued (s : Store) (target : String) (weights : List (String × ℚ)) : Store :=
  weights.foldl (fun s item =>
    { s with jobs := s.jobs.update fun _ job =>
        if job.target = target ∧ job.state = .queued ∧ job.reason ≠ .user ∧ job.queryKey = item.1 then
          { job with priority := item.2 }
        else job }) s

def trimAutomaticAnalyses (s : Store) (target : String) (keep : Int) (reasons : List Reason) : Store × Nat :=
  let rows := (((s.inState target .queued).filter fun row =>
    decide (row.2.reason ∈ reasons) && !row.2.inFirstHour (firstHourWindow s target)).insertionSort Heavier).drop
      (max 0 keep).toNat
  ({ s with jobs := s.jobs.delete fun id _ => decide (id ∈ rows.map Prod.fst) }, rows.length)

def dropQueuedAnalyses (s : Store) (target : String) (keys : List String) (reasons : List Reason) : Store × Nat :=
  let dropped (job : Job) : Bool :=
    job.target = target && job.state = .queued && decide (job.reason ∈ reasons) && decide (job.queryKey ∈ keys)
  ({ s with jobs := s.jobs.delete fun _ job => dropped job }, s.jobs.count dropped)

inductive Outcome
  | done
  | failed
  | skipped
deriving DecidableEq

def Outcome.state : Outcome → JobState
  | .done => .done
  | .failed => .failed
  | .skipped => .skipped

structure FinishFields where
  error : Option String
  analysisRef : Option String
  mode : Option Mode
  paramSource : Option ParamSource
  billableCalls : Nat

def finishAnalysis (s : Store) (jobId : Nat) (state : Outcome) (now : Int) (fields : FinishFields) (owner : String)
    (attempt : Nat) : Store × Bool :=
  s.updateClaimed jobId owner attempt fun job =>
    { job with
      state := state.state
      finishedAt := some now
      error := fields.error
      analysisRef := fields.analysisRef
      mode := fields.mode
      paramSource := fields.paramSource
      billableCalls := some (job.billableCalls.getD 0 + fields.billableCalls) }

def cancelAnalysis (s : Store) (jobId : Nat) (now : Int) : Store × Option Row :=
  let cancellable (job : Job) : Bool := job.state = .queued || job.state = .running
  let cancelled := s.updateJob jobId fun job =>
    if cancellable job = true then
      { job with state := .skipped, error := some "cancelled", finishedAt := some now }
    else job
  (cancelled, if (s.jobs.lookup jobId).any cancellable = true then cancelled.row jobId else none)

/-- The keys that the store tracks for a target, each once. -/
def trackedKeys (s : Store) (target : String) : List String :=
  (((s.queryText.filter fun row => row.target = target).map QueryText.queryKey) ++
    ((s.queryLoad ++ s.querySample).filter fun row => row.1 = target).map Prod.snd ++
    (s.stuckSample.filter fun row => row.1 = target).filterMap Prod.snd).dedup

def recordUserAnalysis (s : Store) (target key text : String) (now : Int) (analysisRef : Option String)
    (mode : Option Mode) : Store × Option Row :=
  let tracked := trackedKeys s target
  if key ∉ tracked ∧ seriesQueries ≤ tracked.length then (s, none)
  else
    let known := s.queryText.any fun row => decide (row.target = target ∧ row.queryKey = key)
    let s := if known = true then s
      else { s with queryText := s.queryText ++ [⟨target, key, text, now, now⟩] }
    match analysisRef with
    | none => (s, none)
    | some ref =>
      s.insertJob { blankJob target key .user .done now with
        mode := mode, finishedAt := some now, analysisRef := some ref }

/-- Whether the job's worker is dead or has run past the timeout. `started_at` of a running job is never
    NULL, and Python would not compare it. -/
def abandoned (process : Process) (now timeout : Int) (job : Job) : Bool :=
  deadAnalysisOwner process job || job.startedAt.any fun at_ => decide (at_ ≤ now - timeout)

def Job.recover (process : Process) (now timeout : Int) (job : Job) : Job :=
  if job.state = .running ∧ abandoned process now timeout job = true then
    if job.recovered = true then
      { job with
        state := .failed
        finishedAt := some now
        error := some "Analysis timed out after restart recovery"
        owner := none
        attempt := job.attempt + 1 }
    else
      { job with
        state := .queued
        startedAt := none
        error := some "recovered_once"
        owner := none
        attempt := job.attempt + 1 }
  else job

def recoverAnalysis (process : Process) (s : Store) (now timeout : Int) : Store :=
  { s with jobs := s.jobs.update fun _ => Job.recover process now timeout }

def writeSetting (s : Store) (target key value : String) : Store :=
  { s with settings := fun other name => if other = target ∧ name = key then some value else s.settings other name }

end Rdst.Analysis
