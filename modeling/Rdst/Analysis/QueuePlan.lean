import Mathlib.Data.Rat.Floor
import Mathlib.Data.Prod.Lex
import Rdst.Analysis.Allowance
import Rdst.Lib.Greedy

namespace Rdst.Analysis

open RowTable Machine

/-- What the queue of a target depends on beside its jobs: the sign-in, the levers and the tracked queries. -/
structure Desk where
  signedIn : Bool
  ownKey : Bool
  enabled : Bool
  deepAnalysis : Bool
  /-- Automatic AI work is held for another reason than a missing sign-in. -/
  aiHeld : Bool
  cap : Int
  newcomerCap : Int
  eligible : List String

def Desk.paused (desk : Desk) : Bool := !desk.signedIn || desk.aiHeld

def reportReserve (cap : Int) : Int := min 5 (cap / 5)

/-- What `_claim` passes to `claim_analysis`. -/
def Desk.claimOptions (desk : Desk) : ClaimOptions where
  cap := desk.cap
  reserve := reportReserve desk.cap
  newcomerCap := some desk.newcomerCap
  allowAutomatic := desk.enabled && desk.deepAnalysis && !desk.paused
  allowReport := desk.signedIn && !desk.paused
  allowUser := desk.signedIn || desk.ownKey
  eligibleKeys := some desk.eligible

def Store.enabledAt (s : Store) (target : String) : Option Int :=
  (s.settings target "enabled_at").bind fun value =>
    if value.toList ≠ [] ∧ value.toList.all (PyText.isDigit PyText.asciiTables) = true then
      PyText.parseInt PyText.asciiTables value.toList
    else none

def Store.firstHour (s : Store) (target : String) : Int × Int :=
  let start := (s.enabledAt target).getD 0
  if start = 0 ∨ s.historyBefore target start = true then (0, 0)
  else (start, start + firstHourSeconds)

/-- The facts of `budget`. -/
structure Budget where
  cap : Int
  used : Nat
  left : Int
  reserved : Int
  automaticLeft : Int
  newcomerCap : Int
  newcomerLeft : Int
  resetAt : Int

def budget (calendar : Calendar) (s : Store) (target : String) (now : Int) (desk : Desk) : Budget :=
  let used := startedInDay calendar s target now (some reanalysisReasons)
  let reserve := reportReserve desk.cap
  let newcomersUsed := startedInDay calendar s target now (some newcomerReasons)
  { cap := desk.cap
    used := used
    left := max 0 (desk.cap - used)
    reserved := reserve
    automaticLeft := max 0 (desk.cap - reserve - used)
    newcomerCap := desk.newcomerCap
    newcomerLeft := max 0 (desk.newcomerCap - newcomersUsed)
    resetAt := (calendar.localDayBounds now).2 }

/-- Python's `round`, which goes to the even neighbour from halfway. -/
def roundHalfEven (q : ℚ) : Int :=
  let below := ⌊q⌋
  if q - below < 1 / 2 ∨ (q - below = 1 / 2 ∧ below % 2 = 0) then below else below + 1

def defaultRunSeconds : Int := 120

/-- The run time of a finished job, with the time it finished. -/
def Job.runTime (job : Job) : Option (Int × Int) :=
  match job.startedAt, job.finishedAt with
  | some start, some finish =>
    if (job.state = .done ∨ job.state = .failed) ∧ start ≤ finish then some (finish, finish - start) else none
  | _, _ => none

def averageRunSeconds (s : Store) (target : String) : Int :=
  let times := ((((s.jobs.rows.filter fun row => row.2.target = target).filterMap fun row =>
    row.2.runTime).insertionSort fun a b => b.1 ≤ a.1).take 20).map Prod.snd
  if times = [] then defaultRunSeconds else roundHalfEven (times.sum / times.length)

def overAllowance : String :=
  "Today's automatic analyses are done. RDST picks this query up tomorrow " ++
    "if it's still among the busiest, or you can analyze it now."

def signInForMonitoring : String := "Sign in to turn on AI monitoring"

/-- Where a waiting job stands. -/
inductive Place
  | today (position : Nat) (estimatedStartAt : Int)
  | held (reason : String) (text : Option String)
deriving DecidableEq

/-- The counters of `queue_plan` as it walks the queue. -/
structure Walk where
  position : Nat
  started : Int
  newcomersLeft : Int
  jobs : List (Nat × Place)

def Walk.hold (walk : Walk) (id : Nat) (reason : String) (text : Option String) : Walk :=
  { walk with jobs := walk.jobs ++ [(id, .held reason text)] }

def planJob (desk : Desk) (facts : Budget) (hour : Int × Int) (firstStart average : Int) (walk : Walk) (row : Row) :
    Walk :=
  let job := row.2
  let automatic := decide (job.reason ∈ automaticReasons)
  let firstHour := job.inFirstHour hour
  let limit := if automatic = true then facts.cap - facts.reserved else facts.cap
  let newcomer := decide (job.reason ∈ newcomerReasons) && !firstHour
  if desk.signedIn = false ∧ (job.reason ≠ .user ∨ desk.ownKey = false) then
    walk.hold row.1 "sign_in"
      (some (if job.reason ≠ .user then signInForMonitoring else "Sign in to run deep analysis"))
  else if job.reason ≠ .user ∧ desk.enabled = false then
    walk.hold row.1 "monitoring_off" (some "Monitoring is off")
  else if job.reason ≠ .user ∧ job.queryKey ∉ desk.eligible then
    walk.hold row.1 "outside_top"
      (some "This query is outside the busiest 1,000. Click Analyze now to run it.")
  else if job.reason ≠ .user ∧ (desk.signedIn && desk.paused) = true then
    walk.hold row.1 "ai_paused"
      (some "AI monitoring is paused. Check this database's AI monitoring status.")
  else if automatic = true ∧ desk.deepAnalysis = false then walk.hold row.1 "automatic_off" none
  else if job.reason = .user ∨ firstHour = true ∨ (newcomer = true ∧ 0 < walk.newcomersLeft) ∨
      (newcomer = false ∧ walk.started < limit) then
    { position := walk.position + 1
      started := if newcomer = false ∧ job.reason ≠ .user ∧ firstHour = false then walk.started + 1 else walk.started
      newcomersLeft := if newcomer = true then walk.newcomersLeft - 1 else walk.newcomersLeft
      jobs := walk.jobs ++ [(row.1, .today (walk.position + 1) (firstStart + walk.position * average))] }
  else walk.hold row.1 "over_allowance" (some overAllowance)

def Store.queue (s : Store) (target : String) : List Row := (s.inState target .queued).insertionSort ClaimOrder

/-- `ORDER BY started_at DESC`, which has the jobs without a start last. -/
def startsLater (a b : Row) : Bool := b.2.startedAt.all fun start => a.2.startedAt.any fun later => decide (start ≤ later)

def Store.runningJob (s : Store) (target : String) : Option Row :=
  ((s.inState target .running).insertionSort fun a b => startsLater a b = true).head?

structure QueuePlan where
  facts : Budget
  averageRunS : Int
  automaticEnabled : Bool
  running : Option Row
  queued : List Row
  jobs : List (Nat × Place)

def queuePlan (calendar : Calendar) (s : Store) (target : String) (now : Int) (desk : Desk) : QueuePlan :=
  let facts := budget calendar s target now desk
  let average := averageRunSeconds s target
  let firstStart := match s.runningJob target with
    | none => now
    | some row =>
      let start := row.2.startedAt.getD 0
      now + max 0 (average - max 0 (now - if start = 0 then now else start))
  let walk := (s.queue target).foldl (planJob desk facts (s.firstHour target) firstStart average)
    ⟨0, facts.used, facts.newcomerLeft, []⟩
  { facts := facts
    averageRunS := average
    automaticEnabled := desk.deepAnalysis
    running := s.runningJob target
    queued := s.queue target
    jobs := walk.jobs }

def scheduled : Nat × Place → Option (Nat × Nat)
  | (id, .today position _) => some (position, id)
  | (_, .held _ _) => none

/-- The jobs that run today, by their position. -/
def QueuePlan.today (plan : QueuePlan) : List Nat :=
  ((plan.jobs.filterMap scheduled).insertionSort fun a b => a.1 ≤ b.1).map Prod.snd

/-- One claim of the day, and the job that it starts running to its end. -/
structure Turn (calendar : Calendar) (today : Int) where
  process : Process
  now : Int
  fields : FinishFields
  finishedAt : Int
  sameDay : calendar.localDayBounds now = calendar.localDayBounds today
  knowsStart : (ownStart process).isSome = true

def takeTurn {calendar : Calendar} {today : Int} (options : ClaimOptions) (target : String) (s : Store)
    (turn : Turn calendar today) : Store × List Nat :=
  match claimAnalysis calendar turn.process s target turn.now options with
  | (s, .started row) =>
    ((finishAnalysis s row.1 .done turn.finishedAt turn.fields turn.process.collectorProcess row.2.attempt).1, [row.1])
  | (s, _) => (s, [])

end Rdst.Analysis
