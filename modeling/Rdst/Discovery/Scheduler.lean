import Mathlib.Data.List.Sort
import Mathlib.Data.NNRat.Defs
import Mathlib.Data.Rat.Floor

namespace Rdst.Discovery.Scheduler

def activeIntervalSeconds : ℚ := 60
def firstRunIntervalSeconds : ℚ := 10
def firstRunFastSeconds : ℚ := 300
def backgroundIntervalSeconds : ℚ := 300
def degradedIntervalSeconds : ℚ := 900
def maxIntervalSeconds : ℚ := 3600
def maxDutyCycle : ℚ := 1 / 20
def globalConcurrency : Nat := 3
def degradedAfterFailures : Nat := 3
def targetRefreshSeconds : ℚ := 60
def tickSeconds : ℚ := 1

/-- How far the task of a target's reading has come. -/
inductive Phase
  | admitted
  | reading (startedElapsed : ℚ)
  | settled
deriving DecidableEq

structure TargetSchedule where
  nextDue : ℚ
  consecutiveFailures : Nat
  lastDurationS : ℚ
  fastUntil : ℚ
  task : Option Phase
deriving DecidableEq

/-- What the providers return: the configured targets and the monitored ones. -/
structure Listing where
  targets : List String
  monitored : List String

/-- A reading that started, or one that succeeded, by the monotonic clock. -/
inductive Mark
  | started (name : String) (elapsed : ℚ)
  | succeeded (name : String) (startedElapsed elapsed cost : ℚ)
deriving DecidableEq

def Mark.name : Mark → String
  | .started name _ => name
  | .succeeded name _ _ _ => name

/-- The scheduler with its clocks, the targets that have subscribers, and the readings so far, the last one
    first. `skew` is how far the wall clock is ahead of the monotonic one. -/
structure World where
  schedules : List (String × TargetSchedule)
  monitored : List String
  running : List String
  retained : List String
  admitted : Nat
  clockSample : ℚ × ℚ
  nextTargetRefresh : ℚ
  stopping : Bool
  listening : Bool
  subscribers : List String
  elapsed : ℚ
  skew : ℚ
  trace : List Mark

namespace World

variable (stableHash : String → Nat)

/-- `self._clock()`. -/
def clock (w : World) : ℚ := w.elapsed + w.skew

def schedule (w : World) (name : String) : Option TargetSchedule :=
  (w.schedules.find? fun entry => entry.1 = name).map Prod.snd

def mapSchedules (w : World) (f : String → TargetSchedule → TargetSchedule) : World :=
  { w with schedules := w.schedules.map fun entry => (entry.1, f entry.1 entry.2) }

def edit (w : World) (name : String) (f : TargetSchedule → TargetSchedule) : World :=
  w.mapSchedules fun other schedule => if other = name then f schedule else schedule

def baseInterval (w : World) (name : String) (schedule : Option TargetSchedule) : ℚ :=
  if schedule.any fun s => decide (degradedAfterFailures ≤ s.consecutiveFailures) then degradedIntervalSeconds
  else if schedule.any fun s => decide (w.clock < s.fastUntil) then firstRunIntervalSeconds
  else if name ∈ w.subscribers ∨ name ∈ w.monitored then activeIntervalSeconds
  else backgroundIntervalSeconds

def nextInterval (base lastDurationS : ℚ) : ℚ := min (max base (lastDurationS / maxDutyCycle)) maxIntervalSeconds

/-- The phase offset of a target. -/
def phaseOffset (name : String) (interval : ℚ) : ℚ := ((stableHash name % ⌊interval⌋.toNat : Nat) : ℚ)

def alignedNext (name : String) (now interval : ℚ) : ℚ :=
  (⌊(now - phaseOffset stableHash name interval) / interval⌋ + 1) * interval + phaseOffset stableHash name interval

def priority (w : World) (name : String) (schedule : TargetSchedule) (now : ℚ) : ℚ :=
  let base := w.baseInterval name (some schedule)
  let staleness := min (max (now - schedule.nextDue) 0 / base) 2
  let watched := if name ∈ w.subscribers then 3 else 0
  watched + staleness - (min schedule.consecutiveFailures 4 : Nat)

/-- `_aligned_next` from the base interval, for an idle target. -/
def realign (w : World) (name : String) (schedule : TargetSchedule) : TargetSchedule :=
  if schedule.task = none then
    { schedule with nextDue := alignedNext stableHash name w.clock (w.baseInterval name (some schedule)) }
  else schedule

/-- The targets that began or ceased to be monitored. -/
def changed (w : World) (monitored : List String) (name : String) : Prop :=
  ¬ (name ∈ w.monitored ↔ name ∈ monitored)

instance (w : World) (monitored : List String) (name : String) : Decidable (w.changed monitored name) :=
  inferInstanceAs (Decidable (¬ _))

/-- The schedules of targets listed for the first time. -/
def added (w : World) (targets : List String) : List (String × TargetSchedule) :=
  (targets.dedup.filter fun name => name ∉ w.schedules.map Prod.fst).map fun name =>
    (name, ⟨alignedNext stableHash name w.clock (w.baseInterval name none), 0, 0, 0, none⟩)

/-- The task of a target ends. A collection that still runs keeps its admission. -/
def release (w : World) (name : String) : World :=
  if name ∈ w.running then { w with retained := name :: w.retained } else { w with admitted := w.admitted - 1 }

def refreshTargets (w : World) (listing : Option Listing) : World :=
  let w := { w with nextTargetRefresh := w.clock + targetRefreshSeconds }
  match listing with
  | none => w
  | some listing =>
    let now := { w with monitored := listing.monitored }
    let aligned := now.mapSchedules fun name schedule =>
      if w.changed listing.monitored name then now.realign stableHash name schedule else schedule
    let listed := { aligned with schedules := aligned.schedules ++ aligned.added stableHash listing.targets }
    let gone := listed.schedules.filter fun entry => entry.1 ∉ listing.targets
    (gone.filter fun entry => entry.2.task ≠ none).foldl (fun w entry => w.release entry.1)
      { listed with schedules := listed.schedules.filter fun entry => entry.1 ∈ listing.targets }

/-- How far the wall clock has moved beside the monotonic one since the last look. -/
def jump (w : World) : ℚ := w.clock - w.clockSample.1 - (w.elapsed - w.clockSample.2)

/-- The idle targets whose slot has come. -/
def due (w : World) : List (String × TargetSchedule) :=
  w.schedules.filter fun entry =>
    entry.2.task = none ∧ entry.2.nextDue ≤ w.clock ∧ entry.1 ∉ w.running

def launchDue (w : World) : World :=
  if w.stopping then w
  else
    let sampled := { w with clockSample := (w.clock, w.elapsed) }
    let caught :=
      if tickSeconds * 5 < |w.jump| then
        { sampled.mapSchedules (fun _ schedule =>
            { schedule with
              fastUntil := if schedule.fastUntil ≠ 0 then schedule.fastUntil + w.jump else schedule.fastUntil
              nextDue := if schedule.task = none then w.clock else schedule.nextDue }) with
          nextTargetRefresh := w.clock }
      else sampled
    let order := caught.due.insertionSort fun first second =>
      caught.priority second.1 second.2 w.clock ≤ caught.priority first.1 first.2 w.clock
    let launched := (order.take (globalConcurrency - caught.admitted)).map Prod.fst
    let begun := caught.mapSchedules fun name schedule =>
      if name ∈ launched then { schedule with task := some .admitted } else schedule
    { begun with admitted := caught.admitted + launched.length }

/-- An idle target is due now. -/
def dueNow (w : World) (name : String) : World :=
  w.edit name fun schedule => if schedule.task = none then { schedule with nextDue := w.clock } else schedule

def collectSoon (w : World) (name : String) : World :=
  w.edit name fun schedule =>
    if schedule.task = none then { schedule with nextDue := min schedule.nextDue w.clock } else schedule

def idle (w : World) (name : String) : Bool := (w.schedule name).any fun schedule => schedule.task = none

/-- Refresh the targets when this one has no schedule. -/
def ensure (w : World) (name : String) (listing : Option Listing) : World :=
  if (w.schedule name).isSome then w else w.refreshTargets stableHash listing

def startFastPhase (w : World) (name : String) (listing : Option Listing) : World :=
  let ready := w.ensure stableHash name listing
  if (ready.schedule name).isNone then ready
  else
    let fast := { ready.edit name fun schedule =>
        { schedule with fastUntil := ready.clock + firstRunFastSeconds } with
      monitored := name :: ready.monitored }
    if fast.idle name then (fast.dueNow name).launchDue else fast

def checkNow (w : World) (name : String) (listing : Option Listing) : World :=
  let ready := w.refreshTargets stableHash listing
  if (ready.schedule name).isNone ∨ ready.stopping then ready
  else if ready.idle name ∧ name ∉ ready.running then (ready.dueNow name).launchDue
  else ready

def subscriberStateChanged (w : World) (name : String) (subscribed : Bool) (listing : Option Listing) : World :=
  if w.stopping then w
  else
    let ready := w.ensure stableHash name listing
    if subscribed then
      if ready.idle name then (ready.collectSoon name).launchDue else ready
    else ready.edit name fun schedule => ready.realign stableHash name schedule

/-- The coordinator's first subscriber of a target comes, or its last one leaves. -/
def edge (w : World) (name : String) (subscribed : Bool) : World :=
  { w with
    subscribers := if subscribed then name :: w.subscribers else w.subscribers.filter fun other => other ≠ name }

/-- A subscriber edge, which the scheduler hears of while it listens. -/
def subscriber (w : World) (name : String) (subscribed : Bool) (listing : Option Listing) : World :=
  if w.listening then (w.edge name subscribed).subscriberStateChanged stableHash name subscribed listing
  else w.edge name subscribed

def start (w : World) (listing : Option Listing) : World :=
  if w.listening then w
  else
    let ready := { w with stopping := false }.refreshTargets stableHash listing
    { ready.mapSchedules fun name schedule =>
        if name ∈ ready.monitored then { schedule with nextDue := ready.clock } else schedule with
      listening := true }

def stop (w : World) : World :=
  (w.schedules.filter fun entry => entry.2.task ≠ none).foldl (fun w entry => w.release entry.1)
    { w with stopping := true, listening := false, schedules := [] }

/-- One turn of `_run`. -/
def runOnce (w : World) (listing : Option Listing) : World :=
  if w.stopping then w
  else if w.nextTargetRefresh ≤ w.clock then (w.refreshTargets stableHash listing).launchDue
  else w.launchDue

/-- Backoff refuses the reading's admission. -/
def refused (w : World) (name : String) : World :=
  w.edit name fun schedule =>
    if schedule.task = some .admitted then
      { schedule with nextDue := w.clock + tickSeconds, task := some .settled }
    else schedule

/-- Another process owns the target. -/
def noLease (w : World) (name : String) : World :=
  w.edit name fun schedule =>
    if schedule.task = some .admitted then
      { schedule with
        nextDue := alignedNext stableHash name w.clock (w.baseInterval name (some schedule))
        task := some .settled }
    else schedule

def begin (w : World) (name : String) : World :=
  if (w.schedule name).any fun schedule => schedule.task = some .admitted then
    { w.edit name fun schedule => { schedule with task := some (.reading w.elapsed) } with
      running := name :: w.running
      trace := .started name w.elapsed :: w.trace }
  else w

/-- `_record_failure`, with the wait that backoff asks for. -/
def recordFailure (w : World) (name : String) (retryAfter : ℚ) (returned : Bool) : World :=
  let failed := w.edit name fun schedule =>
    match schedule.task with
    | some (.reading _) =>
      { schedule with
        consecutiveFailures := schedule.consecutiveFailures + 1
        nextDue := w.clock + max tickSeconds retryAfter
        task := some .settled }
    | _ => schedule
  if returned then { failed with running := failed.running.filter fun other => other ≠ name } else failed

/-- The database time of a reading, or else all of its time. -/
def cost (w : World) (startedElapsed : ℚ) (dbMs : Option ℚ) : ℚ :=
  match dbMs with
  | some ms => max (ms / 1000) 0
  | none => max (w.elapsed - startedElapsed) 0

/-- The schedule after a successful reading, before its next slot is set. -/
def completed (schedule : TargetSchedule) (cost : ℚ) : TargetSchedule :=
  { schedule with lastDurationS := cost, consecutiveFailures := 0, task := some .settled }

def intervalAfter (w : World) (name : String) (schedule : TargetSchedule) (cost : ℚ) : ℚ :=
  nextInterval (w.baseInterval name (some (completed schedule cost))) cost

def succeed (w : World) (name : String) (dbMs : Option ℚ) : World :=
  match (w.schedule name).bind TargetSchedule.task with
  | some (.reading startedElapsed) =>
    let cost := w.cost startedElapsed dbMs
    { w.edit name fun schedule =>
        { completed schedule cost with
          nextDue := alignedNext stableHash name w.clock (w.intervalAfter name schedule cost)
          fastUntil := if w.clock < schedule.fastUntil then schedule.fastUntil else 0 } with
      running := w.running.filter fun other => other ≠ name
      trace := .succeeded name startedElapsed w.elapsed cost :: w.trace }
  | _ => w

/-- The task of a target has run to its end, or was cancelled. -/
def taskDone (w : World) (name : String) : World :=
  if (w.schedule name).any fun schedule => schedule.task ≠ none then
    (w.edit name fun schedule => { schedule with task := none }).release name
  else w

/-- A collection that outlived its task returns. -/
def collectionReturned (w : World) (name : String) : World :=
  let returned := { w with running := w.running.filter fun other => other ≠ name }
  if name ∈ w.retained then
    { returned with retained := w.retained.filter fun other => other ≠ name, admitted := w.admitted - 1 }
  else returned

end World

/-- Time passing, a clock that is set, a call of the scheduler, or a step of a reading's task. -/
inductive Act
  | pass (seconds : NNRat)
  | setClock (skew : ℚ)
  | start (listing : Option Listing)
  | stop
  | runOnce (listing : Option Listing)
  | collectSoon (name : String)
  | startFastPhase (name : String) (listing : Option Listing)
  | checkNow (name : String) (listing : Option Listing)
  | subscriber (name : String) (subscribed : Bool) (listing : Option Listing)
  | refused (name : String)
  | noLease (name : String)
  | begin (name : String)
  | recordFailure (name : String) (retryAfter : ℚ) (returned : Bool)
  | succeed (name : String) (dbMs : Option ℚ)
  | taskDone (name : String)
  | collectionReturned (name : String)

def World.step (stableHash : String → Nat) (w : World) : Act → World
  | .pass seconds => { w with elapsed := w.elapsed + seconds }
  | .setClock skew => { w with skew := skew }
  | .start listing => w.start stableHash listing
  | .stop => w.stop
  | .runOnce listing => w.runOnce stableHash listing
  | .collectSoon name => w.collectSoon name
  | .startFastPhase name listing => w.startFastPhase stableHash name listing
  | .checkNow name listing => w.checkNow stableHash name listing
  | .subscriber name subscribed listing => w.subscriber stableHash name subscribed listing
  | .refused name => w.refused name
  | .noLease name => w.noLease stableHash name
  | .begin name => w.begin name
  | .recordFailure name retryAfter returned => w.recordFailure name retryAfter returned
  | .succeed name dbMs => w.succeed stableHash name dbMs
  | .taskDone name => w.taskDone name
  | .collectionReturned name => w.collectionReturned name

/-- A scheduler before its start. -/
def World.fresh (elapsed skew : ℚ) : World :=
  ⟨[], [], [], [], 0, (elapsed + skew, elapsed), 0, false, false, [], elapsed, skew, []⟩

end Rdst.Discovery.Scheduler
