import Rdst.Web.BackgroundRuns

namespace Rdst.Web.RunRegistry

open Assoc Machine BackgroundRuns

inductive RunStatus
  | running
  | needsKey
  | done
  | partially
  | failed
  | cancelled
deriving DecidableEq

def RunStatus.isTerminal : RunStatus → Bool
  | .running | .needsKey => false
  | _ => true

def RunStatus.name : RunStatus → String
  | .running => "running"
  | .needsKey => "needs_key"
  | .done => "done"
  | .partially => "partial"
  | .failed => "failed"
  | .cancelled => "cancelled"

/-- A value of an event's field. -/
inductive Value
  | json (value : Json)
  /-- One that has a NaN or an infinity in it, whose text `JSON.parse` refuses. -/
  | notJson

abbrev Data := List (String × Value)

def fieldOf (data : Data) (name : String) : Option Value := (data.find? fun entry => entry.1 = name).map Prod.snd

/-- The fields as JSON, where all of them are. -/
def jsonFields : Data → Option (List (String × Json))
  | [] => some []
  | (name, .json value) :: rest => (jsonFields rest).map fun fields => (name, value) :: fields
  | (_, .notJson) :: _ => none

structure Record where
  seq : Nat
  event : String
  data : Data

/-- Where a run's driver is. -/
inductive Task
  /-- It had no turn yet; it may be cancelled before. -/
  | unstarted (cancelled : Bool)
  /-- In its loop, with the status that the run is to end with. -/
  | driving (status : RunStatus)
  /-- In its `finally`, which waits for `aclose`. -/
  | closing (status : RunStatus)
  /-- It was cancelled before its first turn, and its done callback is to come. -/
  | cancelledEarly
  | finished
deriving DecidableEq

/-- A `_RunHandle`. -/
structure Handle where
  kind : BackgroundRunKind
  target : String
  known : RunMetadata
  status : RunStatus := .running
  events : List Record := []
  waiters : List Nat := []
  childErrorEvents : List String := []
  task : Task := .unstarted false

def runEndEvent : String := "run_end"

def Handle.append (handle : Handle) (name : String) (data : Data) : Handle :=
  { handle with events := handle.events ++ [⟨handle.events.length + 1, name, data⟩], waiters := [] }

def statusData (status : RunStatus) : Data := [("status", .json (.string status.name))]

/-- The terminal record of a run. -/
def Handle.finish (handle : Handle) (status : RunStatus) : Handle :=
  { handle with status := status, task := .finished }.append runEndEvent (statusData status)

def isFalse (value : Option Value) : Bool :=
  match value with
  | some (.json (.bool false)) => true
  | _ => false

def isText (value : Option Value) (text : String) : Bool :=
  match value with
  | some (.json (.string found)) => decide (found = text)
  | _ => false

def isErrorName (name : String) : Bool := name = "error" || "_error".toList.isSuffixOf name.toList

/-- The status that a run is to end with after an event, given its records with that of the event. -/
def nextStatus (childErrorEvents : List String) (events : List Record) (status : RunStatus) (name : String)
    (data : Data) : RunStatus :=
  if name = "complete" ∧ childErrorEvents ≠ [] then
    if isFalse (fieldOf data "success") = true then .failed else status
  else if name ∉ childErrorEvents ∧ isErrorName name = true then
    let preserved := isText (fieldOf data "code") "speed_test_cleanup_failed" &&
      events.any fun record => record.event = "cache_run_complete" || record.event = "cache_compare_complete"
    if preserved = true ∧ status ≠ .failed then .partially else .failed
  else status

/-- A turn of the driver's loop. -/
def Handle.yielded (handle : Handle) (status : RunStatus) (name : String) (data : Data) : Handle :=
  let handle := handle.append name data
  { handle with
    status := if name = "needs_key" then .needsKey else .running
    task := .driving (nextStatus handle.childErrorEvents handle.events status name data) }

def failureData (message : String) : Data :=
  [("message", .json (.string message)), ("code", .json (.string "RUN_FAILED")), ("detail", .json .null),
    ("stage", .json .null), ("partial_results", .json .null)]

/-- The run's generator raises. -/
def Handle.raised (handle : Handle) (message : String) : Handle :=
  { handle.append "error" (failureData message) with task := .closing .failed }

/-- `task.cancel()`; a driver that has begun sees it as a `CancelledError` of the generator, if at all. -/
def Handle.cancel (handle : Handle) : Handle :=
  match handle.task with
  | .unstarted _ => { handle with task := .unstarted true }
  | _ => handle

/-- The driver's first turn. -/
def Handle.begin (handle : Handle) : Handle :=
  match handle.task with
  | .unstarted true => { handle with task := .cancelledEarly }
  | .unstarted false => { handle with task := .driving .done }
  | _ => handle

/-- What a run's generator does at the driver's `async for`. -/
inductive Turn
  | yields (name : String) (data : Data)
  | exhausted
  | raises (message : String)
  | cancelled

def Handle.turn (handle : Handle) (turn : Turn) : Handle :=
  match handle.task with
  | .driving status =>
    match turn with
    | .yields name data => handle.yielded status name data
    | .exhausted => { handle with task := .closing status }
    | .raises message => handle.raised message
    | .cancelled => { handle with task := .closing .cancelled }
  | _ => handle

/-- `aclose` is over, with or without an exception. -/
def Handle.close (handle : Handle) : Handle :=
  match handle.task with
  | .closing status => handle.finish status
  | _ => handle

/-- `_terminalize_cancelled_before_start`. -/
def Handle.terminalize (handle : Handle) : Handle :=
  match handle.task with
  | .cancelledEarly => if handle.status.isTerminal = true then handle else handle.finish .cancelled
  | _ => handle

/-- Where a subscriber is in `events`. -/
inductive Reading
  /-- The generator was made and has not looked for its run. -/
  | opening
  | replaying
  | waiting
  | returned
  /-- It raised, or its client has gone. -/
  | broken
deriving DecidableEq

structure Subscriber where
  runId : String
  afterSeq : Int
  index : Int
  sent : List Record
  reading : Reading

structure World where
  /-- The runs that the registry knows, oldest first. -/
  runs : List String
  /-- The handles of all runs there were, which their drivers and subscribers hold. -/
  handles : Dict String Handle
  subscribers : Dict Nat Subscriber
  subscribed : Nat
  maxFinished : Nat

def World.empty (maxFinished : Nat) : World :=
  { runs := [], handles := ∅, subscribers := ∅, subscribed := 0, maxFinished := maxFinished }

def World.isFinished (w : World) (runId : String) : Bool :=
  (w.handles.lookup runId).any fun handle => handle.status.isTerminal

/-- `_evict_finished`. -/
def World.evictFinished (w : World) : World :=
  let finished := w.runs.filter w.isFinished
  let gone := finished.take (finished.length - w.maxFinished)
  { w with runs := w.runs.filter fun runId => runId ∉ gone }

def World.onHandle (w : World) (runId : String) (change : Handle → Handle) : World :=
  match w.handles.lookup runId with
  | none => w
  | some handle => { w with handles := w.handles.insert runId (change handle) }

/-- A change after which finished runs are evicted, where it ends the run. -/
def World.ending (w : World) (runId : String) (change : Handle → Handle) : World :=
  let w' := w.onHandle runId change
  if (w'.isFinished runId && !w.isFinished runId) = true then w'.evictFinished else w'

/-- Indexing as Python does it, from the end for a negative index. -/
def getItem (events : List Record) (index : Int) : Option Record :=
  if 0 ≤ index then events[index.toNat]?
  else if -(events.length : Int) ≤ index then events[(events.length + index).toNat]?
  else none

/-- One step of `events` for a subscriber, up to its next `yield` or `await`. -/
def World.pull (w : World) (id : Nat) (subscriber : Subscriber) : World :=
  let put := fun (w : World) (subscriber : Subscriber) => { w with subscribers := w.subscribers.insert id subscriber }
  match w.handles.lookup subscriber.runId with
  | none => w
  | some handle =>
    match subscriber.reading with
    | .opening =>
      put w { subscriber with reading := if subscriber.runId ∈ w.runs then .replaying else .broken }
    | .replaying =>
      if subscriber.index < handle.events.length then
        match getItem handle.events subscriber.index with
        | none => put w { subscriber with reading := .broken }
        | some record => put w { subscriber with index := subscriber.index + 1, sent := subscriber.sent ++ [record] }
      else if handle.status.isTerminal = true then put w { subscriber with reading := .returned }
      else
        put (w.onHandle subscriber.runId fun handle => { handle with waiters := handle.waiters ++ [id] })
          { subscriber with reading := .waiting }
    | .waiting => if id ∈ handle.waiters then w else put w { subscriber with reading := .replaying }
    | _ => w

inductive Event
  | start (runId : String) (kind : BackgroundRunKind) (target : String) (known : RunMetadata)
      (childErrorEvents : List String)
  | begin (runId : String)
  | turn (runId : String) (turn : Turn)
  | close (runId : String)
  | terminalize (runId : String)
  | cancel (runId : String)
  | cancelTarget (target : String)
  | reset
  /-- The answer to a request for a run's events. -/
  | subscribe (runId : String) (afterSeq : Int)
  | pull (id : Nat)
  /-- A subscriber's client goes. -/
  | leave (id : Nat)

/-- Cancel the runs that the registry knows, that have not ended and that meet a test. -/
def World.cancelAll (w : World) (test : Handle → Bool) : World :=
  w.runs.foldl (fun w runId => w.onHandle runId fun handle =>
    if (!handle.status.isTerminal && test handle) = true then handle.cancel else handle) w

/-- The ids of runs are random and never repeat: of one that was given before nothing starts. -/
def World.start (w : World) (runId : String) (handle : Handle) : World :=
  match w.handles.lookup runId with
  | some _ => w
  | none => { w with runs := w.runs ++ [runId], handles := w.handles.insert runId handle }

def World.cancel (w : World) (runId : String) : World :=
  if runId ∈ w.runs then
    w.onHandle runId fun handle => if handle.status.isTerminal = true then handle else handle.cancel
  else w

def World.subscribe (w : World) (runId : String) (afterSeq : Int) : World :=
  if runId ∈ w.runs then
    { w with
      subscribers := w.subscribers.insert w.subscribed ⟨runId, afterSeq, afterSeq, [], .opening⟩
      subscribed := w.subscribed + 1 }
  else w

def step (w : World) (event : Event) : World :=
  match event with
  | .start runId kind target known childErrorEvents =>
    w.start runId { kind := kind, target := target, known := known, childErrorEvents := childErrorEvents }
  | .begin runId => w.onHandle runId Handle.begin
  | .turn runId turn => w.onHandle runId fun handle => handle.turn turn
  | .close runId => w.ending runId Handle.close
  | .terminalize runId => w.ending runId Handle.terminalize
  | .cancel runId => w.cancel runId
  | .cancelTarget target => w.cancelAll fun handle => decide (handle.target = target)
  | .reset => { w.cancelAll fun _ => true with runs := [] }
  | .subscribe runId afterSeq => w.subscribe runId afterSeq
  | .pull id =>
    match w.subscribers.lookup id with
    | none => w
    | some subscriber => w.pull id subscriber
  | .leave id =>
    match w.subscribers.lookup id with
    | none => w
    | some subscriber => { w with subscribers := w.subscribers.insert id { subscriber with reading := .broken } }

/-- What the route says of a run. -/
def World.describe (w : World) (runId : String) : Option Handle :=
  if runId ∈ w.runs then w.handles.lookup runId else none

end Rdst.Web.RunRegistry
