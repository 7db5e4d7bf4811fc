import Rdst.Lib.Assoc
import Rdst.Lib.Run
import Rdst.Web.Frames

namespace Rdst.Web.BackgroundRuns

open Assoc Machine

inductive BackgroundRunKind
  | bootstrap
  | schemaAnnotated
  | cacheTest
  | speedTest
  | loadTest
  | audit
  | auditCapture
  | fleetAudit
  | cacheCompare
  | analyze
deriving DecidableEq

inductive BackgroundRunStatus
  | running
  | reconnecting
  | stopping
  | needsKey
  | done
  | partially
  | failed
  | cancelled
  | interrupted
deriving DecidableEq

def BackgroundRunStatus.ofName (name : String) : Option BackgroundRunStatus :=
  match name with
  | "running" => some .running
  | "reconnecting" => some .reconnecting
  | "stopping" => some .stopping
  | "needs_key" => some .needsKey
  | "done" => some .done
  | "partial" => some .partially
  | "failed" => some .failed
  | "cancelled" => some .cancelled
  | "interrupted" => some .interrupted
  | _ => none

def isTerminal : BackgroundRunStatus → Bool
  | .done | .partially | .failed | .cancelled | .interrupted => true
  | _ => false

def isAuditKind (kind : BackgroundRunKind) : Bool := decide (kind = .audit ∨ kind = .auditCapture)

def isHealthCheckKind (kind : BackgroundRunKind) : Bool := isAuditKind kind || decide (kind = .fleetAudit)

structure BackgroundRun where
  kind : BackgroundRunKind
  target : String
  stage : String
  status : BackgroundRunStatus
  message : String
  lastSeq : ℚ
  current : Option ℚ
  total : Option ℚ
  hasWarnings : Bool
  queryHash : Option String := none
  queryLabel : Option String := none
  errorCode : Option String := none
  errorCategory : Option String := none
  result : Option Json := none
  loadResult : Option Json := none
  loadSamples : List Json := []
  compareSamples : List Json := []
  compareResult : Option Json := none
  concurrency : Option ℚ := none
  durationSeconds : Option ℚ := none
  snapshotId : Option String := none
  seenLive : Bool := false

def initialStages : BackgroundRunKind → String
  | .bootstrap => "connection_test"
  | .schemaAnnotated => "annotate"
  | .cacheTest => "connecting"
  | .speedTest => "queued"
  | .loadTest => "queued"
  | .audit => "config"
  | .auditCapture => "config"
  | .fleetAudit => "config"
  | .cacheCompare => "connecting"
  | .analyze => "analyzing"

def bootstrapStageLabels (stage : String) : String :=
  match stage with
  | "connection_test" => "Testing connection"
  | "structure" => "Fetching structure"
  | "profile" => "Profiling columns"
  | "annotate" => "Writing AI descriptions"
  | "deploy" => "Deploying Readyset"
  | _ => ""

/-- How the client reads and shows values. -/
structure Client extends Readers where
  /-- `String(value)`. -/
  str : Json → String
  /-- `Number(value)`. -/
  num : Json → ℚ
  /-- `value.toLocaleString()`, of a number. -/
  toLocaleString : ℚ → String
  isCacheRunResult : Json → Bool
  isCacheCompareSample : Json → Bool
  isCacheCompareRunResult : Json → Bool

/-- Math.round. -/
def round (x : ℚ) : ℚ := (x + 1 / 2).floor

/-- The last 240. -/
def recent (samples : List Json) : List Json := samples.drop (samples.length - 240)

/-- `a === b`; two objects are never one. -/
def sameValue : Option Json → Option Json → Bool
  | none, none => true
  | some .null, some .null => true
  | some (.bool a), some (.bool b) => decide (a = b)
  | some (.number a), some (.number b) => decide (a = b)
  | some (.string a), some (.string b) => decide (a = b)
  | _, _ => false

def numberOf : Option Json → Option ℚ
  | some (.number value) => some value
  | _ => none

section Frames

variable (client : Client)

/-- `String(payload.name ?? otherwise)`. -/
def textOf (payload : Json) (name otherwise : String) : String :=
  match payload.field name with
  | none => otherwise
  | some .null => otherwise
  | some value => client.str value

/-- `Number(payload.name ?? otherwise)`. -/
def countOf (payload : Json) (name : String) (otherwise : ℚ) : ℚ :=
  match payload.field name with
  | none => otherwise
  | some .null => otherwise
  | some value => client.num value

def shown (payload : Json) (name : String) : String := client.toLocaleString (countOf client payload name 0)

def seconds (n : ℚ) : String := client.str (.number (round n)) ++ "s"

def annotationWarning (payload : Json) : Bool :=
  decide (textOf client payload "stage" "" = "annotate" ∧ textOf client payload "status" "" = "failed")

def bootstrapMessage (run : BackgroundRun) (payload : Json) : String :=
  if (run.hasWarnings && !annotationWarning client payload) = true then run.message
  else
    let message := textOf client payload "message" ""
    let label := bootstrapStageLabels (textOf client payload "stage" "")
    if message ≠ "" then message else if label ≠ "" then label else run.message

/-- The run after a frame of `seq`, nothing where the frame's case breaks without an update. -/
def frameRun (run : BackgroundRun) (event : String) (payload : Json) : Option BackgroundRun :=
  let seq := (numberOf (payload.field "seq")).getD run.lastSeq
  let base := { run with lastSeq := max run.lastSeq seq }
  match event with
  | "progress" =>
    if run.kind = .loadTest ∧ sameValue (payload.field "phase") (some (.string "preparing")) = true then
      some { base with
        stage := "preparing"
        message := "Preparing Readyset caches (" ++ shown client payload "prepared_count" ++ "/" ++
          shown client payload "prepare_total" ++ ")"
        loadResult := some payload }
    else
      match numberOf (payload.field "total_executions") with
      | some executions =>
        if run.kind = .loadTest then
          some { base with
            stage := "running"
            message := client.toLocaleString executions ++ " executions"
            loadResult := some payload
            loadSamples := recent (run.loadSamples ++ [payload]) }
        else
          some { base with
            stage := textOf client payload "stage" run.stage
            message := textOf client payload "message" run.message
            current := (numberOf (payload.field "percent")).or run.current
            total := some 100 }
      | none =>
        some { base with
          stage := textOf client payload "stage" run.stage
          message := textOf client payload "message" run.message
          current := (numberOf (payload.field "percent")).or run.current
          total := some 100 }
  | "bootstrap_stage" =>
    some { base with
      stage := textOf client payload "stage" ""
      hasWarnings := run.hasWarnings || annotationWarning client payload
      status := if run.status = .needsKey then .running else run.status
      message := bootstrapMessage client run payload }
  | "needs_key" =>
    some { base with
      status := .needsKey
      message := textOf client payload "message" "Add an AI key to finish setup" }
  | "annotate_started" =>
    some { base with
      stage := "annotate"
      message := textOf client payload "message" "Starting annotation..."
      current := some (countOf client payload "completed_tables" 0)
      total := some (countOf client payload "tables" 0) }
  | "annotate_progress" =>
    some { base with
      message := textOf client payload "message" "Annotating schema..."
      current := some (countOf client payload "table_index" (run.current.getD 0))
      total := some (countOf client payload "total_tables" (run.total.getD 0)) }
  | "annotate_table_complete" =>
    some { base with
      message :=
        if Json.truthy (payload.field "table") = true then "Annotated " ++ textOf client payload "table" ""
        else run.message
      current := some (countOf client payload "table_index" (run.current.getD 0))
      total := some (countOf client payload "total_tables" (run.total.getD 0)) }
  | "annotate_complete" =>
    some { base with
      hasWarnings := run.hasWarnings || decide (0 < countOf client payload "tables_failed" 0) ||
        Json.isFalse (payload.field "success")
      message := textOf client payload "message" "Annotation complete" }
  | "status" =>
    some { base with
      stage := textOf client payload "phase" run.stage
      message := textOf client payload "message" run.message }
  | "target_start" =>
    let total := countOf client payload "total" 0
    some { base with
      stage := "collect"
      message :=
        if run.kind = .fleetAudit then
          "Auditing " ++ client.str (.number total) ++ (if total = 1 then " target" else " targets") ++ "..."
        else "Auditing " ++ textOf client payload "target_name" run.target ++ "..." }
  | "capture_progress" =>
    let elapsed := countOf client payload "elapsed_seconds" 0
    let total := countOf client payload "total_seconds" 0
    some { base with
      stage := "capture"
      message :=
        if total = 0 then "Capturing " ++ seconds client elapsed
        else "Capturing " ++ seconds client elapsed ++ " of " ++ seconds client total
      current := if total = 0 then none else some (min 100 (round (elapsed / total * 100)))
      total := if total = 0 then none else some 100 }
  | "snapshot_saved" => some { base with snapshotId := some (textOf client payload "snapshot_id" "") }
  | "target_error" =>
    let name := textOf client payload "target_name" ""
    let reason := textOf client payload "error" run.message
    some { base with
      hasWarnings := true
      message := if run.kind = .fleetAudit ∧ name ≠ "" then name ++ ": " ++ reason else reason }
  | "target_complete" =>
    some { base with
      stage := if run.kind = .fleetAudit then run.stage else "storage"
      message :=
        if run.kind = .fleetAudit then "Audited " ++ textOf client payload "target_name" run.target
        else "Collected metrics" }
  | "complete" =>
    if run.kind = .loadTest then
      some { base with
        stage := "complete"
        message := "Load test complete"
        loadResult := some payload
        loadSamples :=
          if sameValue (Json.fieldOf run.loadSamples.getLast? "total_executions")
              (payload.field "total_executions") = true then run.loadSamples
          else recent (run.loadSamples ++ [payload]) }
    else if isHealthCheckKind run.kind = false then none
    else
      let failed := Json.isFalse (payload.field "success")
      some { base with
        stage := "storage"
        hasWarnings := run.hasWarnings || failed
        snapshotId :=
          (Json.text? (Json.orElse (payload.field "snapshot_id") (payload.field "run_id"))).or run.snapshotId
        message :=
          if failed = true then run.message
          else if run.kind = .auditCapture then "Capture complete"
          else if run.kind = .fleetAudit then "Fleet health check complete"
          else "Health check complete"
        current := some 100
        total := some 100 }
  | "cache_run_complete" =>
    let complete := client.isCacheRunResult payload
    some { base with
      result := if complete = true then some payload else none
      message := if complete = true then "Load test complete" else "Load test result is incomplete"
      current := some 100
      total := some 100 }
  | "cache_compare_sample" =>
    if client.isCacheCompareSample payload = false then some base
    else
      let duration := run.durationSeconds.getD 30
      some { base with
        compareSamples := recent (run.compareSamples ++ [payload])
        concurrency := numberOf (payload.field "concurrency")
        stage := "measuring"
        message := "Comparing with " ++ textOf client payload "concurrency" "" ++ " concurrent clients"
        current := some (min 99 (round (countOf client payload "elapsed_seconds" 0 / duration * 100)))
        total := some 100 }
  | "cache_compare_complete" =>
    let complete := client.isCacheCompareRunResult payload
    some { base with
      compareResult := if complete = true then some payload else none
      compareSamples :=
        match complete, payload.field "timeline" with
        | true, some (.array items) => items
        | _, _ => run.compareSamples
      message := if complete = true then "Live comparison complete" else "Comparison result is incomplete"
      current := some 100
      total := some 100 }
  | "error" | "annotate_error" =>
    let envelope := normalizeSseError client.toReaders payload
    some { base with
      message := envelope.message
      errorCode := some envelope.code
      errorCategory := envelope.category }
  | "run_end" =>
    let status := BackgroundRunStatus.ofName (textOf client payload "status" "done")
    some { base with
      status :=
        if run.hasWarnings = true ∧ status = some .done then .partially
        else (status.filter fun status => isTerminal status).getD .done }
  | _ => some base

end Frames

/-- Where a run's stream waits. -/
inductive Stage
  /-- For the answer to its request, which is for the records after a number. -/
  | fetching (afterSeq : ℚ)
  | reading
  /-- For its next attempt. -/
  | sleeping
  | ended
deriving DecidableEq

structure Stream where
  runId : String
  stage : Stage
deriving DecidableEq

structure World where
  runs : Dict String BackgroundRun
  /-- The token of a run's stream, which is the stream's number. -/
  streaming : Dict String Nat
  streams : Dict Nat Stream
  started : Nat
  probing : List String
  reconnectStatuses : Dict String BackgroundRunStatus
  /-- The DELETE requests that are not answered, with their runs. -/
  deletes : Dict Nat String
  asked : Nat
  reattachStarted : Bool

def World.empty : World :=
  { runs := ∅, streaming := ∅, streams := ∅, started := 0, probing := [], reconnectStatuses := ∅, deletes := ∅
    asked := 0, reattachStarted := false }

def World.updateRun (w : World) (runId : String) (change : BackgroundRun → BackgroundRun) : World :=
  match w.runs.lookup runId with
  | none => w
  | some current =>
    let next := change current
    { w with
      runs := w.runs.insert runId
        { next with
          seenLive := current.seenLive || decide (next.status = .running ∨ next.status = .reconnecting) } }

def markReconnecting (w : World) (runId : String) : World :=
  match w.runs.lookup runId with
  | none => w
  | some run =>
    if isTerminal run.status = true ∨ run.status = .needsKey ∨ run.status = .reconnecting then w
    else
      { w with reconnectStatuses := w.reconnectStatuses.insert runId run.status }.updateRun runId fun run =>
        { run with status := .reconnecting }

def restoreConnectedState (w : World) (runId : String) : World :=
  let previous := w.reconnectStatuses.lookup runId
  let w := { w with reconnectStatuses := w.reconnectStatuses.erase runId }
  match w.runs.lookup runId with
  | none => w
  | some run =>
    if run.status ≠ .reconnecting then w
    else w.updateRun runId fun run => { run with status := previous.getD .running }

/-- The stream's next request may be running; `abort` ends one, as a failure of the network does. -/
def stopStream (w : World) (runId : String) : World := { w with streaming := w.streaming.erase runId }

def removeRun (w : World) (runId : String) : World :=
  match w.runs.lookup runId with
  | none => w
  | some _ =>
    let w := stopStream { w with runs := w.runs.erase runId } runId
    { w with reconnectStatuses := w.reconnectStatuses.erase runId }

/-- The start of `streamRun`, up to its first request. -/
def streamRun (w : World) (runId : String) : World :=
  match w.streaming.lookup runId, w.runs.lookup runId with
  | none, some run =>
    if isTerminal run.status = true then w
    else
      { w with
        streaming := w.streaming.insert runId w.started
        streams := w.streams.insert w.started ⟨runId, .fetching run.lastSeq⟩
        started := w.started + 1 }
  | _, _ => w

/-- What a run is known by beside its kind and its target. -/
structure RunMetadata where
  queryHash : Option String := none
  queryLabel : Option String := none
  errorCode : Option String := none
  errorCategory : Option String := none
  concurrency : Option ℚ := none
  durationSeconds : Option ℚ := none

def newRun (kind : BackgroundRunKind) (target stage message : String) (status : BackgroundRunStatus)
    (known : RunMetadata) : BackgroundRun :=
  { kind := kind, target := target, stage := stage, status := status, message := message, lastSeq := 0
    current := none, total := none, hasWarnings := false, queryHash := known.queryHash
    queryLabel := known.queryLabel, errorCode := known.errorCode, errorCategory := known.errorCategory
    concurrency := known.concurrency, durationSeconds := known.durationSeconds
    seenLive := decide (status = .running) }

def attachRun (w : World) (runId : String) (kind : BackgroundRunKind) (target message : String)
    (known : RunMetadata) : World :=
  match w.runs.lookup runId with
  | some _ => w
  | none =>
    streamRun { w with
      runs := w.runs.insert runId (newRun kind target (initialStages kind) message .running known) } runId

/-- The name of a kind in a run's id; `now` is the clock's. -/
def kickoffFailed (w : World) (kindName : String) (kind : BackgroundRunKind) (target message now : String)
    (known : RunMetadata) : World :=
  let runId := kindName ++ "_" ++ target ++ "_start_failed_" ++ now
  { w with runs := w.runs.insert runId (newRun kind target "" message .failed known) }

/-- The start of `probeAndStream`, up to its request. -/
def probeAndStream (w : World) (runId : String) : World :=
  if runId ∈ w.probing then w
  else
    match w.runs.lookup runId with
    | none => w
    | some run => if isTerminal run.status = true then w else { w with probing := runId :: w.probing }

/-- `storageSafeRun`, and what `readStoredRuns` takes of it. -/
def storedRun (client : Client) (run : BackgroundRun) : BackgroundRun :=
  { run with
    result := (run.result.map fun result => result.withField "query" (.string "")).filter client.isCacheRunResult
    compareResult := run.compareResult.filter client.isCacheCompareRunResult
    compareSamples := run.compareSamples.filter client.isCacheCompareSample
    seenLive := false }

/-- A run that the browser has stored; one that was terminal when it was stored was not watched live. -/
def restoreStored (w : World) (entry : String × BackgroundRun) : World :=
  if entry.1 = "" ∨ (w.runs.lookup entry.1).isSome = true then w
  else
    let w := { w with
      runs := w.runs.insert entry.1 { entry.2 with seenLive := !isTerminal entry.2.status } }
    if isTerminal entry.2.status = true then w else probeAndStream w entry.1

def reattachBackgroundRuns (w : World) (stored : List (String × BackgroundRun)) : World :=
  if w.reattachStarted = true then w else stored.foldl restoreStored { w with reattachStarted := true }

/-- What the server says of a run. -/
structure Description where
  kind : BackgroundRunKind
  target : String
  status : BackgroundRunStatus
  lastSeq : ℚ
  queryHash : Option String
  label : Option String
  concurrency : Option ℚ
  durationSeconds : Option ℚ

/-- The server has records that the client has not. -/
def Description.replayPending (description : Description) (run : BackgroundRun) : Bool :=
  decide (run.lastSeq < description.lastSeq)

/-- A terminal status waits for the records that are still to be replayed. -/
def BackgroundRun.describedBy (run : BackgroundRun) (description : Description) : BackgroundRun :=
  { run with
    kind := description.kind
    target := description.target
    queryHash := description.queryHash.or run.queryHash
    queryLabel := description.label.or run.queryLabel
    concurrency := description.concurrency.or run.concurrency
    durationSeconds := description.durationSeconds.or run.durationSeconds
    status :=
      if (description.replayPending run && isTerminal description.status) = true then run.status
      else description.status }

inductive Probe
  | found (description : Description)
  | unknown
  /-- Another status of the answer, or no answer. -/
  | failed

def interruptedText : String := "Interrupted - run again."

/-- The rest of `probeAndStream`, after its request. -/
def probed (w : World) (runId : String) (answer : Probe) : World :=
  let w := { w with probing := w.probing.filter fun other => decide (other ≠ runId) }
  match answer with
  | .unknown => w.updateRun runId fun run => { run with status := .interrupted, message := interruptedText }
  | .failed => streamRun (markReconnecting w runId) runId
  | .found description =>
    match w.runs.lookup runId with
    | none => w
    | some current =>
      if isTerminal current.status = true then w
      else
        let w := { w with reconnectStatuses := w.reconnectStatuses.erase runId }
        let w := w.updateRun runId fun run => run.describedBy description
        if (description.replayPending current || !isTerminal description.status) = true then streamRun w runId
        else stopStream w runId

/-- What comes of a DELETE. -/
inductive Answer
  | accepted
  | refused (message : String)
  | failed

inductive Event
  | attach (runId : String) (kind : BackgroundRunKind) (target message : String) (known : RunMetadata)
  | kickoffFailed (kindName : String) (kind : BackgroundRunKind) (target message now : String) (known : RunMetadata)
  | reattach (stored : List (String × BackgroundRun))
  | probed (runId : String) (answer : Probe)
  /-- The request of a stream is answered. -/
  | answered (token status : Nat)
  | frame (token : Nat) (name : String) (data : Json)
  /-- The body of a stream's answer is at its end. -/
  | done (token : Nat)
  /-- A request or a read fails, as one that is aborted does. -/
  | failed (token : Nat)
  | wake (token : Nat)
  | cancel (runId : String)
  | cancelled (request : Nat) (answer : Answer)
  | interrupt (runId message : String)
  | dismiss (runId : String)

def applyFrame (client : Client) (w : World) (runId name : String) (data : Json) : World :=
  match w.runs.lookup runId with
  | none => w
  | some run =>
    let w := if run.status = .reconnecting then restoreConnectedState w runId else w
    match w.runs.lookup runId with
    | none => w
    | some run =>
      -- Of null there are no fields, and the reader goes on after what is thrown.
      if data.isNull = true then w
      else
        match frameRun client run name data with
        | none => w
        | some next => w.updateRun runId fun _ => next

/-- The `finally` of a stream. -/
def World.settle (w : World) (token : Nat) (stream : Stream) : World :=
  { w with
    streams := w.streams.insert token { stream with stage := .ended }
    streaming :=
      if w.streaming.lookup stream.runId = some token then w.streaming.erase stream.runId else w.streaming }

def World.goTo (w : World) (token : Nat) (stream : Stream) (stage : Stage) : World :=
  { w with streams := w.streams.insert token { stream with stage := stage } }

/-- The `catch` of a stream. -/
def World.retry (w : World) (token : Nat) (stream : Stream) : World :=
  (markReconnecting w stream.runId).goTo token stream .sleeping

def World.isLive (w : World) (runId : String) : Bool :=
  (w.runs.lookup runId).any fun run => !isTerminal run.status

/-- One step of `streamRun` after its first request. -/
def streamStep (client : Client) (w : World) (token : Nat) (stream : Stream) (event : Event) : World :=
  match stream.stage, event with
  | .fetching _, .answered _ status =>
    if w.streaming.lookup stream.runId ≠ some token then w.settle token stream
    else if status = 404 then
      (w.updateRun stream.runId fun run =>
        { run with status := .interrupted, message := interruptedText }).settle token stream
    else if ¬ (200 ≤ status ∧ status ≤ 299) then w.retry token stream
    else (restoreConnectedState w stream.runId).goTo token stream .reading
  | .reading, .frame _ name data => applyFrame client w stream.runId name data
  | .reading, .done _ => if w.isLive stream.runId = true then w.retry token stream else w.settle token stream
  | .fetching _, .failed _ => w.retry token stream
  | .reading, .failed _ => w.retry token stream
  | .sleeping, .wake _ =>
    match w.runs.lookup stream.runId with
    | none => w.settle token stream
    | some run =>
      if w.streaming.lookup stream.runId = some token ∧ isTerminal run.status = false then
        w.goTo token stream (.fetching run.lastSeq)
      else w.settle token stream
  | _, _ => w

def cancelBackgroundRun (w : World) (runId : String) : World :=
  let w := w.updateRun runId fun run => { run with status := .stopping, message := "Stopping active query..." }
  { w with deletes := w.deletes.insert w.asked runId, asked := w.asked + 1 }

/-- The rest of `cancelBackgroundRun`, after its request. -/
def cancelAnswered (w : World) (request : Nat) (answer : Answer) : World :=
  match w.deletes.lookup request with
  | none => w
  | some runId =>
    let w := { w with deletes := w.deletes.erase request }
    match answer with
    | .accepted => w
    | .refused message => w.updateRun runId fun run => { run with status := .running, message := message }
    | .failed => w.updateRun runId fun run => { run with status := .running, message := "Could not cancel this run" }

def markRunInterrupted (w : World) (runId message : String) : World :=
  if w.isLive runId = true then
    (stopStream w runId).updateRun runId fun run => { run with status := .interrupted, message := message }
  else w

def streamEvent (client : Client) (w : World) (token : Nat) (event : Event) : World :=
  match w.streams.lookup token with
  | none => w
  | some stream => streamStep client w token stream event

def step (client : Client) (w : World) (event : Event) : World :=
  match event with
  | .attach runId kind target message known => attachRun w runId kind target message known
  | .kickoffFailed kindName kind target message now known => kickoffFailed w kindName kind target message now known
  | .reattach stored => reattachBackgroundRuns w stored
  | .probed runId answer => if runId ∈ w.probing then probed w runId answer else w
  | .answered token _ => streamEvent client w token event
  | .frame token _ _ => streamEvent client w token event
  | .done token => streamEvent client w token event
  | .failed token => streamEvent client w token event
  | .wake token => streamEvent client w token event
  | .cancel runId => cancelBackgroundRun w runId
  | .cancelled request answer => cancelAnswered w request answer
  | .interrupt runId message => markRunInterrupted w runId message
  | .dismiss runId => removeRun w runId

end Rdst.Web.BackgroundRuns
