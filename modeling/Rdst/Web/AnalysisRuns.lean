import Rdst.Lib.Assoc
import Rdst.Lib.Run
import Rdst.Web.Frames

namespace Rdst.Web.AnalysisRuns

open Assoc Machine

inductive AnalysisState
  | analyzing
  | complete
  | error
  | cancelled
deriving DecidableEq

structure AnalyzeRequest where
  target : Option String
  fast : Bool
  query : String

/-- The completion work of a run is known by a number. -/
structure AnalysisRunMeta where
  queryHash : Option String
  queryLabel : Option String
  onComplete : Option Nat

structure AnalysisRun where
  key : String
  jobId : String
  runMeta : AnalysisRunMeta
  request : AnalyzeRequest
  state : AnalysisState
  progress : Option Json
  results : Option Json
  rewriteTesting : Option Json
  readysetCacheability : Option Json
  error : Option String
  errorEnvelope : Option ApiErrorEnvelope

def analysisRunKey (request : AnalyzeRequest) : String :=
  "\x00".intercalate [request.target.getD "", if request.fast = true then "fast" else "full", request.query]

inductive JobStatus
  | running
  | done
  | failed
  | cancelled
deriving DecidableEq

/-- What the runs tell the rest of the client. -/
inductive Note
  | job (runId target : String) (status : JobStatus) (message : String) (queryHash : Option String) (label : String)
  | dismissed (runId : String)
  | completed (callback : Nat) (results : Json)
  | observed (queryHash : String)

/-- Where a stream's reader waits. -/
inductive Stage
  /-- For the answer. -/
  | fetching
  /-- For the body of a refusal, read as JSON. -/
  | readingJson (status : Nat)
  /-- For the body of a refusal, read as text. -/
  | readingText (status : Nat)
  /-- For a chunk, or within one: the lines of it that are still to be read. -/
  | reading (buffer currentEvent : List Char) (lines : List (List Char))
  | ended
deriving DecidableEq

structure Stream where
  key : String
  aborted : Bool
  stage : Stage
deriving DecidableEq

structure World where
  runs : Dict String AnalysisRun
  /-- The stream whose controller a key has. -/
  controllers : Dict String Nat
  runKeysByHash : Dict String String
  jobSequence : Nat
  notes : List Note
  streams : Dict Nat Stream
  /-- The number of streams started. -/
  started : Nat
  /-- The stream of the latest start of a key. -/
  latest : Dict String Nat

def World.empty : World :=
  { runs := ∅, controllers := ∅, runKeysByHash := ∅, jobSequence := 0, notes := [], streams := ∅, started := 0
    latest := ∅ }

/-- The fields that an update names; what it does not name stays. -/
structure Update where
  state : Option AnalysisState := none
  progress : Option Json := none
  results : Option Json := none
  rewriteTesting : Option (Option Json) := none
  readysetCacheability : Option (Option Json) := none
  error : Option ApiErrorEnvelope := none

def AnalysisRun.with (run : AnalysisRun) (change : Update) : AnalysisRun :=
  { run with
    state := change.state.getD run.state
    progress := change.progress.or run.progress
    results := change.results.or run.results
    rewriteTesting := change.rewriteTesting.getD run.rewriteTesting
    readysetCacheability := change.readysetCacheability.getD run.readysetCacheability
    error := (change.error.map fun envelope => envelope.message).or run.error
    errorEnvelope := change.error.or run.errorEnvelope }

/-- `first || second`, of a text that may be missing. -/
def orText (first : Option String) (second : String) : String :=
  match first with
  | some text => if text = "" then second else text
  | none => second

def jobTitle (run : AnalysisRun) : String := orText run.runMeta.queryLabel (orText run.runMeta.queryHash run.request.query)

def World.note (w : World) (note : Note) : World := { w with notes := w.notes ++ [note] }

def World.reportJob (w : World) (run : AnalysisRun) (status : JobStatus) (message : String) : World :=
  w.note (.job run.jobId (run.request.target.getD "") status message run.runMeta.queryHash (jobTitle run))

def World.update (w : World) (key : String) (change : Update) : World :=
  match w.runs.lookup key with
  | none => w
  | some current =>
    let next := current.with change
    let w := { w with runs := w.runs.insert key next }
    if change.state = some .complete then w.reportJob next .done "Analysis complete"
    else if (Json.truthy change.progress && decide (next.state = .analyzing)) = true then
      w.reportJob next .running ((Json.text? (Json.fieldOf change.progress "message")).getD "")
    else w

def World.fail (w : World) (key : String) (envelope : ApiErrorEnvelope) : World :=
  let w := w.update key { state := some .error, error := some envelope }
  match w.runs.lookup key with
  | none => w
  | some run => w.reportJob run .failed envelope.message

/-- `controllers.get(key)?.abort()`. -/
def World.abort (w : World) (key : String) : World :=
  match w.controllers.lookup key with
  | none => w
  | some id =>
    match w.streams.lookup id with
    | none => w
    | some stream => { w with streams := w.streams.insert id { stream with aborted := true } }

/-- Abort, and `controllers.delete(key)`. -/
def World.abandon (w : World) (key : String) : World :=
  { w.abort key with controllers := (w.abort key).controllers.erase key }

def newRun (request : AnalyzeRequest) (runMeta : AnalysisRunMeta) (sequence : Nat) : AnalysisRun :=
  { key := analysisRunKey request, jobId := "analyze_" ++ toString sequence, runMeta := runMeta, request := request
    state := .analyzing, progress := none, results := none, rewriteTesting := none, readysetCacheability := none
    error := none, errorEnvelope := none }

/-- `if (hash) runKeysByHash.set(hash, key)`. -/
def claimHash (keys : Dict String String) (hash : Option String) (key : String) : Dict String String :=
  (hash.filter fun hash => decide (hash ≠ "")).elim keys fun hash => keys.insert hash key

def startAnalysisRun (w : World) (request : AnalyzeRequest) (runMeta : AnalysisRunMeta) : World :=
  let key := analysisRunKey request
  let w := w.abort key
  let run := newRun request runMeta (w.jobSequence + 1)
  let dismissed := (w.runs.lookup key).map fun previous => Note.dismissed previous.jobId
  { w with
    runs := w.runs.insert key run
    controllers := w.controllers.insert key w.started
    runKeysByHash := claimHash w.runKeysByHash runMeta.queryHash key
    jobSequence := w.jobSequence + 1
    notes := w.notes ++ dismissed.toList
    streams := w.streams.insert w.started ⟨key, false, .fetching⟩
    started := w.started + 1
    latest := w.latest.insert key w.started
  }.reportJob run .running "Measuring the query..."

def cancelAnalysisRun (w : World) (key : String) : World :=
  if key = "" then w
  else
    let w := w.abandon key
    match w.runs.lookup key with
    | none => w
    | some run =>
      if run.state ≠ .analyzing then w
      else
        let w := w.update key { state := some .cancelled }
        w.reportJob ((w.runs.lookup key).getD run) .cancelled "Analysis cancelled"

def resetAnalysisRun (w : World) (key : String) : World :=
  if key = "" then w
  else
    let w := w.abandon key
    match w.runs.lookup key with
    | none => w
    | some run =>
      let claimed := (run.runMeta.queryHash.filter fun hash => decide (hash ≠ "")).filter fun hash =>
        decide (w.runKeysByHash.lookup hash = some key)
      { w with
        runs := w.runs.erase key
        runKeysByHash := claimed.elim w.runKeysByHash fun hash => w.runKeysByHash.erase hash
      }.note (.dismissed run.jobId)

section Streams

variable (readers : Readers)

/-- A run started without its registry hash learns it from its results. -/
def World.claim (w : World) (key hash : String) : World :=
  let w :=
    match w.runs.lookup key with
    | none => w
    | some current =>
      if Option.all (fun known => decide (known = "")) current.runMeta.queryHash = true then
        { w with runs := w.runs.insert key { current with runMeta := { current.runMeta with queryHash := some hash } } }
      else w
  { w with runKeysByHash := w.runKeysByHash.insert hash key }

/-- The completion work of a run, which is done once. -/
def World.runCompletion (w : World) (key : String) (payload : Json) : World :=
  match w.runs.lookup key with
  | none => w
  | some completed =>
    match completed.runMeta.onComplete with
    | none => w
    | some callback =>
      { w with
        runs := w.runs.insert key { completed with runMeta := { completed.runMeta with onComplete := none } }
      }.note (.completed callback payload)

/-- The `complete` frame of an analysis that went through. -/
def World.complete (w : World) (key : String) (payload : Json) : World :=
  let hash := (Json.text? (payload.field "query_hash")).filter fun hash => decide (hash ≠ "")
  let w := hash.elim w fun hash => w.claim key hash
  let kept := (w.runs.lookup key).bind fun run => run.readysetCacheability
  let w := w.update key
    { state := some .complete
      results := some payload
      rewriteTesting := some (Json.orElse (normalizeRewriteTesting (payload.field "rewrite_testing"))
        (normalizeRewriteTesting (Json.fieldOf (payload.field "formatted") "rewrite_testing")))
      readysetCacheability := some (Json.orElse (payload.field "readyset_cacheability") kept) }
  let w := w.runCompletion key payload
  hash.elim w fun hash => w.note (.observed hash)

/-- What a frame does; where it throws, it does nothing and the reader goes on. -/
def applyFrame (w : World) (key : String) (event : String) (data : Json) : World :=
  match event with
  | "progress" => w.update key { progress := some data }
  | "rewrites_tested" => w.update key { rewriteTesting := some (normalizeRewriteTesting (some data)) }
  | "readyset_checked" => w.update key { readysetCacheability := some (some data) }
  | "complete" =>
    if data.isNull = true then w
    else if Json.isFalse (Json.fieldOf (data.field "explain_results") "success") = true then
      match normalizeExplainError readers (Json.fieldOf (data.field "explain_results") "error") with
      | none => w
      | some envelope => w.fail key envelope
    else w.complete key data
  | "error" => w.fail key (normalizeSseError readers data)
  | _ => w

/-- The steps of a stream, and what the rest of the client calls. -/
inductive Event
  | start (request : AnalyzeRequest) (runMeta : AnalysisRunMeta)
  | cancel (key : String)
  | reset (key : String)
  /-- `fetch` answers. -/
  | answered (id status : Nat) (hasBody : Bool)
  /-- A refusal's body is read as JSON, or that read fails. -/
  | json (id : Nat) (body : Option Json)
  /-- A refusal's body is read as text, or that read fails. -/
  | text (id : Nat) (body : Option String)
  | chunk (id : Nat) (text : List Char)
  /-- The next line of the chunk at hand. -/
  | line (id : Nat)
  /-- The body is at its end. -/
  | done (id : Nat)
  /-- A wait that an abort ends. -/
  | abortError (id : Nat)
  /-- A wait that fails otherwise. -/
  | failed (id : Nat) (detail : Option String)

/-- The `finally` of a stream. -/
def World.settle (w : World) (id : Nat) (stream : Stream) : World :=
  { w with
    streams := w.streams.insert id { stream with stage := .ended }
    controllers := if w.controllers.lookup stream.key = some id then w.controllers.erase stream.key else w.controllers }

def World.goTo (w : World) (id : Nat) (stream : Stream) (stage : Stage) : World :=
  { w with streams := w.streams.insert id { stream with stage := stage } }

def networkError (detail : Option String) : ApiErrorEnvelope :=
  { code := "network_error"
    message := "Could not reach the analysis service. Check that it is running and try again."
    detail := detail }

/-- One step of `streamRun`. -/
def streamStep (w : World) (id : Nat) (stream : Stream) (event : Event) : World :=
  match stream.stage, event with
  | .fetching, .answered _ status hasBody =>
    if ¬ (200 ≤ status ∧ status ≤ 299) then w.goTo id stream (.readingJson status)
    else if hasBody = true then w.goTo id stream (.reading [] [] [])
    else (w.fail stream.key (networkError (some "No response body"))).settle id stream
  | .readingJson status, .json _ (some body) =>
    (w.fail stream.key (normalizeHttpError readers status (some body))).settle id stream
  | .readingJson status, .json _ none => w.goTo id stream (.readingText status)
  | .readingText status, .text _ body =>
    (w.fail stream.key (normalizeHttpError readers status (body.map Json.string))).settle id stream
  | .reading buffer currentEvent [], .chunk _ text =>
    let (lines, last) := splitLines (buffer ++ text)
    w.goTo id stream (.reading last currentEvent lines)
  | .reading buffer currentEvent (line :: rest), .line _ =>
    match readLine line with
    | .blank => w.goTo id stream (.reading buffer [] rest)
    | .event name => w.goTo id stream (.reading buffer name rest)
    | .other => w.goTo id stream (.reading buffer currentEvent rest)
    | .data text =>
      let w := w.goTo id stream (.reading buffer currentEvent rest)
      match readers.parse text with
      | none => w
      | some data => applyFrame readers w stream.key (String.ofList currentEvent) data
  | .reading _ _ [], .done _ => w.settle id stream
  | .fetching, .abortError _ => if stream.aborted = true then w.settle id stream else w
  | .reading _ _ [], .abortError _ => if stream.aborted = true then w.settle id stream else w
  | .fetching, .failed _ detail => (w.fail stream.key (networkError detail)).settle id stream
  | .reading _ _ [], .failed _ detail => (w.fail stream.key (networkError detail)).settle id stream
  | _, _ => w

/-- The stream whose step an event is. -/
def Event.stream : Event → Option Nat
  | .answered id _ _ | .json id _ | .text id _ | .chunk id _ | .line id | .done id | .abortError id | .failed id _ =>
    some id
  | _ => none

def step (w : World) (event : Event) : World :=
  match event with
  | .start request runMeta => startAnalysisRun w request runMeta
  | .cancel key => cancelAnalysisRun w key
  | .reset key => resetAnalysisRun w key
  | event =>
    match event.stream with
    | none => w
    | some id =>
      match w.streams.lookup id with
      | none => w
      | some stream => streamStep readers w id stream event

end Streams

end Rdst.Web.AnalysisRuns
