import Rdst.Web.RunRecords
import Rdst.Web.Finished

namespace Rdst.Web.Replay

open Assoc Machine

abbrev Server := RunRegistry.World

abbrev Page := BackgroundRuns.World

abbrev Client := BackgroundRuns.Client

/-- A record that a run's frames were applied of, and whether its case moved the run on. -/
structure Applied where
  seq : Nat
  moved : Bool
deriving DecidableEq

structure World where
  server : Server
  page : Page
  /-- The subscriber that a stream reads from, and how many of its records were handed over. -/
  links : Dict Nat (Nat × Nat)
  /-- The answers to probes, on their way. -/
  replies : Dict String BackgroundRuns.Probe
  applied : Dict String (List Applied)

def World.appliedOf (w : World) (runId : String) : List Applied := (w.applied.lookup runId).getD []

def World.empty (maxFinished : Nat) : World :=
  { server := .empty maxFinished, page := .empty, links := ∅, replies := ∅, applied := ∅ }

/-- What `JSON.parse` makes of a record's text. -/
def payloadOf (record : RunRegistry.Record) : Option Json :=
  (RunRegistry.jsonFields record.data).map fun fields =>
    (Json.object fields).withField "seq" (.number record.seq)

/-- The cases of `applyFrame` that do not break without an update. -/
def moves (kind : BackgroundRuns.BackgroundRunKind) (name : String) : Bool :=
  !decide (name = "complete") || decide (kind = .loadTest) || BackgroundRuns.isHealthCheckKind kind

def clientStatus : RunRegistry.RunStatus → BackgroundRuns.BackgroundRunStatus
  | .running => .running
  | .needsKey => .needsKey
  | .done => .done
  | .partially => .partially
  | .failed => .failed
  | .cancelled => .cancelled

def describe (handle : RunRegistry.Handle) : BackgroundRuns.Description :=
  { kind := handle.kind, target := handle.target, status := clientStatus handle.status
    lastSeq := handle.events.length, queryHash := handle.known.queryHash, label := handle.known.queryLabel
    concurrency := handle.known.concurrency, durationSeconds := handle.known.durationSeconds }

inductive Event
  /-- Whatever the server does, and other clients of it. -/
  | server (event : RunRegistry.Event)
  | attach (runId : String) (kind : BackgroundRuns.BackgroundRunKind) (target message : String)
      (known : BackgroundRuns.RunMetadata)
  /-- The request of a stream is served. -/
  | serve (token : Nat)
  /-- A stream's reader hands over the next record. -/
  | deliver (token : Nat)
  | done (token : Nat)
  | failed (token : Nat)
  | wake (token : Nat)
  /-- The request of a probe is served. -/
  | describe (runId : String)
  | probed (runId : String)
  | probeFailed (runId : String)
  | cancel (runId : String)
  | cancelled (request : Nat) (answer : BackgroundRuns.Answer)
  /-- The page is loaded again, and takes up the runs that the browser has stored. -/
  | reload

section Steps

variable (client : Client)

def World.onPage (w : World) (event : BackgroundRuns.Event) : World :=
  { w with page := BackgroundRuns.step client w.page event }

def serve (w : World) (token : Nat) : World :=
  match w.page.streams.lookup token with
  | some ⟨runId, .fetching afterSeq⟩ =>
    if runId ∉ w.server.runs then w.onPage client (.answered token 404)
    else if afterSeq.den ≠ 1 then w.onPage client (.answered token 422)
    else
      { w with
        server := w.server.subscribe runId afterSeq.num
        links := w.links.insert token (w.server.subscribed, 0)
      }.onPage client (.answered token 200)
  | _ => w

/-- The record that a stream's reader is to hand over next, with its link. -/
def World.upcoming (w : World) (token : Nat) : Option (String × Nat × Nat × RunRegistry.Record) :=
  match w.page.streams.lookup token, w.links.lookup token with
  | some ⟨runId, .reading⟩, some (id, taken) =>
    (w.server.subscribers.lookup id).bind fun subscriber =>
      (subscriber.sent[taken]?).map fun record => (runId, id, taken, record)
  | _, _ => none

def deliver (w : World) (token : Nat) : World :=
  match w.upcoming token with
  | none => w
  | some (runId, id, taken, record) =>
    let w := { w with links := w.links.insert token (id, taken + 1) }
    match payloadOf record, w.page.runs.lookup runId with
    | some payload, some run =>
      let entry := ⟨record.seq, moves run.kind (RunRegistry.sentName record.event)⟩
      { w with
        applied := w.applied.insert runId (w.appliedOf runId ++ [entry])
      }.onPage client (.frame token (RunRegistry.sentName record.event) payload)
    | _, _ => w

def reload (w : World) : World :=
  let stored := w.page.runs.entries.map fun entry => (entry.1, BackgroundRuns.storedRun client entry.2)
  let page := BackgroundRuns.reattachBackgroundRuns .empty stored
  { w with
    page := page
    links := ∅
    replies := ∅
    applied := keepKeys (fun runId => (page.runs.lookup runId).isSome) w.applied }

def step (w : World) (event : Event) : World :=
  match event with
  | .server event => { w with server := RunRegistry.step w.server event }
  | .attach runId kind target message known => w.onPage client (.attach runId kind target message known)
  | .serve token => serve client w token
  | .deliver token => deliver client w token
  | .done token => w.onPage client (.done token)
  | .failed token => w.onPage client (.failed token)
  | .wake token => w.onPage client (.wake token)
  | .describe runId =>
    let reply :=
      match w.server.describe runId with
      | none => BackgroundRuns.Probe.unknown
      | some handle => .found (describe handle)
    { w with replies := w.replies.insert runId reply }
  | .probed runId =>
    match w.replies.lookup runId with
    | none => w
    | some reply => { w with replies := w.replies.erase runId }.onPage client (.probed runId reply)
  | .probeFailed runId => w.onPage client (.probed runId .failed)
  | .cancel runId => w.onPage client (.cancel runId)
  | .cancelled request answer => w.onPage client (.cancelled request answer)
  | .reload => reload client w

end Steps

/-- The record that was applied last moved the run on. -/
def World.Caught (w : World) (runId : String) : Prop := ∀ last ∈ (w.appliedOf runId).getLast?, last.moved = true

def isUnknown : BackgroundRuns.Probe → Bool
  | .unknown => true
  | _ => false

/-- The server's own condition; a client reads every record that it is handed; and no request for a live run's records
is made right after a record that did not move the run on. -/
def Calm (w : World) : Event → Prop
  | .server event => RunRegistry.Calm event
  | .deliver token => ∀ next ∈ w.upcoming token, (payloadOf next.2.2.2).isSome = true
  | .wake token => ∀ stream ∈ w.page.streams.lookup token, stream.stage = .sleeping →
      w.page.streaming.lookup stream.runId = some token → w.page.isLive stream.runId = true → w.Caught stream.runId
  | .probed runId => (w.replies.lookup runId).isSome = true → (w.replies.lookup runId).any isUnknown = false →
      runId ∈ w.page.probing → w.page.isLive runId = true → w.Caught runId
  | .probeFailed runId => runId ∈ w.page.probing → w.page.isLive runId = true → w.Caught runId
  | _ => True

instance (w : World) (runId : String) : Decidable (w.Caught runId) :=
  inferInstanceAs (Decidable (∀ last ∈ (w.appliedOf runId).getLast?, _))

instance (w : World) (event : Event) : Decidable (Calm w event) :=
  match event with
  | .server event => inferInstanceAs (Decidable (RunRegistry.Calm event))
  | .deliver token => inferInstanceAs (Decidable (∀ next ∈ w.upcoming token, _))
  | .wake token => inferInstanceAs (Decidable (∀ stream ∈ w.page.streams.lookup token, _))
  | .probed runId => inferInstanceAs (Decidable ((w.replies.lookup runId).isSome = true → _))
  | .probeFailed runId => inferInstanceAs (Decidable (runId ∈ w.page.probing → _))
  | .attach .. => .isTrue trivial
  | .serve .. => .isTrue trivial
  | .done .. => .isTrue trivial
  | .failed .. => .isTrue trivial
  | .describe .. => .isTrue trivial
  | .cancel .. => .isTrue trivial
  | .cancelled .. => .isTrue trivial
  | .reload => .isTrue trivial

/-- What holds of the records in every state. -/
structure Replayed (w : World) : Prop where
  /-- A run that has ended has one terminal record, with its status, and it is the last. -/
  closed : ∀ runId handle, w.server.handles.lookup runId = some handle → handle.status.isTerminal = true →
    handle.Closed
  /-- A subscriber was sent the records after its number, in order. -/
  sent : ∀ id subscriber, w.server.subscribers.lookup id = some subscriber → ∃ handle after,
    w.server.handles.lookup subscriber.runId = some handle ∧ RunRegistry.Fair handle subscriber after
  /-- Nobody waits for a run that has ended. -/
  waiting : ∀ id subscriber handle, w.server.subscribers.lookup id = some subscriber →
    w.server.handles.lookup subscriber.runId = some handle → subscriber.reading = .waiting → id ∈ handle.waiters →
      handle.status.isTerminal = false
  /-- The client has applied the first records of a run, each once and in order. -/
  applied : ∀ runId, (w.appliedOf runId).map Applied.seq = List.range' 1 (w.appliedOf runId).length
  within : ∀ runId, w.appliedOf runId ≠ [] → ∃ handle, w.server.handles.lookup runId = some handle ∧
    (w.appliedOf runId).length ≤ handle.events.length
  /-- Where the client has a run's outcome from the server, it has applied all of its records. -/
  complete : ∀ runId run, w.page.runs.lookup runId = some run → BackgroundRuns.isTerminal run.status = true →
    run.status ≠ .interrupted → ∃ handle, w.server.handles.lookup runId = some handle ∧
      handle.status.isTerminal = true ∧ (w.appliedOf runId).length = handle.events.length

/-- A run that has ended gets no more records. -/
def Frozen (w w' : World) : Prop := ∀ runId handle, w.server.handles.lookup runId = some handle →
  ∃ handle', w'.server.handles.lookup runId = some handle' ∧
    (handle.status.isTerminal = true → handle'.events = handle.events ∧ handle'.status = handle.status)

/-- What a page shows of its runs: their places, their numbers, and which have an outcome from the server. -/
structure Quiet (page page' : Page) : Prop where
  streams : page'.streams = page.streams
  streaming : page'.streaming = page.streaming
  started : page'.started = page.started
  probing : page'.probing = page.probing
  runs : ∀ runId run', page'.runs.lookup runId = some run' → ∃ run, page.runs.lookup runId = some run ∧
    run'.lastSeq = run.lastSeq ∧ run'.kind = run.kind ∧ (BackgroundRuns.isTerminal run'.status = true → run'.status ≠ .interrupted →
      BackgroundRuns.isTerminal run.status = true ∧ run.status ≠ .interrupted)
  present : ∀ runId run, page.runs.lookup runId = some run → ∃ run', page'.runs.lookup runId = some run'
  waits : (∀ runId status, page.reconnectStatuses.lookup runId = some status →
      BackgroundRuns.isTerminal status = false) →
    ∀ runId status, page'.reconnectStatuses.lookup runId = some status → BackgroundRuns.isTerminal status = false

variable {page page' page'' : Page} {runId : String} {client : Client}

theorem Quiet.refl (page : Page) : Quiet page page :=
  ⟨rfl, rfl, rfl, rfl, fun _ run found => ⟨run, found, rfl, rfl, fun ends other => ⟨ends, other⟩⟩,
    fun _ run found => ⟨run, found⟩, fun waits => waits⟩

theorem Quiet.trans (first : Quiet page page') (second : Quiet page' page'') : Quiet page page'' := by
  refine ⟨second.streams.trans first.streams, second.streaming.trans first.streaming,
    second.started.trans first.started, second.probing.trans first.probing, ?_, ?_,
    fun waits => second.waits (first.waits waits)⟩
  · intro runId run'' found
    obtain ⟨run', found', seq, kind, outcome⟩ := second.runs runId run'' found
    obtain ⟨run, there, seq', kind', outcome'⟩ := first.runs runId run' found'
    refine ⟨run, there, seq.trans seq', kind.trans kind', ?_⟩
    intro ends other
    obtain ⟨ends', other'⟩ := outcome ends other
    exact outcome' ends' other'
  · intro runId run found
    obtain ⟨run', found'⟩ := first.present runId run found
    exact second.present runId run' found'

theorem updateRun_lookup (page : Page) (runId : String) (change : BackgroundRuns.BackgroundRun →
    BackgroundRuns.BackgroundRun) (other : String) : ∃ seen : BackgroundRuns.BackgroundRun → Bool,
      (page.updateRun runId change).runs.lookup other =
        if other = runId then (page.runs.lookup runId).map fun run => { change run with seenLive := seen run }
        else page.runs.lookup other := by
  unfold BackgroundRuns.World.updateRun
  cases found : page.runs.lookup runId with
  | none =>
    refine ⟨fun _ => false, ?_⟩
    by_cases same : other = runId
    · subst same
      simp [found]
    · simp [same]
  | some current =>
    refine ⟨fun run => run.seenLive ||
      decide ((change run).status = .running ∨ (change run).status = .reconnecting), ?_⟩
    simp only [insert_lookup]
    split <;> rfl

/-- An update that keeps the number and gives no outcome. -/
theorem updateRun_quiet {change : BackgroundRuns.BackgroundRun → BackgroundRuns.BackgroundRun}
    (seq : ∀ run, page.runs.lookup runId = some run → (change run).lastSeq = run.lastSeq)
    (kind : ∀ run, page.runs.lookup runId = some run → (change run).kind = run.kind)
    (outcome : ∀ run, page.runs.lookup runId = some run → BackgroundRuns.isTerminal (change run).status = true →
      (change run).status ≠ .interrupted → BackgroundRuns.isTerminal run.status = true ∧ run.status ≠ .interrupted) :
    Quiet page (page.updateRun runId change) := by
  obtain ⟨streaming, streams, started, probing⟩ := BackgroundRuns.updateRun_frame page runId change
  have reconnect : (page.updateRun runId change).reconnectStatuses = page.reconnectStatuses := by
    unfold BackgroundRuns.World.updateRun
    cases page.runs.lookup runId <;> rfl
  refine ⟨streams, streaming, started, probing, ?_, ?_, by rw [reconnect]; exact fun waits => waits⟩
  · intro other run' found
    obtain ⟨seen, there⟩ := updateRun_lookup page runId change other
    rw [there] at found
    split at found
    · rename_i same
      subst same
      obtain ⟨run, before, rfl⟩ := Option.map_eq_some_iff.mp found
      exact ⟨run, before, seq run before, kind run before, outcome run before⟩
    · exact ⟨run', found, rfl, rfl, fun ends other => ⟨ends, other⟩⟩
  · intro other run found
    obtain ⟨seen, there⟩ := updateRun_lookup page runId change other
    rw [there]
    split
    · rename_i same
      subst same
      rw [found]
      exact ⟨_, rfl⟩
    · exact ⟨run, found⟩

/-- What the page remembers for its runs' reconnection changes. -/
theorem remembers_quiet (page : Page) {statuses : Dict String BackgroundRuns.BackgroundRunStatus}
    (waits : (∀ runId status, page.reconnectStatuses.lookup runId = some status →
        BackgroundRuns.isTerminal status = false) →
      ∀ runId status, statuses.lookup runId = some status → BackgroundRuns.isTerminal status = false) :
    Quiet page { page with reconnectStatuses := statuses } :=
  ⟨rfl, rfl, rfl, rfl, fun _ run found => ⟨run, found, rfl, rfl, fun ends other => ⟨ends, other⟩⟩,
    fun _ run found => ⟨run, found⟩, waits⟩

theorem forgets_quiet (page : Page) (runId : String) :
    Quiet page { page with reconnectStatuses := page.reconnectStatuses.erase runId } := by
  apply remembers_quiet
  intro waits other status found
  rw [erase_lookup] at found
  split at found
  · cases found
  · exact waits other status found

theorem markReconnecting_quiet (page : Page) (runId : String) :
    Quiet page (BackgroundRuns.markReconnecting page runId) := by
  unfold BackgroundRuns.markReconnecting
  split
  · exact Quiet.refl page
  · rename_i run found
    split
    · exact Quiet.refl page
    · rename_i live
      have noted : Quiet page { page with reconnectStatuses := page.reconnectStatuses.insert runId run.status } := by
        apply remembers_quiet
        intro waits other status there
        rw [insert_lookup] at there
        split at there
        · cases there
          exact Bool.eq_false_iff.mpr fun ends => live (.inl ends)
        · exact waits other status there
      exact noted.trans (updateRun_quiet (fun _ _ => rfl) (fun _ _ => rfl) fun _ _ ends => by cases ends)

theorem restoreConnectedState_quiet (page : Page) (runId : String)
    (waits : ∀ runId status, page.reconnectStatuses.lookup runId = some status →
      BackgroundRuns.isTerminal status = false) :
    Quiet page (BackgroundRuns.restoreConnectedState page runId) := by
  unfold BackgroundRuns.restoreConnectedState
  have forgets := forgets_quiet page runId
  simp only
  split
  · exact forgets
  · split
    · exact forgets
    · refine forgets.trans (updateRun_quiet (fun _ _ => rfl) (fun _ _ => rfl) ?_)
      intro run _ ends
      cases known : page.reconnectStatuses.lookup runId with
      | none =>
        rw [known] at ends
        cases ends
      | some status =>
        rw [known] at ends
        have live := waits runId status known
        rw [show BackgroundRuns.isTerminal status = true from ends] at live
        cases live

section Frames

variable {run next : BackgroundRuns.BackgroundRun} {name : String} {payload : Json}

theorem frameRun_isSome (client : Client) (run : BackgroundRuns.BackgroundRun) (name : String) (payload : Json) :
    (BackgroundRuns.frameRun client run name payload).isSome = moves run.kind name := by
  unfold BackgroundRuns.frameRun moves
  simp only
  split
  case h_1 =>
    split
    · rfl
    · split
      · split <;> rfl
      · rfl
  case h_14 =>
    split
    · rename_i load
      simp [load]
    · rename_i load
      cases checks : BackgroundRuns.isHealthCheckKind run.kind <;> simp [load]
  case h_16 => split <;> rfl
  case h_21 =>
    rename_i other _ _ _ _ _ _
    have apart : decide (name = "complete") = false := decide_eq_false other
    rw [apart]
    rfl
  all_goals rfl

theorem frameRun_outcome (framed : BackgroundRuns.frameRun client run name payload = some next)
    (other : name ≠ "run_end") (ends : BackgroundRuns.isTerminal next.status = true) : next.status = run.status := by
  rcases (BackgroundRuns.frameRun_spec framed).2 with same | ⟨-, parked⟩ | ⟨-, resumed⟩ | ⟨last, -⟩
  · exact same
  · rw [parked] at ends
    cases ends
  · rw [resumed] at ends
    cases ends
  · exact absurd last other

end Frames

end Rdst.Web.Replay
