import Rdst.Web.AnalysisRuns

namespace Rdst.Web.AnalysisRuns

open Assoc Machine

variable {readers : Readers} {w w' w'' : World} {key : String} {event : Event}

/-- The run of one key may be written, and nothing but runs, notes and the keys by hash. -/
structure Writes (key : String) (w w' : World) : Prop where
  streams : w'.streams = w.streams
  controllers : w'.controllers = w.controllers
  started : w'.started = w.started
  latest : w'.latest = w.latest
  others : ∀ other, other ≠ key → w'.runs.lookup other = w.runs.lookup other
  run : ∀ run', w'.runs.lookup key = some run' → ∃ run, w.runs.lookup key = some run ∧
    (run'.state = run.state ∨ run'.state = .complete ∨ run'.state = .error)

theorem Writes.refl (key : String) (w : World) : Writes key w w :=
  ⟨rfl, rfl, rfl, rfl, fun _ _ => rfl, fun run' found => ⟨run', found, .inl rfl⟩⟩

theorem Writes.trans (first : Writes key w w') (second : Writes key w' w'') : Writes key w w'' := by
  refine ⟨second.streams.trans first.streams, second.controllers.trans first.controllers,
    second.started.trans first.started, second.latest.trans first.latest, ?_, ?_⟩
  · intro other apart
    rw [second.others other apart, first.others other apart]
  · intro run'' found
    obtain ⟨run', found', after⟩ := second.run run'' found
    obtain ⟨run, there, before⟩ := first.run run' found'
    refine ⟨run, there, ?_⟩
    rcases after with same | ends
    · rw [same]
      exact before
    · exact .inr ends

theorem Writes.hashes (writes : Writes key w w') (keys : Dict String String) :
    Writes key w { w' with runKeysByHash := keys } := { writes with }

theorem Writes.noted (writes : Writes key w w') (notes : List Note) : Writes key w { w' with notes := notes } :=
  { writes with }

theorem runMeta_writes {run : AnalysisRun} (found : w.runs.lookup key = some run) (runMeta : AnalysisRunMeta) :
    Writes key w { w with runs := w.runs.insert key { run with runMeta := runMeta } } := by
  refine ⟨rfl, rfl, rfl, rfl, ?_, ?_⟩
  · intro other apart
    simp only [insert_lookup, if_neg apart]
  · intro run' found'
    simp only [insert_lookup, if_true, Option.some.injEq] at found'
    subst found'
    exact ⟨run, found, .inl rfl⟩

theorem update_runs (w : World) (key : String) (change : Update) (other : String) :
    (w.update key change).runs.lookup other =
      if other = key then (w.runs.lookup key).map fun run => run.with change else w.runs.lookup other := by
  unfold World.update
  cases found : w.runs.lookup key with
  | none =>
    by_cases same : other = key
    · subst same
      simpa using found
    · simp [same]
  | some run =>
    have stored : (w.runs.insert key (run.with change)).lookup other =
        if other = key then some (run.with change) else w.runs.lookup other := insert_lookup ..
    simp only
    split
    · exact stored
    · split <;> exact stored

theorem update_frame (w : World) (key : String) (change : Update) :
    (w.update key change).streams = w.streams ∧ (w.update key change).controllers = w.controllers ∧
      (w.update key change).started = w.started ∧ (w.update key change).latest = w.latest := by
  unfold World.update
  cases w.runs.lookup key with
  | none => exact ⟨rfl, rfl, rfl, rfl⟩
  | some run =>
    simp only
    split
    · exact ⟨rfl, rfl, rfl, rfl⟩
    · split <;> exact ⟨rfl, rfl, rfl, rfl⟩

theorem update_writes (w : World) (key : String) {change : Update}
    (ends : change.state = none ∨ change.state = some .complete ∨ change.state = some .error) :
    Writes key w (w.update key change) := by
  obtain ⟨streams, controllers, started, latest⟩ := update_frame w key change
  refine ⟨streams, controllers, started, latest, ?_, ?_⟩
  · intro other apart
    rw [update_runs, if_neg apart]
  · intro run' found
    rw [update_runs, if_pos rfl] at found
    obtain ⟨run, there, rfl⟩ := Option.map_eq_some_iff.mp found
    refine ⟨run, there, ?_⟩
    rcases ends with stays | done | failed
    · left
      simp [AnalysisRun.with, stays]
    · right; left
      simp [AnalysisRun.with, done]
    · right; right
      simp [AnalysisRun.with, failed]

theorem fail_eq (w : World) (key : String) (envelope : ApiErrorEnvelope) : ∃ notes,
    w.fail key envelope = { w.update key { state := some .error, error := some envelope } with notes := notes } := by
  unfold World.fail
  simp only
  split
  · exact ⟨_, rfl⟩
  · exact ⟨_, rfl⟩

theorem fail_writes (w : World) (key : String) (envelope : ApiErrorEnvelope) :
    Writes key w (w.fail key envelope) := by
  obtain ⟨notes, same⟩ := fail_eq w key envelope
  rw [same]
  exact (update_writes w key (.inr (.inr rfl))).noted notes

theorem fail_state {envelope : ApiErrorEnvelope} {run : AnalysisRun}
    (found : (w.fail key envelope).runs.lookup key = some run) : run.state = .error := by
  obtain ⟨notes, same⟩ := fail_eq w key envelope
  rw [same] at found
  simp only [update_runs, if_true] at found
  obtain ⟨before, -, rfl⟩ := Option.map_eq_some_iff.mp found
  rfl

theorem claim_writes (w : World) (key hash : String) : Writes key w (w.claim key hash) := by
  unfold World.claim
  cases found : w.runs.lookup key with
  | none => exact (Writes.refl key w).hashes _
  | some current =>
    simp only
    split
    · exact (runMeta_writes found _).hashes _
    · exact (Writes.refl key w).hashes _

theorem runCompletion_writes (w : World) (key : String) (payload : Json) :
    Writes key w (w.runCompletion key payload) := by
  unfold World.runCompletion
  split
  · exact Writes.refl key w
  · rename_i completed found
    split
    · exact Writes.refl key w
    · exact (runMeta_writes found _).noted _

theorem complete_writes (w : World) (key : String) (payload : Json) : Writes key w (w.complete key payload) := by
  unfold World.complete
  extract_lets hash claimed kept updated finished
  have claims : Writes key w claimed := by
    show Writes key w (hash.elim w fun hash => w.claim key hash)
    cases hash with
    | none => exact Writes.refl key w
    | some hash => exact claim_writes w key hash
  have updates : Writes key claimed updated := update_writes _ _ (.inr (.inl rfl))
  have all := (claims.trans updates).trans (runCompletion_writes updated key payload)
  cases hash with
  | none => exact all
  | some hash => exact all.noted _

theorem applyFrame_writes (readers : Readers) (w : World) (key event : String) (data : Json) :
    Writes key w (applyFrame readers w key event data) := by
  unfold applyFrame
  split
  · exact update_writes w key (.inl rfl)
  · exact update_writes w key (.inl rfl)
  · exact update_writes w key (.inl rfl)
  · split
    · exact Writes.refl key w
    · split
      · split
        · exact Writes.refl key w
        · exact fail_writes w key _
      · exact complete_writes w key data
  · exact fail_writes w key _
  · exact Writes.refl key w

/-- `applyFrame` has a case that writes for the frame, and does not throw in it. -/
def frameApplies (readers : Readers) (event : String) (data : Json) : Bool :=
  match event with
  | "progress" | "rewrites_tested" | "readyset_checked" | "error" => true
  | "complete" =>
    !data.isNull && (!Json.isFalse (Json.fieldOf (data.field "explain_results") "success") ||
      (normalizeExplainError readers (Json.fieldOf (data.field "explain_results") "error")).isSome)
  | _ => false

/-- The step applies a frame or a failure under the stream's key. -/
def Stream.applies (readers : Readers) (stream : Stream) (event : Event) : Bool :=
  match stream.stage, event with
  | .fetching, .answered _ status hasBody => decide (200 ≤ status ∧ status ≤ 299) && !hasBody
  | .readingJson _, .json _ body => body.isSome
  | .readingText _, .text _ _ => true
  | .reading _ currentEvent (line :: _), .line _ =>
    match readLine line with
    | .data text => (readers.parse text).any fun data => frameApplies readers (String.ofList currentEvent) data
    | _ => false
  | .fetching, .failed _ _ => true
  | .reading _ _ [], .failed _ _ => true
  | _, _ => false

/-- The stream's body is at its end. -/
def Stream.atEnd (stream : Stream) (event : Event) : Bool :=
  match stream.stage, event with
  | .reading _ _ [], .done _ => true
  | _, _ => false

/-- No stream whose controller was aborted applies anything to another start's run or to a cancelled one, and no
stream's body ends while its run is `analyzing`. -/
def Calm (readers : Readers) (w : World) (event : Event) : Prop :=
  ∀ id ∈ event.stream, ∀ stream ∈ w.streams.lookup id, ∀ run ∈ w.runs.lookup stream.key,
    (stream.aborted = true → stream.applies readers event = true →
      w.latest.lookup stream.key = some id ∧ run.state ≠ .cancelled) ∧
    (stream.atEnd event = true → w.latest.lookup stream.key = some id → run.state ≠ .analyzing)

instance (readers : Readers) (w : World) (event : Event) : Decidable (Calm readers w event) :=
  inferInstanceAs (Decidable (∀ id ∈ event.stream, ∀ stream ∈ w.streams.lookup id,
    ∀ run ∈ w.runs.lookup stream.key, _))

/-- The calls about a key. -/
def Event.names (key : String) : Event → Prop
  | .start request _ => analysisRunKey request = key
  | .cancel other => other = key
  | .reset other => other = key
  | _ => False

/-- The calls after which a key has another run, or none. -/
def Event.renews (key : String) : Event → Prop
  | .start request _ => analysisRunKey request = key
  | .reset other => other = key
  | _ => False

/-- Only the runs that a call names or the latest stream of their key may change, and a cancelled one only by a call. -/
structure Owned (w w' : World) (event : Event) : Prop where
  owner : ∀ key, w'.runs.lookup key ≠ w.runs.lookup key →
    event.names key ∨ ∃ id, event.stream = some id ∧ w.latest.lookup key = some id
  cancelled : ∀ key run, w.runs.lookup key = some run → run.state = .cancelled → ¬ event.renews key →
    w'.runs.lookup key = some run

structure Inert (w w' : World) (event : Event) : Prop extends Owned w w' event where
  settled : ∀ key id stream run, w'.latest.lookup key = some id → w'.streams.lookup id = some stream →
    stream.stage = .ended → w'.runs.lookup key = some run → run.state ≠ .analyzing

/-- What a step of a stream leaves. -/
inductive StreamStep (readers : Readers) (w : World) (id : Nat) (stream : Stream) (event : Event) : World → Prop
  | stays : StreamStep readers w id stream event w
  | moves (stage : Stage) : stream.stage ≠ .ended → stage ≠ .ended →
      StreamStep readers w id stream event (w.goTo id stream stage)
  | applied (stage : Stage) (w' : World) : stream.stage ≠ .ended → stage ≠ .ended →
      stream.applies readers event = true → Writes stream.key (w.goTo id stream stage) w' →
      StreamStep readers w id stream event w'
  | failed (envelope : ApiErrorEnvelope) : stream.stage ≠ .ended → stream.applies readers event = true →
      StreamStep readers w id stream event ((w.fail stream.key envelope).settle id stream)
  | finished : stream.atEnd event = true ∨ stream.aborted = true →
      StreamStep readers w id stream event (w.settle id stream)

theorem applyFrame_idle {name : String} {data : Json} (idle : frameApplies readers name data = false) :
    applyFrame readers w key name data = w := by
  unfold applyFrame
  unfold frameApplies at idle
  split
  · simp at idle
  · simp at idle
  · simp at idle
  · simp only [Bool.and_eq_false_iff, Bool.not_eq_false', Bool.or_eq_false_iff] at idle
    rcases idle with isNull | ⟨refused, throws⟩
    · rw [if_pos isNull]
    · split
      · rfl
      · rw [Option.isSome_eq_false_iff, Option.isNone_iff_eq_none] at throws
        simp only [throws]
  · simp at idle
  · rfl

theorem streamStep_cases (readers : Readers) (w : World) (id : Nat) (stream : Stream) (event : Event) :
    StreamStep readers w id stream event (streamStep readers w id stream event) := by
  obtain ⟨key, aborted, stage⟩ := stream
  unfold streamStep
  split
  · rename_i status hasBody
    split
    · exact .moves _ (by simp_all) (by simp)
    · rename_i okay
      split
      · exact .moves _ (by simp_all) (by simp)
      · exact .failed _ (by simp_all) (by simp_all [Stream.applies])
  · exact .failed _ (by simp_all) (by simp_all [Stream.applies])
  · exact .moves _ (by simp_all) (by simp)
  · exact .failed _ (by simp_all) (by simp_all [Stream.applies])
  · exact .moves _ (by simp_all) (by simp)
  · rename_i buffer currentEvent line rest id' here
    cases kind : readLine line with
    | blank => exact .moves _ (by simp_all) (by simp)
    | event name => exact .moves _ (by simp_all) (by simp)
    | other => exact .moves _ (by simp_all) (by simp)
    | data text =>
      simp only
      cases parsed : readers.parse text with
      | none => exact .moves _ (by simp_all) (by simp)
      | some data =>
        cases applies : frameApplies readers (String.ofList currentEvent) data with
        | false =>
          simp only [applyFrame_idle applies]
          exact .moves _ (by simp_all) (by simp)
        | true =>
          exact .applied (.reading buffer currentEvent rest) _ (by simp_all) (by simp)
            (by simp_all [Stream.applies]) (applyFrame_writes ..)
  · exact .finished (.inl (by simp_all [Stream.atEnd]))
  · split
    · rename_i stopped
      exact .finished (.inr stopped)
    · exact .stays
  · split
    · rename_i stopped
      exact .finished (.inr stopped)
    · exact .stays
  · exact .failed _ (by simp_all) (by simp_all [Stream.applies])
  · exact .failed _ (by simp_all) (by simp_all [Stream.applies])
  · exact .stays

/-- The streams, and what the keys have of them. -/
structure World.Good (w : World) : Prop where
  known : ∀ key id, w.latest.lookup key = some id → ∃ stream, w.streams.lookup id = some stream ∧ stream.key = key
  bounded : ∀ id stream, w.streams.lookup id = some stream → id < w.started
  held : ∀ key id, w.controllers.lookup key = some id → w.latest.lookup key = some id
  live : ∀ id stream, w.streams.lookup id = some stream → stream.aborted = false → stream.stage ≠ .ended →
    w.controllers.lookup stream.key = some id
  settled : ∀ key id stream run, w.latest.lookup key = some id → w.streams.lookup id = some stream →
    stream.aborted = true ∨ stream.stage = .ended → w.runs.lookup key = some run → run.state ≠ .analyzing
  going : ∀ key id stream run, w.latest.lookup key = some id → w.streams.lookup id = some stream →
    stream.aborted = false → stream.stage ≠ .ended → w.runs.lookup key = some run → run.state ≠ .cancelled

theorem empty_good : World.empty.Good := by
  have nothing : ∀ {Key Value : Type} [DecidableEq Key] (key : Key) (value : Value),
      (∅ : Dict Key Value).lookup key ≠ some value := by
    intro Key Value _ key value found
    cases found
  exact ⟨fun _ _ found => absurd found (nothing _ _), fun _ _ found => absurd found (nothing _ _),
    fun _ _ found => absurd found (nothing _ _), fun _ _ found => absurd found (nothing _ _),
    fun _ _ _ _ found => absurd found (nothing _ _), fun _ _ _ _ found => absurd found (nothing _ _)⟩

theorem World.Good.own_key (good : w.Good) {id : Nat} {stream : Stream} (latest : w.latest.lookup key = some id)
    (found : w.streams.lookup id = some stream) : stream.key = key := by
  obtain ⟨other, there, same⟩ := good.known key id latest
  rw [found] at there
  cases there
  exact same

theorem World.Good.writes (good : w.Good) (writes : Writes key w w') : w'.Good := by
  obtain ⟨streams, controllers, started, latest, others, written⟩ := writes
  refine ⟨?_, ?_, ?_, ?_, ?_, ?_⟩
  · rw [streams, latest]
    exact good.known
  · rw [streams, started]
    exact good.bounded
  · rw [controllers, latest]
    exact good.held
  · rw [streams, controllers]
    exact good.live
  · rw [streams, latest]
    intro other id stream run' newest there stopped found
    by_cases same : other = key
    · subst same
      obtain ⟨run, before, state⟩ := written run' found
      have quiet := good.settled other id stream run newest there stopped before
      rcases state with state | state | state
      · rwa [state]
      · simp [state]
      · simp [state]
    · rw [others other same] at found
      exact good.settled other id stream run' newest there stopped found
  · rw [streams, latest]
    intro other id stream run' newest there goes unended found
    by_cases same : other = key
    · subst same
      obtain ⟨run, before, state⟩ := written run' found
      have stays := good.going other id stream run newest there goes unended before
      rcases state with state | state | state
      · rwa [state]
      · simp [state]
      · simp [state]
    · rw [others other same] at found
      exact good.going other id stream run' newest there goes unended found

theorem World.Good.goTo (good : w.Good) {id : Nat} {stream : Stream} {stage : Stage}
    (found : w.streams.lookup id = some stream) (before : stream.stage ≠ .ended) (after : stage ≠ .ended) :
    (w.goTo id stream stage).Good := by
  have streams : ∀ other, (w.goTo id stream stage).streams.lookup other =
      if other = id then some { stream with stage := stage } else w.streams.lookup other := insert_lookup _ _ _
  have moved : ∀ other there, (w.goTo id stream stage).streams.lookup other = some there →
      ∃ old, w.streams.lookup other = some old ∧ old.key = there.key ∧ old.aborted = there.aborted ∧
        (old.stage = .ended ↔ there.stage = .ended) := by
    intro other there member
    rw [streams other] at member
    split at member
    · rename_i same
      subst same
      cases member
      exact ⟨stream, found, rfl, rfl, by simp [before, after]⟩
    · exact ⟨there, member, rfl, rfl, Iff.rfl⟩
  refine ⟨?_, ?_, good.held, ?_, ?_, ?_⟩
  · intro key newest latest
    obtain ⟨old, there, same⟩ := good.known key newest latest
    rw [streams newest]
    split
    · rename_i equal
      rw [equal, found] at there
      cases there
      exact ⟨_, rfl, same⟩
    · exact ⟨old, there, same⟩
  · intro other there member
    obtain ⟨old, known, -⟩ := moved other there member
    exact good.bounded other old known
  · intro other there member goes unended
    obtain ⟨old, known, same, aborted, ended⟩ := moved other there member
    rw [← same]
    exact good.live other old known (aborted.trans goes) (fun over_ => unended (ended.mp over_))
  · intro key other there run latest member stopped
    obtain ⟨old, known, -, aborted, ended⟩ := moved other there member
    exact good.settled key other old run latest known (by rwa [aborted, ended])
  · intro key other there run latest member goes unended
    obtain ⟨old, known, -, aborted, ended⟩ := moved other there member
    exact good.going key other old run latest known (aborted.trans goes) (fun over_ => unended (ended.mp over_))

theorem World.Good.settle (good : w.Good) {id : Nat} {stream : Stream} (found : w.streams.lookup id = some stream)
    (quiet : ∀ run, w.latest.lookup stream.key = some id → w.runs.lookup stream.key = some run →
      run.state ≠ .analyzing) : (w.settle id stream).Good := by
  have streams : ∀ other, (w.settle id stream).streams.lookup other =
      if other = id then some { stream with stage := .ended } else w.streams.lookup other := insert_lookup _ _ _
  have controllers : ∀ key, (w.settle id stream).controllers.lookup key =
      if key = stream.key ∧ w.controllers.lookup key = some id then none else w.controllers.lookup key := by
    intro key
    show AList.lookup key (if w.controllers.lookup stream.key = some id then _ else _) = _
    by_cases own : w.controllers.lookup stream.key = some id
    · rw [if_pos own, erase_lookup]
      by_cases same : key = stream.key
      · subst same
        simp [own]
      · simp [same]
    · rw [if_neg own, if_neg]
      rintro ⟨rfl, held⟩
      exact own held
  refine ⟨?_, ?_, ?_, ?_, ?_, ?_⟩
  · intro key newest latest
    obtain ⟨old, there, same⟩ := good.known key newest latest
    rw [streams newest]
    split
    · rename_i equal
      rw [equal, found] at there
      cases there
      exact ⟨_, rfl, same⟩
    · exact ⟨old, there, same⟩
  · intro other there member
    rw [streams other] at member
    split at member
    · rename_i equal
      rw [equal]
      exact good.bounded id stream found
    · exact good.bounded other there member
  · intro key held there
    rw [controllers key] at there
    split at there
    · cases there
    · exact good.held key held there
  · intro other there member goes unended
    rw [streams other] at member
    split at member
    · cases member
      exact absurd rfl unended
    · rename_i apart
      have held := good.live other there member goes unended
      rw [controllers, if_neg, held]
      rintro ⟨-, own⟩
      rw [held] at own
      exact apart (Option.some.inj own)
  · intro key other there run latest member stopped ran
    rw [streams other] at member
    split at member
    · rename_i equal
      subst equal
      have own := good.own_key latest found
      subst own
      exact quiet run latest ran
    · exact good.settled key other there run latest member stopped ran
  · intro key other there run latest member goes unended ran
    rw [streams other] at member
    split at member
    · cases member
      exact absurd rfl unended
    · exact good.going key other there run latest member goes unended ran

theorem abort_frame (w : World) (key : String) : (w.abort key).runs = w.runs ∧
    (w.abort key).controllers = w.controllers ∧ (w.abort key).started = w.started ∧ (w.abort key).latest = w.latest := by
  unfold World.abort
  split
  · exact ⟨rfl, rfl, rfl, rfl⟩
  · split <;> exact ⟨rfl, rfl, rfl, rfl⟩

theorem abort_streams (w : World) (key : String) (id : Nat) : (w.abort key).streams.lookup id =
    if w.controllers.lookup key = some id then
      (w.streams.lookup id).map fun stream => { stream with aborted := true }
    else w.streams.lookup id := by
  unfold World.abort
  cases held : w.controllers.lookup key with
  | none => simp
  | some own =>
    simp only [Option.some.injEq]
    by_cases same : own = id
    · subst same
      cases found : w.streams.lookup own with
      | none => simp [found]
      | some stream => simp
    · rw [if_neg same]
      split
      · rfl
      · exact AList.lookup_insert_ne (fun equal => same equal.symm)

/-- A stream that an abort of a key leaves going is of another key. -/
theorem World.Good.spared (good : w.Good) {id : Nat} {stream : Stream}
    (found : (w.abort key).streams.lookup id = some stream) (goes : stream.aborted = false)
    (unended : stream.stage ≠ .ended) : w.streams.lookup id = some stream ∧
      w.controllers.lookup stream.key = some id ∧ stream.key ≠ key := by
  rw [abort_streams] at found
  split at found
  · obtain ⟨old, -, rfl⟩ := Option.map_eq_some_iff.mp found
    cases goes
  · rename_i other
    have held := good.live id stream found goes unended
    refine ⟨found, held, ?_⟩
    intro same
    rw [same] at held
    exact other held

/-- An abort of a key leaves the latest streams of other keys. -/
theorem World.Good.abort_other (good : w.Good) {other : String} {id : Nat} (apart : other ≠ key)
    (latest : w.latest.lookup other = some id) : (w.abort key).streams.lookup id = w.streams.lookup id := by
  rw [abort_streams, if_neg]
  intro held
  obtain ⟨stream, found, own⟩ := good.known other id latest
  have also := good.own_key (good.held key id held) found
  exact apart (own.symm.trans also)

theorem World.Good.abort_known (good : w.Good) {other : String} {id : Nat} (latest : w.latest.lookup other = some id) :
    ∃ stream, (w.abort key).streams.lookup id = some stream ∧ stream.key = other := by
  obtain ⟨stream, found, own⟩ := good.known other id latest
  rw [abort_streams, found]
  split
  · exact ⟨_, rfl, own⟩
  · exact ⟨stream, rfl, own⟩

theorem World.Good.abort_bounded (good : w.Good) {id : Nat} {stream : Stream}
    (found : (w.abort key).streams.lookup id = some stream) : id < w.started := by
  rw [abort_streams] at found
  split at found
  · obtain ⟨old, there, -⟩ := Option.map_eq_some_iff.mp found
    exact good.bounded id old there
  · exact good.bounded id stream found

/-- The stream of a key is aborted and has no controller, and no other run than the key's is written. -/
structure Dropped (key : String) (w w' : World) : Prop where
  streams : w'.streams = (w.abort key).streams
  controllers : w'.controllers = w.controllers.erase key
  started : w'.started = w.started
  latest : w'.latest = w.latest
  others : ∀ other, other ≠ key → w'.runs.lookup other = w.runs.lookup other

theorem World.Good.dropped (good : w.Good) (dropped : Dropped key w w')
    (quiet : ∀ run, w'.runs.lookup key = some run → run.state ≠ .analyzing) : w'.Good := by
  obtain ⟨streams, controllers, started, latest, others⟩ := dropped
  refine ⟨?_, ?_, ?_, ?_, ?_, ?_⟩
  · rw [latest, streams]
    exact fun other id newest => good.abort_known newest
  · rw [started, streams]
    exact fun id stream found => good.abort_bounded found
  · rw [latest, controllers]
    intro other id held
    rw [erase_lookup] at held
    split at held
    · cases held
    · exact good.held other id held
  · rw [streams, controllers]
    intro id stream found goes unended
    obtain ⟨-, held, apart⟩ := good.spared found goes unended
    rw [erase_lookup, if_neg apart, held]
  · rw [latest, streams]
    intro other id stream run newest found stopped ran
    by_cases same : other = key
    · subst same
      exact quiet run ran
    · rw [good.abort_other same newest] at found
      rw [others other same] at ran
      exact good.settled other id stream run newest found stopped ran
  · rw [latest, streams]
    intro other id stream run newest found goes unended ran
    obtain ⟨before, -, apart⟩ := good.spared found goes unended
    rw [good.own_key newest before] at apart
    rw [others other apart] at ran
    exact good.going other id stream run newest before goes unended ran

theorem startAnalysisRun_frame (w : World) (request : AnalyzeRequest) (runMeta : AnalysisRunMeta) :
    let key := analysisRunKey request
    let w' := startAnalysisRun w request runMeta
    w'.streams = (w.abort key).streams.insert w.started ⟨key, false, .fetching⟩ ∧
      w'.controllers = w.controllers.insert key w.started ∧ w'.started = w.started + 1 ∧
      w'.latest = w.latest.insert key w.started ∧
      ∃ sequence, w'.runs = w.runs.insert key (newRun request runMeta sequence) := by
  obtain ⟨runs, controllers, started, latest⟩ := abort_frame w (analysisRunKey request)
  simp only [startAnalysisRun, World.reportJob, World.note, runs, controllers, started, latest, true_and]
  exact ⟨_, rfl⟩

theorem World.Good.start (good : w.Good) (request : AnalyzeRequest) (runMeta : AnalysisRunMeta) :
    (startAnalysisRun w request runMeta).Good := by
  obtain ⟨streams, controllers, started, latest, sequence, runs⟩ := startAnalysisRun_frame w request runMeta
  have fresh : ∀ {id stream}, (w.abort (analysisRunKey request)).streams.lookup id = some stream → id ≠ w.started :=
    fun found => (good.abort_bounded found).ne
  refine ⟨?_, ?_, ?_, ?_, ?_, ?_⟩
  · rw [latest, streams]
    intro other id newest
    rw [insert_lookup] at newest
    split at newest
    · rename_i same
      cases newest
      exact ⟨_, by rw [insert_lookup, if_pos rfl], same.symm⟩
    · obtain ⟨stream, found, own⟩ := good.abort_known newest
      exact ⟨stream, by rw [insert_lookup, if_neg (fresh found), found], own⟩
  · rw [started, streams]
    intro id stream found
    rw [insert_lookup] at found
    split at found
    · omega
    · have bound := good.abort_bounded found
      omega
  · rw [latest, controllers]
    intro other id held
    rw [insert_lookup] at held ⊢
    by_cases same : other = analysisRunKey request
    · rwa [if_pos same] at held ⊢
    · rw [if_neg same] at held ⊢
      exact good.held other id held
  · rw [streams, controllers]
    intro id stream found goes unended
    rw [insert_lookup] at found ⊢
    split at found
    · rename_i same
      cases found
      rw [if_pos rfl, same]
    · obtain ⟨-, held, apart⟩ := good.spared found goes unended
      rw [if_neg apart, held]
  · rw [streams, latest, runs]
    intro other id stream there newest found stopped ran
    rw [insert_lookup] at newest found ran
    by_cases same : other = analysisRunKey request
    · rw [if_pos same] at newest
      cases newest
      rw [if_pos rfl] at found
      cases found
      rcases stopped with stopped | stopped <;> cases stopped
    · rw [if_neg same] at newest ran
      have apart : id ≠ w.started := by
        obtain ⟨old, before, -⟩ := good.known other id newest
        exact (good.bounded id old before).ne
      rw [if_neg apart, good.abort_other same newest] at found
      exact good.settled other id stream there newest found stopped ran
  · rw [streams, latest, runs]
    intro other id stream there newest found goes unended ran
    rw [insert_lookup] at newest found ran
    by_cases same : other = analysisRunKey request
    · rw [if_pos same] at ran
      cases ran
      exact nofun
    · rw [if_neg same] at newest ran
      have apart : id ≠ w.started := by
        obtain ⟨old, before, -⟩ := good.known other id newest
        exact (good.bounded id old before).ne
      rw [if_neg apart, good.abort_other same newest] at found
      exact good.going other id stream there newest found goes unended ran

theorem abandon_runs (w : World) (key : String) : (w.abandon key).runs = w.runs := (abort_frame w key).1

theorem abandon_dropped (w : World) (key : String) : Dropped key w (w.abandon key) := by
  obtain ⟨runs, controllers, started, latest⟩ := abort_frame w key
  refine ⟨rfl, ?_, started, latest, fun other _ => ?_⟩
  · show (w.abort key).controllers.erase key = _
    rw [controllers]
  · rw [abandon_runs]

theorem cancelAnalysisRun_spec (w : World) (key : String) : cancelAnalysisRun w key = w ∨
    Dropped key w (cancelAnalysisRun w key) ∧
      (∀ run, (cancelAnalysisRun w key).runs.lookup key = some run → run.state ≠ .analyzing) ∧
      ∀ run, w.runs.lookup key = some run → run.state ≠ .analyzing →
        (cancelAnalysisRun w key).runs.lookup key = some run := by
  unfold cancelAnalysisRun
  by_cases unnamed : key = ""
  · rw [if_pos unnamed]
    exact .inl rfl
  · right
    rw [if_neg unnamed]
    have dropped := abandon_dropped w key
    have runs := abandon_runs w key
    generalize w.abandon key = mid at dropped runs
    simp only
    cases found : mid.runs.lookup key with
    | none =>
      refine ⟨dropped, by simp [found], ?_⟩
      intro run there
      rw [runs, there] at found
      cases found
    | some run =>
      simp only
      split
      · rename_i quiet
        refine ⟨dropped, ?_, ?_⟩
        · intro run' found'
          rw [found] at found'
          cases found'
          exact quiet
        · intro run' there _
          rwa [runs]
      · rename_i analyzing
        obtain ⟨streams, controllers, started, latest⟩ := update_frame mid key { state := some .cancelled }
        have written := update_runs mid key { state := some .cancelled }
        generalize mid.update key { state := some .cancelled } = updated at streams controllers started latest written
        refine ⟨⟨streams.trans dropped.streams, controllers.trans dropped.controllers,
          started.trans dropped.started, latest.trans dropped.latest, ?_⟩, ?_, ?_⟩
        · intro other apart
          refine (written other).trans ?_
          rw [if_neg apart, dropped.others other apart]
        · intro run' found'
          have there := (written key).symm.trans found'
          rw [if_pos rfl, found] at there
          cases there
          exact nofun
        · intro run' there quiet
          rw [runs, there] at found
          cases found
          exact absurd quiet analyzing

theorem World.Good.cancel (good : w.Good) (key : String) : (cancelAnalysisRun w key).Good := by
  rcases cancelAnalysisRun_spec w key with same | ⟨dropped, quiet, -⟩
  · rwa [same]
  · exact good.dropped dropped quiet

theorem resetAnalysisRun_spec (w : World) (key : String) : resetAnalysisRun w key = w ∨
    Dropped key w (resetAnalysisRun w key) ∧ (resetAnalysisRun w key).runs.lookup key = none := by
  unfold resetAnalysisRun
  by_cases unnamed : key = ""
  · rw [if_pos unnamed]
    exact .inl rfl
  · right
    rw [if_neg unnamed]
    have dropped := abandon_dropped w key
    generalize w.abandon key = mid at dropped
    simp only
    cases found : mid.runs.lookup key with
    | none => exact ⟨dropped, found⟩
    | some run =>
      refine ⟨{ dropped with others := ?_ }, AList.lookup_erase ..⟩
      intro other apart
      rw [← dropped.others other apart]
      exact AList.lookup_erase_ne apart

theorem World.Good.reset (good : w.Good) (key : String) : (resetAnalysisRun w key).Good := by
  rcases resetAnalysisRun_spec w key with same | ⟨dropped, gone⟩
  · rwa [same]
  · apply good.dropped dropped
    intro run found
    rw [gone] at found
    cases found

/-- A stream that applies something was not aborted, or its run is its own and was not cancelled. -/
theorem World.Good.owner (good : w.Good) {id : Nat} {stream : Stream} {run : AnalysisRun}
    (calm : Calm readers w event) (own : event.stream = some id) (found : w.streams.lookup id = some stream)
    (unended : stream.stage ≠ .ended) (applies : stream.applies readers event = true)
    (ran : w.runs.lookup stream.key = some run) :
    w.latest.lookup stream.key = some id ∧ run.state ≠ .cancelled := by
  cases aborted : stream.aborted with
  | true => exact (calm id own stream found run ran).1 aborted applies
  | false =>
    have latest := good.held _ _ (good.live id stream found aborted unended)
    exact ⟨latest, good.going _ id stream run latest found aborted unended ran⟩

theorem World.Good.stream (good : w.Good) {id : Nat} {stream : Stream} (calm : Calm readers w event)
    (own : event.stream = some id) (found : w.streams.lookup id = some stream)
    (after : StreamStep readers w id stream event w') : w'.Good := by
  cases after with
  | stays => exact good
  | moves stage before goes => exact good.goTo found before goes
  | applied stage _ before goes _ writes => exact (good.goTo found before goes).writes writes
  | failed envelope before applies =>
    have writes := fail_writes w stream.key envelope
    refine (good.writes writes).settle (by rw [writes.streams]; exact found) ?_
    intro run _ ran
    simp [fail_state ran]
  | finished ends =>
    refine good.settle found ?_
    intro run latest ran
    rcases ends with ends | aborted
    · exact (calm id own stream found run ran).2 ends latest
    · exact good.settled _ id stream run latest found (.inl aborted) ran

/-- A step of a stream leaves the runs, or applies something to the run of its key. -/
theorem StreamStep.runs {id : Nat} {stream : Stream} (after : StreamStep readers w id stream event w') :
    w'.runs = w.runs ∨ stream.stage ≠ .ended ∧ stream.applies readers event = true ∧
      (∀ other, other ≠ stream.key → w'.runs.lookup other = w.runs.lookup other) ∧
      ∀ run', w'.runs.lookup stream.key = some run' → ∃ run, w.runs.lookup stream.key = some run := by
  cases after with
  | stays => exact .inl rfl
  | moves => exact .inl rfl
  | applied stage _ before goes applies writes =>
    refine .inr ⟨before, applies, writes.others, ?_⟩
    intro run' found
    obtain ⟨run, there, -⟩ := writes.run run' found
    exact ⟨run, there⟩
  | failed envelope before applies =>
    have writes := fail_writes w stream.key envelope
    refine .inr ⟨before, applies, writes.others, ?_⟩
    intro run' found
    obtain ⟨run, there, -⟩ := writes.run run' found
    exact ⟨run, there⟩
  | finished => exact .inl rfl

theorem step_stream {id : Nat} (own : event.stream = some id) : step readers w event = w ∨
    ∃ stream, w.streams.lookup id = some stream ∧ StreamStep readers w id stream event (step readers w event) := by
  cases found : w.streams.lookup id with
  | none =>
    apply Or.inl
    cases event <;> cases own <;> simp only [step, Event.stream, found]
  | some stream =>
    have taken : step readers w event = streamStep readers w id stream event := by
      cases event <;> cases own <;> simp only [step, Event.stream, found]
    rw [taken]
    exact .inr ⟨stream, rfl, streamStep_cases readers w id stream event⟩

theorem step_good (good : w.Good) (calm : Calm readers w event) : (step readers w event).Good := by
  cases own : event.stream with
  | none =>
    cases event with
    | start request runMeta => exact good.start request runMeta
    | cancel key => exact good.cancel key
    | reset key => exact good.reset key
    | _ => cases own
  | some id =>
    rcases (step_stream own : step readers w event = w ∨ _) with same | ⟨stream, found, after⟩
    · rwa [same]
    · exact good.stream calm own found after

theorem Owned.of_runs (same : w'.runs = w.runs) (event : Event) : Owned w w' event := by
  refine ⟨fun key changed => absurd (by rw [same]) changed, fun key run found _ _ => ?_⟩
  rw [same, found]

/-- A call that leaves the runs of other keys than the one it names. -/
theorem Owned.of_others (others : ∀ other, other ≠ key → w'.runs.lookup other = w.runs.lookup other)
    (named : event.names key) (stays : ∀ run, w.runs.lookup key = some run → run.state = .cancelled →
      ¬ event.renews key → w'.runs.lookup key = some run) : Owned w w' event := by
  refine ⟨?_, ?_⟩
  · intro other changed
    by_cases same : other = key
    · rw [same]
      exact .inl named
    · exact absurd (others other same) changed
  · intro other run found cancelled kept
    by_cases same : other = key
    · subst same
      exact stays run found cancelled kept
    · rw [others other same, found]

theorem World.Good.stream_owned (good : w.Good) {id : Nat} {stream : Stream} (calm : Calm readers w event)
    (own : event.stream = some id) (found : w.streams.lookup id = some stream)
    (after : StreamStep readers w id stream event w') : Owned w w' event := by
  rcases after.runs with same | ⟨unended, applies, others, existed⟩
  · exact Owned.of_runs same event
  · refine ⟨?_, ?_⟩
    · intro key changed
      by_cases same : key = stream.key
      · subst same
        cases ran : w.runs.lookup stream.key with
        | some run => exact .inr ⟨id, own, (good.owner calm own found unended applies ran).1⟩
        | none =>
          rw [ran] at changed
          obtain ⟨run', found'⟩ := Option.ne_none_iff_exists'.mp changed
          obtain ⟨run, there⟩ := existed run' found'
          rw [ran] at there
          cases there
      · exact absurd (others key same) changed
    · intro key run ran cancelled _
      by_cases same : key = stream.key
      · subst same
        exact absurd cancelled (good.owner calm own found unended applies ran).2
      · rw [others key same, ran]

theorem step_owned (good : w.Good) (calm : Calm readers w event) : Owned w (step readers w event) event := by
  cases own : event.stream with
  | none =>
    cases event with
    | start request runMeta =>
      obtain ⟨-, -, -, -, sequence, runs⟩ := startAnalysisRun_frame w request runMeta
      have others : ∀ other, other ≠ analysisRunKey request →
          (startAnalysisRun w request runMeta).runs.lookup other = w.runs.lookup other := by
        intro other apart
        rw [runs]
        exact AList.lookup_insert_ne apart
      exact Owned.of_others others rfl (fun _ _ _ kept => absurd rfl kept)
    | cancel key =>
      rcases cancelAnalysisRun_spec w key with same | ⟨dropped, -, stays⟩
      · exact Owned.of_runs (congrArg World.runs same) _
      · exact Owned.of_others dropped.others rfl fun run found cancelled _ => stays run found (by simp [cancelled])
    | reset key =>
      rcases resetAnalysisRun_spec w key with same | ⟨dropped, -⟩
      · exact Owned.of_runs (congrArg World.runs same) _
      · exact Owned.of_others dropped.others rfl (fun _ _ _ kept => absurd rfl kept)
    | _ => cases own
  | some id =>
    rcases (step_stream own : step readers w event = w ∨ _) with same | ⟨stream, found, after⟩
    · exact Owned.of_runs (congrArg World.runs same) event
    · exact good.stream_owned calm own found after

section Runs

def reading : Readers := ⟨fun _ => some .null, fun _ => "", fun text => ("invalid_sql", text)⟩

def request : AnalyzeRequest := ⟨some "orders", false, "SELECT 1"⟩

def unnamed : AnalysisRunMeta := ⟨none, none, none⟩

def stateOf (w : World) (key : String) : Option AnalysisState := (w.runs.lookup key).map fun run => run.state

end Runs

end Rdst.Web.AnalysisRuns
