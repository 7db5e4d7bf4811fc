import Mathlib.Data.List.Induction
import Rdst.Web.Replay

namespace Rdst.Web.Replay

open Assoc Machine

variable {page page' : Page} {runId : String} {client : Client}

/-- The number of the last record that moved the run on. -/
def cursorOf (applied : List Applied) : Nat := applied.foldl (fun last entry => if entry.moved = true then entry.seq else last) 0

theorem cursorOf_snoc (applied : List Applied) (entry : Applied) :
    cursorOf (applied ++ [entry]) = if entry.moved = true then entry.seq else cursorOf applied := by
  simp [cursorOf]

theorem cursorOf_le (applied : List Applied) {bound : Nat} (each : ∀ entry ∈ applied, entry.seq ≤ bound) :
    cursorOf applied ≤ bound := by
  induction applied using List.reverseRecOn with
  | nil => exact Nat.zero_le bound
  | append_singleton front last ih =>
    rw [cursorOf_snoc]
    split
    · exact each last (by simp)
    · exact ih fun entry member => each entry (List.mem_append_left _ member)

variable {w w' : World}

structure PageGood (page : Page) : Prop extends page.Sound where
  present : ∀ token stream, page.streams.lookup token = some stream → stream.stage ≠ .ended →
    ∃ run, page.runs.lookup stream.runId = some run
  single : ∀ token token' stream stream', page.streams.lookup token = some stream →
    page.streams.lookup token' = some stream' → stream.stage ≠ .ended → stream'.stage ≠ .ended →
      stream.runId = stream'.runId → token = token'
  probes : ∀ token stream, page.streams.lookup token = some stream → stream.stage ≠ .ended →
    stream.runId ∈ page.probing → page.streaming.lookup stream.runId = some token
  waits : ∀ runId status, page.reconnectStatuses.lookup runId = some status → BackgroundRuns.isTerminal status = false

/-- A stream at work reads on from the records that its run has applied. -/
def World.OnTrack (w : World) (token : Nat) (stream : BackgroundRuns.Stream) : Prop :=
  match stream.stage with
  | .fetching afterSeq => afterSeq = (w.appliedOf stream.runId).length
  | .reading => ∃ id taken subscriber handle after, w.links.lookup token = some (id, taken) ∧
      w.server.subscribers.lookup id = some subscriber ∧ subscriber.runId = stream.runId ∧
      w.server.handles.lookup stream.runId = some handle ∧ RunRegistry.Fair handle subscriber after ∧
      after + taken = (w.appliedOf stream.runId).length
  | _ => True

structure World.Good (w : World) : Prop where
  server : w.server.Good
  page : PageGood w.page
  seqs : ∀ runId, (w.appliedOf runId).map Applied.seq = List.range' 1 (w.appliedOf runId).length
  cursor : ∀ runId run, w.page.runs.lookup runId = some run → run.lastSeq = cursorOf (w.appliedOf runId)
  unseen : ∀ runId, w.page.runs.lookup runId = none → w.appliedOf runId = []
  within : ∀ runId, w.appliedOf runId ≠ [] → ∃ handle, w.server.handles.lookup runId = some handle ∧
    (w.appliedOf runId).length ≤ handle.events.length
  onTrack : ∀ token stream, w.page.streams.lookup token = some stream → w.OnTrack token stream
  replies : ∀ runId description, w.replies.lookup runId = some (.found description) →
    BackgroundRuns.isTerminal description.status = true → ∃ handle, w.server.handles.lookup runId = some handle ∧
      handle.status.isTerminal = true ∧ description.lastSeq = handle.events.length
  complete : ∀ runId run, w.page.runs.lookup runId = some run → BackgroundRuns.isTerminal run.status = true →
    run.status ≠ .interrupted → ∃ handle, w.server.handles.lookup runId = some handle ∧
      handle.status.isTerminal = true ∧ (w.appliedOf runId).length = handle.events.length

theorem World.Good.seq_le (good : w.Good) : ∀ entry ∈ w.appliedOf runId, entry.seq ≤ (w.appliedOf runId).length := by
  intro entry member
  have there := List.mem_map_of_mem (f := Applied.seq) member
  rw [good.seqs runId, List.mem_range'_1] at there
  omega

theorem World.Good.caught (good : w.Good) (caught : w.Caught runId) :
    cursorOf (w.appliedOf runId) = (w.appliedOf runId).length := by
  have seqs := good.seqs runId
  unfold World.Caught at caught
  generalize w.appliedOf runId = applied at seqs caught
  cases applied using List.reverseRecOn with
  | nil => rfl
  | append_singleton front last =>
    have moved := caught last (by simp)
    rw [cursorOf_snoc, if_pos moved]
    rw [List.length_append, List.length_singleton, List.range'_concat, List.map_append] at seqs
    have ends := List.append_inj_right' seqs (by simp)
    simp only [List.map_cons, List.map_nil, List.cons.injEq, and_true] at ends
    simp only [List.length_append, List.length_singleton]
    omega

/-- Streams at work depend on the page's runs through what was applied of them only. -/
theorem World.Good.quiet (good : w.Good) (quiet : Quiet w.page page') : ({ w with page := page' } : World).Good := by
  refine ⟨good.server, ⟨⟨?_, ?_⟩, ?_, ?_, ?_, quiet.waits good.page.waits⟩, good.seqs, ?_, ?_, good.within, ?_,
    good.replies, ?_⟩
  · show ∀ runId token, page'.streaming.lookup runId = some token → _
    rw [quiet.streaming, quiet.streams]
    exact good.page.registered
  · show ∀ token stream, page'.streams.lookup token = some stream → token < page'.started
    rw [quiet.streams, quiet.started]
    exact good.page.bounded
  · intro token stream found unended
    rw [show page'.streams = w.page.streams from quiet.streams] at found
    obtain ⟨run, there⟩ := good.page.present token stream found unended
    exact quiet.present stream.runId run there
  · show ∀ token token' stream stream', page'.streams.lookup token = some stream → _
    rw [quiet.streams]
    exact good.page.single
  · show ∀ token stream, page'.streams.lookup token = some stream → _ → stream.runId ∈ page'.probing → _
    rw [quiet.streams, quiet.probing, quiet.streaming]
    exact good.page.probes
  · intro runId run' found
    obtain ⟨run, there, seq, -⟩ := quiet.runs runId run' found
    rw [seq]
    exact good.cursor runId run there
  · intro runId absent
    apply good.unseen
    cases found : w.page.runs.lookup runId with
    | none => rfl
    | some run =>
      obtain ⟨run', found'⟩ := quiet.present runId run found
      rw [show page'.runs.lookup runId = none from absent] at found'
      cases found'
  · intro token stream found
    rw [show page'.streams = w.page.streams from quiet.streams] at found
    exact good.onTrack token stream found
  · intro runId run' found ends other
    obtain ⟨run, there, -, -, outcome⟩ := quiet.runs runId run' found
    obtain ⟨ends', other'⟩ := outcome ends other
    exact good.complete runId run there ends' other'

/-- A stream that has not ended goes on to where it is on track. -/
theorem World.Good.goTo (good : w.Good) {token : Nat} {stream : BackgroundRuns.Stream} {stage : BackgroundRuns.Stage}
    (found : w.page.streams.lookup token = some stream) (unended : stream.stage ≠ .ended) (goes : stage ≠ .ended)
    (onTrack : w.OnTrack token { stream with stage := stage }) :
    ({ w with page := w.page.goTo token stream stage } : World).Good := by
  have moved : ∀ other there, (w.page.goTo token stream stage).streams.lookup other = some there →
      there.stage ≠ .ended → ∃ old, w.page.streams.lookup other = some old ∧ old.stage ≠ .ended ∧
        old.runId = there.runId := by
    intro other there member going
    unfold BackgroundRuns.World.goTo at member
    rw [insert_lookup] at member
    split at member
    · rename_i same
      cases member
      exact ⟨stream, same ▸ found, unended, rfl⟩
    · exact ⟨there, member, going, rfl⟩
  refine ⟨good.server, ⟨good.page.toSound.goTo found goes, ?_, ?_, ?_, good.page.waits⟩, good.seqs, good.cursor,
    good.unseen, good.within, ?_, good.replies, good.complete⟩
  · intro other there member going
    obtain ⟨old, member', going', same⟩ := moved other there member going
    rw [← same]
    exact good.page.present other old member' going'
  · intro other other' there there' member member' going going' same
    obtain ⟨old, before, goes, own⟩ := moved other there member going
    obtain ⟨old', before', goes', own'⟩ := moved other' there' member' going'
    exact good.page.single other other' old old' before before' goes goes' (own.trans (same.trans own'.symm))
  · intro other there member going probing
    obtain ⟨old, before, goes, own⟩ := moved other there member going
    rw [← own] at probing ⊢
    exact good.page.probes other old before goes probing
  · intro other there member
    have placed : (w.page.streams.insert token { stream with stage := stage }).lookup other = some there := member
    rw [insert_lookup] at placed
    split at placed
    · rename_i same
      cases placed
      rw [same]
      exact onTrack
    · exact good.onTrack other there placed

theorem World.Good.settle (good : w.Good) {token : Nat} {stream : BackgroundRuns.Stream}
    (found : w.page.streams.lookup token = some stream) :
    ({ w with page := w.page.settle token stream } : World).Good := by
  have moved : ∀ other there, (w.page.settle token stream).streams.lookup other = some there →
      there.stage ≠ .ended → w.page.streams.lookup other = some there ∧ other ≠ token := by
    intro other there member going
    unfold BackgroundRuns.World.settle at member
    rw [insert_lookup] at member
    split at member
    · cases member
      exact absurd rfl going
    · rename_i apart
      exact ⟨member, apart⟩
  refine ⟨good.server, ⟨good.page.toSound.settle found, ?_, ?_, ?_, good.page.waits⟩, good.seqs, good.cursor,
    good.unseen, good.within, ?_, good.replies, good.complete⟩
  · intro other there member going
    exact good.page.present other there (moved other there member going).1 going
  · intro other other' there there' member member' going going' same
    exact good.page.single other other' there there' (moved other there member going).1
      (moved other' there' member' going').1 going going' same
  · intro other there member going probing
    obtain ⟨before, apart⟩ := moved other there member going
    have registered := good.page.probes other there before going probing
    show (w.page.settle token stream).streaming.lookup there.runId = some other
    rw [BackgroundRuns.settle_streaming, if_neg, registered]
    rintro ⟨-, own⟩
    rw [registered] at own
    exact apart (Option.some.inj own)
  · intro other there member
    by_cases going : there.stage = .ended
    · unfold World.OnTrack
      rw [going]
      exact trivial
    · exact good.onTrack other there (moved other there member going).1

/-- A stream starts, where its run is live and has none: its request is for the records after those applied. -/
theorem World.Good.streamRun (good : w.Good) (runId : String)
    (free : w.page.streaming.lookup runId = none → ∀ token stream, w.page.streams.lookup token = some stream →
      stream.runId = runId → stream.stage = .ended)
    (caught : w.page.isLive runId = true → w.Caught runId) :
    ({ w with page := BackgroundRuns.streamRun w.page runId } : World).Good := by
  have sound := BackgroundRuns.streamRun_sound good.page.toSound runId
  rcases BackgroundRuns.streamRun_spec w.page runId with ⟨same, -⟩ | ⟨run, found, live, unregistered, same⟩
  · rwa [same]
  · rw [same] at sound ⊢
    have quiet := free unregistered
    have seq : run.lastSeq = (w.appliedOf runId).length := by
      have goes : w.page.isLive runId = true := BackgroundRuns.isLive_iff.mpr ⟨run, found, live⟩
      rw [good.cursor runId run found, good.caught (caught goes)]
    refine ⟨good.server, ⟨sound, ?_, ?_, ?_, good.page.waits⟩, good.seqs, good.cursor, good.unseen, good.within, ?_,
      good.replies, good.complete⟩
    · intro token stream member going
      simp only [insert_lookup] at member
      split at member
      · cases member
        exact ⟨run, found⟩
      · exact good.page.present token stream member going
    · intro token token' stream stream' member member' going going' own
      simp only [insert_lookup] at member member'
      split at member <;> split at member'
      · rename_i first second
        rw [first, second]
      · cases member
        exact absurd (quiet token' stream' member' own.symm) going'
      · cases member'
        exact absurd (quiet token stream member own) going
      · exact good.page.single token token' stream stream' member member' going going' own
    · intro token stream member going probing
      simp only [insert_lookup] at member ⊢
      split at member
      · rename_i new
        cases member
        rw [if_pos rfl, new]
      · rw [if_neg]
        · exact good.page.probes token stream member going probing
        · intro own
          exact going (quiet token stream member own)
    · intro token stream member
      simp only [insert_lookup] at member
      split at member
      · cases member
        exact seq
      · exact good.onTrack token stream member

/-- The server goes on. -/
theorem World.Good.onServer (good : w.Good) {server : Server} (goodServer : server.Good)
    (goes : RunRegistry.Goes w.server server) (stays : RunRegistry.Stays w.server server) :
    ({ w with server := server } : World).Good := by
  refine ⟨goodServer, good.page, good.seqs, good.cursor, good.unseen, ?_, ?_, ?_, ?_⟩
  · intro runId applied
    obtain ⟨handle, found, within⟩ := good.within runId applied
    obtain ⟨handle', found', follows⟩ := goes runId handle found
    exact ⟨handle', found', within.trans follows.more.length_le⟩
  · intro token stream found
    have before := good.onTrack token stream found
    unfold World.OnTrack at before ⊢
    split
    · rename_i afterSeq fetching
      rw [fetching] at before
      exact before
    · rename_i reading
      rw [reading] at before
      obtain ⟨id, taken, subscriber, handle, after, linked, there, own, known, fair, sum⟩ := before
      obtain ⟨subscriber', there', own', number⟩ := stays id subscriber there
      obtain ⟨handle', after', known', fair'⟩ := goodServer.fair id subscriber' there'
      have same : after' = after := by
        have numbers := fair'.afterSeq
        rw [number, fair.afterSeq] at numbers
        exact_mod_cast numbers.symm
      rw [own', own] at known'
      exact ⟨id, taken, subscriber', handle', after', linked, there', own'.trans own, known', fair', same ▸ sum⟩
    · exact trivial
  · intro runId description replied ends
    obtain ⟨handle, found, terminal, seq⟩ := good.replies runId description replied ends
    obtain ⟨handle', found', follows⟩ := goes runId handle found
    obtain ⟨events, status⟩ := follows.frozen terminal
    exact ⟨handle', found', by rw [status, terminal], by rw [events, seq]⟩
  · intro runId run found ends other
    obtain ⟨handle, known, terminal, all⟩ := good.complete runId run found ends other
    obtain ⟨handle', known', follows⟩ := goes runId handle known
    obtain ⟨events, status⟩ := follows.frozen terminal
    exact ⟨handle', known', by rw [status, terminal], events ▸ all⟩

/-- An update of a run that gives it no outcome from the server. -/
theorem World.Good.update (good : w.Good) (runId : String)
    (change : BackgroundRuns.BackgroundRun → BackgroundRuns.BackgroundRun)
    (seq : ∀ run, (change run).lastSeq = run.lastSeq) (kind : ∀ run, (change run).kind = run.kind)
    (none_ : ∀ run, BackgroundRuns.isTerminal (change run).status = true → (change run).status = .interrupted) :
    ({ w with page := w.page.updateRun runId change } : World).Good :=
  good.quiet (updateRun_quiet (fun run _ => seq run) (fun run _ => kind run)
    fun run _ ends other => absurd (none_ run ends) other)

theorem World.Good.retry (good : w.Good) {token : Nat} {stream : BackgroundRuns.Stream}
    (found : w.page.streams.lookup token = some stream) (unended : stream.stage ≠ .ended) :
    ({ w with page := w.page.retry token stream } : World).Good := by
  have quiet := markReconnecting_quiet w.page stream.runId
  refine (good.quiet quiet).goTo ?_ unended nofun trivial
  rw [quiet.streams]
  exact found

/-- The steps of a stream that need no record: an answer that is no stream of records, an end, a failure. -/
theorem World.Good.streamStep (good : w.Good) {token : Nat} {stream : BackgroundRuns.Stream}
    {event : BackgroundRuns.Event} (found : w.page.streams.lookup token = some stream)
    (noFrame : ∀ other name data, event ≠ .frame other name data)
    (noAnswer : ∀ other status, event = .answered other status → stream.stage ≠ .reading ∧
      ¬ (200 ≤ status ∧ status ≤ 299))
    (caught : ∀ other, event = .wake other → stream.stage = .sleeping →
      w.page.streaming.lookup stream.runId = some token → w.page.isLive stream.runId = true → w.Caught stream.runId) :
    ({ w with page := BackgroundRuns.streamStep client w.page token stream event } : World).Good := by
  unfold BackgroundRuns.streamStep
  split
  · rename_i afterSeq other status fetching
    have unended : stream.stage ≠ .ended := by
      rw [fetching]
      exact nofun
    split
    · exact good.settle found
    · split
      · have goodNext := good.update stream.runId (fun run =>
          { run with status := .interrupted, message := BackgroundRuns.interruptedText }) (fun _ => rfl)
            (fun _ => rfl) (fun _ _ => rfl)
        apply goodNext.settle
        show (w.page.updateRun _ _).streams.lookup token = some stream
        rw [(BackgroundRuns.updateRun_frame w.page _ _).2.1]
        exact found
      · split
        · exact good.retry found unended
        · rename_i okay
          exact absurd (not_not.mp okay) (noAnswer _ _ rfl).2
  · exact absurd rfl (noFrame _ _ _)
  · rename_i reading
    split
    · exact good.retry found (by rw [reading]; exact nofun)
    · exact good.settle found
  · rename_i fetching
    exact good.retry found (by rw [fetching]; exact nofun)
  · rename_i reading
    exact good.retry found (by rw [reading]; exact nofun)
  · rename_i sleeping
    have unended : stream.stage ≠ .ended := by
      rw [sleeping]
      exact nofun
    split
    · exact good.settle found
    · rename_i run there
      split
      · rename_i goes
        have live : w.page.isLive stream.runId = true := BackgroundRuns.isLive_iff.mpr ⟨run, there, goes.2⟩
        refine good.goTo found unended nofun ?_
        show run.lastSeq = ((w.appliedOf stream.runId).length : ℚ)
        rw [good.cursor stream.runId run there, good.caught (caught _ rfl sleeping goes.1 live)]
      · exact good.settle found
  · exact good

/-- The streams of a run that is not there have ended, and nothing was applied of it. -/
theorem World.Good.attach (good : w.Good) (runId : String) (kind : BackgroundRuns.BackgroundRunKind)
    (target message : String) (known : BackgroundRuns.RunMetadata) :
    ({ w with page := BackgroundRuns.attachRun w.page runId kind target message known } : World).Good := by
  unfold BackgroundRuns.attachRun
  split
  · exact good
  · rename_i absent
    have nothing := good.unseen runId absent
    have ended : ∀ token stream, w.page.streams.lookup token = some stream → stream.runId = runId →
        stream.stage = .ended := by
      intro token stream found own
      by_contra going
      obtain ⟨run, there⟩ := good.page.present token stream found going
      rw [own, absent] at there
      cases there
    generalize fresh : BackgroundRuns.newRun kind target (BackgroundRuns.initialStages kind) message .running known = run
    have goodNext : ({ w with page := { w.page with runs := w.page.runs.insert runId run } } : World).Good := by
      refine ⟨good.server, ⟨⟨good.page.registered, good.page.bounded⟩, ?_, good.page.single, good.page.probes,
        good.page.waits⟩, good.seqs, ?_, ?_, good.within, good.onTrack, good.replies, ?_⟩
      · intro token stream found going
        simp only [insert_lookup]
        split
        · exact ⟨run, rfl⟩
        · exact good.page.present token stream found going
      · intro other there found
        simp only [insert_lookup] at found
        split at found
        · rename_i same
          cases found
          subst fresh
          rw [same]
          show (0 : ℚ) = (cursorOf (w.appliedOf runId) : ℚ)
          rw [nothing]
          rfl
        · exact good.cursor other there found
      · intro other gone
        simp only [insert_lookup] at gone
        split at gone
        · cases gone
        · exact good.unseen other gone
      · intro other there found ends
        simp only [insert_lookup] at found
        split at found
        · cases found
          subst fresh
          cases ends
        · exact good.complete other there found ends
    refine goodNext.streamRun runId (fun _ => ended) fun _ => ?_
    intro last member
    have member' : last ∈ (w.appliedOf runId).getLast? := member
    rw [nothing] at member'
    cases member'

theorem World.Good.stopStream (good : w.Good) {runId : String} (unprobed : runId ∉ w.page.probing) :
    ({ w with page := BackgroundRuns.stopStream w.page runId } : World).Good := by
  refine ⟨good.server, ⟨good.page.toSound.stopStream runId, good.page.present, good.page.single, ?_,
    good.page.waits⟩, good.seqs, good.cursor, good.unseen, good.within, good.onTrack, good.replies, good.complete⟩
  intro token stream found going probing
  have registered := good.page.probes token stream found going probing
  show (w.page.streaming.erase runId).lookup stream.runId = some token
  rw [erase_lookup, if_neg, registered]
  intro own
  exact unprobed (own ▸ probing)

/-- What the server says of a run; an outcome is taken over where all records of the run have been applied. -/
theorem World.Good.described (good : w.Good) {description : BackgroundRuns.Description}
    (outcome : BackgroundRuns.isTerminal description.status = true → ∃ handle,
      w.server.handles.lookup runId = some handle ∧ handle.status.isTerminal = true ∧
        description.lastSeq = handle.events.length) {current : BackgroundRuns.BackgroundRun}
    (there : w.page.runs.lookup runId = some current) (live : BackgroundRuns.isTerminal current.status = false) :
    ({ w with page := w.page.updateRun runId fun run => run.describedBy description } : World).Good := by
  obtain ⟨streaming, streams, started, probing⟩ := BackgroundRuns.updateRun_frame w.page runId
    fun run => run.describedBy description
  have reconnect : (w.page.updateRun runId fun run => run.describedBy description).reconnectStatuses =
      w.page.reconnectStatuses := by
    unfold BackgroundRuns.World.updateRun
    cases w.page.runs.lookup runId <;> rfl
  have runs : ∀ other run', (w.page.updateRun runId fun run => run.describedBy description).runs.lookup other =
      some run' → ∃ run, w.page.runs.lookup other = some run ∧ run'.lastSeq = run.lastSeq ∧
        (other = runId ∧ run'.status = (run.describedBy description).status ∨ other ≠ runId ∧ run' = run) := by
    intro other run' found
    obtain ⟨seen, after⟩ := updateRun_lookup w.page runId (fun run => run.describedBy description) other
    rw [after] at found
    split at found
    · rename_i same
      obtain ⟨run, before, rfl⟩ := Option.map_eq_some_iff.mp found
      exact ⟨run, same ▸ before, rfl, .inl ⟨same, rfl⟩⟩
    · rename_i apart
      exact ⟨run', found, rfl, .inr ⟨apart, rfl⟩⟩
  have back : ∀ other run, w.page.runs.lookup other = some run → ∃ run',
      (w.page.updateRun runId fun run => run.describedBy description).runs.lookup other = some run' := by
    intro other run found
    obtain ⟨seen, after⟩ := updateRun_lookup w.page runId (fun run => run.describedBy description) other
    rw [after]
    split
    · rename_i same
      rw [← same, found]
      exact ⟨_, rfl⟩
    · exact ⟨run, found⟩
  generalize w.page.updateRun runId (fun run => run.describedBy description) = page' at streaming streams started probing reconnect runs back
  refine ⟨good.server, ⟨⟨?_, ?_⟩, ?_, ?_, ?_, ?_⟩, good.seqs, ?_, ?_, good.within, ?_, good.replies, ?_⟩
  · simp only [streaming, streams]
    exact good.page.registered
  · simp only [streams, started]
    exact good.page.bounded
  · simp only [streams]
    intro token stream found going
    obtain ⟨run, before⟩ := good.page.present token stream found going
    exact back stream.runId run before
  · simp only [streams]
    exact good.page.single
  · simp only [streams, probing, streaming]
    exact good.page.probes
  · simp only [reconnect]
    exact good.page.waits
  · intro other run' found
    obtain ⟨run, before, seq, -⟩ := runs other run' found
    rw [seq]
    exact good.cursor other run before
  · intro other gone
    apply good.unseen
    cases found : w.page.runs.lookup other with
    | none => rfl
    | some run =>
      obtain ⟨run', after⟩ := back other run found
      rw [show page'.runs.lookup other = none from gone] at after
      cases after
  · simp only [streams]
    exact good.onTrack
  · intro other run' found ends uninterrupted
    obtain ⟨run, before, -, ⟨same, status⟩ | ⟨apart, same⟩⟩ := runs other run' found
    · subst same
      rw [there] at before
      cases before
      rw [status] at ends
      unfold BackgroundRuns.BackgroundRun.describedBy at ends
      simp only at ends
      split at ends
      · rw [live] at ends
        cases ends
      · rename_i replayed
        obtain ⟨handle, known, terminal, all⟩ := outcome ends
        refine ⟨handle, known, terminal, ?_⟩
        have caught : ¬ current.lastSeq < description.lastSeq := by
          intro pending
          apply replayed
          rw [ends, BackgroundRuns.Description.replayPending, decide_eq_true pending]
          rfl
        rw [all, good.cursor other current there, not_lt] at caught
        have reached : handle.events.length ≤ cursorOf (w.appliedOf other) := by exact_mod_cast caught
        have below := cursorOf_le (w.appliedOf other) good.seq_le
        show (w.appliedOf other).length = handle.events.length
        cases applied : w.appliedOf other with
        | nil =>
          rw [applied] at reached
          simp only [cursorOf, List.foldl_nil] at reached
          rw [List.length_nil]
          omega
        | cons first rest =>
          obtain ⟨handle', known', within⟩ := good.within other (by rw [applied]; exact List.cons_ne_nil _ _)
          rw [known] at known'
          cases known'
          rw [← applied]
          omega
    · subst same
      exact good.complete other run' before ends uninterrupted

end Rdst.Web.Replay
