import Rdst.Web.ReplayRun

namespace Rdst.Web.Replay

open Assoc Machine

variable {w w' : World} {runId : String} {client : Client}

section Deliver

variable {token id taken : Nat} {record : RunRegistry.Record}

/-- The record that a reader hands over is the one after those applied. -/
structure World.Next (w : World) (token : Nat) (runId : String) (id taken : Nat) (record : RunRegistry.Record)
    (handle : RunRegistry.Handle) : Prop where
  stream : w.page.streams.lookup token = some ⟨runId, .reading⟩
  known : w.server.handles.lookup runId = some handle
  record : handle.events[(w.appliedOf runId).length]? = some record
  link : ∃ subscriber after, w.server.subscribers.lookup id = some subscriber ∧ subscriber.runId = runId ∧
    RunRegistry.Fair handle subscriber after ∧ after + taken = (w.appliedOf runId).length

theorem World.Good.next (good : w.Good) (upcoming : w.upcoming token = some (runId, id, taken, record)) :
    ∃ handle, w.Next token runId id taken record handle := by
  unfold World.upcoming at upcoming
  split at upcoming
  · rename_i own place given stream linked
    obtain ⟨subscriber, there, sends⟩ := Option.bind_eq_some_iff.mp upcoming
    obtain ⟨sent, found, same⟩ := Option.map_eq_some_iff.mp sends
    cases same
    have track := good.onTrack token _ stream
    unfold World.OnTrack at track
    obtain ⟨id', taken', subscriber', handle, after, linked', there', runs, known, fair, sum⟩ := track
    rw [linked] at linked'
    cases linked'
    rw [there] at there'
    cases there'
    refine ⟨handle, stream, known, ?_, subscriber, after, there, runs, fair, sum⟩
    obtain ⟨rest, events⟩ := fair.sent
    have within : taken < subscriber.sent.length := (List.getElem?_eq_some_iff.mp found).1
    have placed : (handle.events.drop after)[taken]? = some record := by
      rw [← events, List.getElem?_append_left within, found]
    rw [List.getElem?_drop, sum] at placed
    exact placed
  · cases upcoming

/-- A record is applied: it is the next one, and an outcome comes with the last one only. -/
theorem World.Good.apply (good : w.Good) {handle : RunRegistry.Handle}
    (next : w.Next token runId id taken record handle) {page : Page} {run : BackgroundRuns.BackgroundRun}
    {entry : Applied} (seq : entry.seq = (w.appliedOf runId).length + 1) (streams : page.streams = w.page.streams)
    (streaming : page.streaming = w.page.streaming) (started : page.started = w.page.started)
    (probing : page.probing = w.page.probing) (reconnect : page.reconnectStatuses = w.page.reconnectStatuses)
    (others : ∀ other, other ≠ runId → page.runs.lookup other = w.page.runs.lookup other)
    (own : page.runs.lookup runId = some run) (cursor : run.lastSeq = cursorOf (w.appliedOf runId ++ [entry]))
    (outcome : BackgroundRuns.isTerminal run.status = true → run.status ≠ .interrupted →
      handle.status.isTerminal = true ∧ (w.appliedOf runId).length + 1 = handle.events.length) :
    ({ w with
      links := w.links.insert token (id, taken + 1)
      applied := w.applied.insert runId (w.appliedOf runId ++ [entry])
      page := page } : World).Good := by
  have within : (w.appliedOf runId).length < handle.events.length := (List.getElem?_eq_some_iff.mp next.record).1
  generalize after : ({ w with
      links := w.links.insert token (id, taken + 1)
      applied := w.applied.insert runId (w.appliedOf runId ++ [entry])
      page := page } : World) = w'
  have samePage : w'.page = page := by rw [← after]
  have sameServer : w'.server = w.server := by rw [← after]
  have sameReplies : w'.replies = w.replies := by rw [← after]
  have ownApplied : w'.appliedOf runId = w.appliedOf runId ++ [entry] := by
    rw [← after]
    simp [World.appliedOf]
  have otherApplied : ∀ other, other ≠ runId → w'.appliedOf other = w.appliedOf other := by
    intro other apart
    rw [← after]
    simp [World.appliedOf, apart]
  refine ⟨sameServer ▸ good.server, ?_, ?_, ?_, ?_, ?_, ?_, ?_, ?_⟩
  · rw [samePage]
    refine ⟨⟨?_, ?_⟩, ?_, ?_, ?_, ?_⟩
    · rw [streaming, streams]
      exact good.page.registered
    · rw [streams, started]
      exact good.page.bounded
    · rw [streams]
      intro other stream found going
      by_cases same : stream.runId = runId
      · exact ⟨run, same ▸ own⟩
      · rw [others _ same]
        exact good.page.present other stream found going
    · rw [streams]
      exact good.page.single
    · rw [streams, probing, streaming]
      exact good.page.probes
    · rw [reconnect]
      exact good.page.waits
  · intro other
    by_cases same : other = runId
    · rw [same, ownApplied, List.map_append, good.seqs, List.length_append, List.length_singleton, List.range'_concat,
        List.map_singleton, seq, Nat.one_mul, Nat.add_comm 1]
    · rw [otherApplied other same]
      exact good.seqs other
  · intro other found there
    rw [samePage] at there
    by_cases same : other = runId
    · rw [same, own] at there
      cases there
      rw [same, ownApplied]
      exact cursor
    · rw [others other same] at there
      rw [otherApplied other same]
      exact good.cursor other found there
  · intro other gone
    rw [samePage] at gone
    by_cases same : other = runId
    · rw [same, own] at gone
      cases gone
    · rw [others other same] at gone
      rw [otherApplied other same]
      exact good.unseen other gone
  · intro other applied
    rw [sameServer]
    by_cases same : other = runId
    · rw [same, ownApplied, List.length_append, List.length_singleton]
      exact ⟨handle, next.known, within⟩
    · rw [otherApplied other same] at applied ⊢
      exact good.within other applied
  · intro other stream found
    rw [samePage, streams] at found
    by_cases same : other = token
    · rw [same, next.stream] at found
      cases found
      obtain ⟨subscriber, start, there, runs, fair, sum⟩ := next.link
      unfold World.OnTrack
      refine ⟨id, taken + 1, subscriber, handle, start, ?_, sameServer ▸ there, runs, sameServer ▸ next.known, fair, ?_⟩
      · rw [← after, same]
        simp
      · rw [ownApplied, List.length_append, List.length_singleton]
        omega
    · have before := good.onTrack other stream found
      by_cases going : stream.stage = .ended
      · unfold World.OnTrack
        rw [going]
        exact trivial
      · have apart : stream.runId ≠ runId := fun equal =>
          same (good.page.single other token stream _ found next.stream going nofun equal)
        have links : w'.links.lookup other = w.links.lookup other := by
          rw [← after, insert_lookup, if_neg same]
        unfold World.OnTrack at before ⊢
        rw [otherApplied _ apart, sameServer, links]
        exact before
  · rw [sameReplies, sameServer]
    exact good.replies
  · intro other found there ends uninterrupted
    rw [samePage] at there
    rw [sameServer]
    by_cases same : other = runId
    · rw [same, own] at there
      cases there
      obtain ⟨terminal, all⟩ := outcome ends uninterrupted
      rw [same, ownApplied, List.length_append, List.length_singleton]
      exact ⟨handle, next.known, terminal, all⟩
    · rw [others other same] at there
      rw [otherApplied other same]
      exact good.complete other found there ends uninterrupted

/-- The terminal record is the last one. -/
theorem World.Good.lastRecord (good : w.Good) {handle : RunRegistry.Handle}
    (next : w.Next token runId id taken record handle) (last : RunRegistry.endsRun record.event = true) :
    handle.status.isTerminal = true ∧ (w.appliedOf runId).length + 1 = handle.events.length := by
  have goodHandle := good.server.handles runId handle next.known
  have finished : handle.task = .finished := by
    by_contra running
    rw [goodHandle.open_ running record (List.mem_of_getElem? next.record)] at last
    cases last
  refine ⟨goodHandle.ended.mpr finished, ?_⟩
  obtain ⟨front, events, names⟩ := goodHandle.closed finished
  have placed := next.record
  rw [events, List.getElem?_append] at placed
  split at placed
  · rw [names record (List.mem_of_getElem? placed)] at last
    cases last
  · rename_i above
    have length : handle.events.length = front.length + 1 := by rw [events, List.length_append, List.length_singleton]
    have within : (w.appliedOf runId).length < handle.events.length := (List.getElem?_eq_some_iff.mp next.record).1
    omega

/-- What `applyFrame` makes of the next record. -/
theorem World.Good.frame (client : Client) (good : w.Good) {handle : RunRegistry.Handle}
    (next : w.Next token runId id taken record handle) {payload : Json} (readable : payloadOf record = some payload)
    {run : BackgroundRuns.BackgroundRun} (found : w.page.runs.lookup runId = some run) :
    ({ w with
      links := w.links.insert token (id, taken + 1)
      applied := w.applied.insert runId (w.appliedOf runId ++ [⟨record.seq, moves run.kind (RunRegistry.sentName record.event)⟩])
      page := BackgroundRuns.applyFrame client w.page runId (RunRegistry.sentName record.event) payload } : World).Good := by
  have seq : record.seq = (w.appliedOf runId).length + 1 :=
    (good.server.handles runId handle next.known).seqs _ record next.record
  obtain ⟨fields, -, rfl⟩ := Option.map_eq_some_iff.mp readable
  unfold BackgroundRuns.applyFrame
  rw [found]
  simp only
  -- The frame ends a reconnection first, which is no news of the run.
  generalize connected : (if run.status = .reconnecting then BackgroundRuns.restoreConnectedState w.page runId
    else w.page) = page
  have quiet : Quiet w.page page := by
    rw [← connected]
    split
    · exact restoreConnectedState_quiet w.page runId good.page.waits
    · exact Quiet.refl w.page
  have goodPage : ({ w with page := page } : World).Good := good.quiet quiet
  have nextPage : ({ w with page := page } : World).Next token runId id taken record handle :=
    ⟨by show page.streams.lookup token = _; rw [quiet.streams]; exact next.stream, next.known, next.record, next.link⟩
  obtain ⟨current, there⟩ := quiet.present runId run found
  obtain ⟨run', before, -, kind, -⟩ := quiet.runs runId current there
  rw [found] at before
  cases before
  have cursor := goodPage.cursor runId current there
  have framed := frameRun_isSome client current (RunRegistry.sentName record.event) ((Json.object fields).withField "seq" (.number record.seq))
  rw [kind] at framed
  rw [there]
  simp only
  rw [Json.withField_isNull, if_neg Bool.false_ne_true]
  -- An outcome that was there before would leave no record to apply.
  have unfinished : BackgroundRuns.isTerminal current.status = true → current.status = .interrupted := by
    intro ends
    by_contra uninterrupted
    obtain ⟨handle', known, -, all⟩ := goodPage.complete runId current there ends uninterrupted
    have same : handle' = handle := Option.some.inj (known.symm.trans next.known)
    have within : (w.appliedOf runId).length < handle.events.length := (List.getElem?_eq_some_iff.mp next.record).1
    rw [← same, ← all] at within
    exact lt_irrefl _ within
  cases moved : BackgroundRuns.frameRun client current (RunRegistry.sentName record.event)
      ((Json.object fields).withField "seq" (.number record.seq)) with
  | none =>
    rw [moved] at framed
    rw [← framed]
    refine goodPage.apply nextPage seq rfl rfl rfl rfl rfl (fun _ _ => rfl) there ?_ ?_
    · rw [cursorOf_snoc]
      exact cursor
    · exact fun ends uninterrupted => absurd (unfinished ends) uninterrupted
  | some frame =>
    rw [moved] at framed
    rw [← framed]
    obtain ⟨streaming, streams, started, probing⟩ := BackgroundRuns.updateRun_frame page runId fun _ => frame
    have reconnect : (page.updateRun runId fun _ => frame).reconnectStatuses = page.reconnectStatuses := by
      unfold BackgroundRuns.World.updateRun
      rw [there]
    obtain ⟨seen, own⟩ := updateRun_lookup page runId (fun _ => frame) runId
    rw [if_pos rfl, there, Option.map_some] at own
    refine goodPage.apply nextPage seq streams streaming started probing reconnect ?_ own ?_ ?_
    · intro other apart
      obtain ⟨seen, same⟩ := updateRun_lookup page runId (fun _ => frame) other
      rw [same, if_neg apart]
    · rw [cursorOf_snoc, Option.isSome_some, if_pos rfl, seq]
      show frame.lastSeq = (((w.appliedOf runId).length + 1 : ℕ) : ℚ)
      have number := (BackgroundRuns.frameRun_spec moved).1
      have below := cursorOf_le (w.appliedOf runId) good.seq_le
      have cursor' : current.lastSeq = (cursorOf (w.appliedOf runId) : ℚ) := cursor
      rw [number, Json.field_withField, BackgroundRuns.numberOf, Option.getD_some, cursor', seq]
      have less : cursorOf (w.appliedOf runId) ≤ (w.appliedOf runId).length + 1 := by omega
      exact max_eq_right (by exact_mod_cast less)
    · intro ends uninterrupted
      by_cases last : RunRegistry.sentName record.event = "run_end"
      · exact goodPage.lastRecord nextPage (decide_eq_true last)
      · have same := frameRun_outcome moved last ends
        exact absurd (same.trans (unfinished (same ▸ ends))) uninterrupted

theorem World.Good.deliver (good : w.Good) (calm : Calm w (.deliver token)) : (deliver client w token).Good := by
  unfold Replay.deliver
  cases upcoming : w.upcoming token with
  | none => exact good
  | some found =>
    obtain ⟨runId, id, taken, record⟩ := found
    obtain ⟨handle, next⟩ := good.next upcoming
    obtain ⟨payload, readable⟩ := Option.isSome_iff_exists.mp (calm _ upcoming)
    obtain ⟨run, there⟩ := good.page.present token _ next.stream nofun
    have framed := good.frame client next readable there
    simp only at readable
    simp only [readable, there]
    unfold World.onPage BackgroundRuns.step BackgroundRuns.streamEvent
    simp only [next.stream]
    exact framed

end Deliver

/-- A link that no reader uses. -/
theorem World.Good.link (good : w.Good) (token : Nat) (place : Nat × Nat)
    (idle : ∀ stream, w.page.streams.lookup token = some stream → stream.stage ≠ .reading) :
    ({ w with links := w.links.insert token place } : World).Good := by
  refine ⟨good.server, good.page, good.seqs, good.cursor, good.unseen, good.within, ?_, good.replies, good.complete⟩
  intro other stream found
  have before := good.onTrack other stream found
  unfold World.OnTrack at before ⊢
  split
  · rename_i afterSeq fetching
    rw [fetching] at before
    exact before
  · rename_i reading
    rw [reading] at before
    have apart : other ≠ token := by
      intro same
      exact idle stream (same ▸ found) reading
    show ∃ id taken subscriber handle after, (w.links.insert token place).lookup other = some (id, taken) ∧ _
    rw [insert_lookup, if_neg apart]
    exact before
  · exact trivial

theorem World.Good.serve (good : w.Good) (token : Nat) : (serve client w token).Good := by
  unfold Replay.serve
  split
  · rename_i runId afterSeq found
    have track : afterSeq = (w.appliedOf runId).length := good.onTrack token _ found
    split
    · unfold World.onPage BackgroundRuns.step BackgroundRuns.streamEvent
      simp only [found]
      refine good.streamStep found nofun ?_ nofun
      intro other status same
      cases same
      exact ⟨nofun, by omega⟩
    · rename_i member
      split
      · unfold World.onPage BackgroundRuns.step BackgroundRuns.streamEvent
        simp only [found]
        refine good.streamStep found nofun ?_ nofun
        intro other status same
        cases same
        exact ⟨nofun, by omega⟩
      · have whole : afterSeq.num = ((w.appliedOf runId).length : Int) := by rw [track, Rat.num_natCast]
        rw [whole]
        have member : runId ∈ w.server.runs := not_not.mp member
        obtain ⟨goodServer, goes⟩ := good.server.subscribe runId (Int.natCast_nonneg (w.appliedOf runId).length)
        have stays := RunRegistry.subscribe_stays good.server runId ((w.appliedOf runId).length : Int)
        have subscribed : (w.server.subscribe runId (w.appliedOf runId).length).subscribers.lookup w.server.subscribed =
            some ⟨runId, (w.appliedOf runId).length, (w.appliedOf runId).length, [], .opening⟩ := by
          unfold RunRegistry.World.subscribe
          rw [if_pos member, insert_lookup, if_pos rfl]
        have goodLinked := (good.onServer goodServer goes stays).link token (w.server.subscribed, 0) (by
          intro stream there
          rw [show w.page.streams.lookup token = some stream from there] at found
          cases found
          exact nofun)
        obtain ⟨handle, after, known, fair⟩ := goodServer.fair _ _ subscribed
        generalize w.server.subscribe runId (w.appliedOf runId).length = server at *
        unfold World.onPage BackgroundRuns.step BackgroundRuns.streamEvent
        simp only [found, BackgroundRuns.streamStep]
        split
        · exact goodLinked.settle found
        · have quiet := restoreConnectedState_quiet w.page runId good.page.waits
          rw [if_neg (by decide), if_neg (by decide)]
          refine (goodLinked.quiet quiet).goTo ?_ nofun nofun ?_
          · show (BackgroundRuns.restoreConnectedState w.page runId).streams.lookup token = _
            rw [quiet.streams]
            exact found
          · have number : after = (w.appliedOf runId).length := by
              have asked : ((w.appliedOf runId).length : Int) = after := fair.afterSeq
              omega
            refine ⟨w.server.subscribed, 0, _, handle, after, ?_, subscribed, rfl, known, fair, number⟩
            rw [insert_lookup, if_pos rfl]
  · exact good

theorem World.Good.unreply (good : w.Good) (runId : String) : ({ w with replies := w.replies.erase runId } : World).Good := by
  refine ⟨good.server, good.page, good.seqs, good.cursor, good.unseen, good.within, good.onTrack, ?_, good.complete⟩
  intro other description found
  have found' : (w.replies.erase runId).lookup other = some (.found description) := found
  rw [erase_lookup] at found'
  split at found'
  · cases found'
  · exact good.replies other description found'

/-- A probe is over. -/
theorem World.Good.unprobe (good : w.Good) (runId : String) :
    ({ w with page := { w.page with probing := w.page.probing.filter fun other => decide (other ≠ runId) } } :
      World).Good := by
  refine ⟨good.server, ⟨⟨good.page.registered, good.page.bounded⟩, good.page.present, good.page.single, ?_,
    good.page.waits⟩, good.seqs, good.cursor, good.unseen, good.within, good.onTrack, good.replies, good.complete⟩
  intro token stream found going probing
  exact good.page.probes token stream found going (List.mem_of_mem_filter probing)

theorem World.Good.probed (good : w.Good) {answer : BackgroundRuns.Probe} (probing : runId ∈ w.page.probing)
    (outcome : ∀ description, answer = .found description → BackgroundRuns.isTerminal description.status = true →
      ∃ handle, w.server.handles.lookup runId = some handle ∧ handle.status.isTerminal = true ∧
        description.lastSeq = handle.events.length)
    (caught : isUnknown answer = false → w.page.isLive runId = true → w.Caught runId) :
    ({ w with page := BackgroundRuns.probed w.page runId answer } : World).Good := by
  -- A run that is probed has no stream but a registered one.
  have ended : w.page.streaming.lookup runId = none → ∀ token stream, w.page.streams.lookup token = some stream →
      stream.runId = runId → stream.stage = .ended := by
    intro free token stream found own
    by_contra going
    have registered := good.page.probes token stream found going (own ▸ probing)
    rw [own, free] at registered
    cases registered
  have goodNext := good.unprobe runId
  have unprobed : runId ∉ w.page.probing.filter fun other => decide (other ≠ runId) := by simp
  have live : BackgroundRuns.World.isLive { w.page with
      probing := w.page.probing.filter fun other => decide (other ≠ runId) } runId = w.page.isLive runId := rfl
  unfold BackgroundRuns.probed
  generalize rest : ({ w.page with probing := w.page.probing.filter fun other => decide (other ≠ runId) } : Page) = page
  rw [rest] at goodNext live
  have sameStreams : page.streams = w.page.streams := by rw [← rest]
  have sameStreaming : page.streaming = w.page.streaming := by rw [← rest]
  have sameProbing : page.probing = w.page.probing.filter fun other => decide (other ≠ runId) := by rw [← rest]
  simp only
  cases answer with
  | unknown => exact goodNext.update runId _ (fun _ => rfl) (fun _ => rfl) fun _ _ => rfl
  | failed =>
    have quiet := markReconnecting_quiet page runId
    refine (goodNext.quiet quiet).streamRun runId ?_ ?_
    · show (BackgroundRuns.markReconnecting page runId).streaming.lookup runId = none → _
      rw [quiet.streaming, sameStreaming]
      intro free token stream found own
      rw [show (BackgroundRuns.markReconnecting page runId).streams.lookup token = w.page.streams.lookup token by
        rw [quiet.streams, sameStreams]] at found
      exact ended free token stream found own
    · intro goes
      exact caught rfl (live ▸ (BackgroundRuns.markReconnecting_keeps page runId).live runId goes)
  | found description =>
    simp only
    split
    · exact goodNext
    · rename_i current there
      split
      · exact goodNext
      · rename_i goes
        have goes : BackgroundRuns.isTerminal current.status = false := Bool.eq_false_iff.mpr goes
        have runLive : w.page.isLive runId = true := by
          rw [← live]
          exact BackgroundRuns.isLive_iff.mpr ⟨current, there, goes⟩
        have forgets := forgets_quiet page runId
        have goodDescribed := (goodNext.quiet forgets).described (outcome description rfl) there goes
        obtain ⟨streaming, streams, started, probes⟩ := BackgroundRuns.updateRun_frame
          { page with reconnectStatuses := page.reconnectStatuses.erase runId } runId fun run => run.describedBy description
        generalize BackgroundRuns.World.updateRun { page with
          reconnectStatuses := page.reconnectStatuses.erase runId } runId (fun run => run.describedBy description) =
            described at streaming streams probes goodDescribed ⊢
        split
        · refine goodDescribed.streamRun runId ?_ fun _ => caught rfl runLive
          show described.streaming.lookup runId = none → ∀ token stream,
            described.streams.lookup token = some stream → _
          rw [streaming.trans sameStreaming, streams.trans sameStreams]
          exact ended
        · apply goodDescribed.stopStream
          show runId ∉ described.probing
          rw [probes.trans sameProbing]
          exact unprobed

theorem deletes_quiet (page : Page) (deletes : Dict Nat String) (asked : Nat) :
    Quiet page { page with deletes := deletes, asked := asked } :=
  ⟨rfl, rfl, rfl, rfl, fun _ run found => ⟨run, found, rfl, rfl, fun ends other => ⟨ends, other⟩⟩,
    fun _ run found => ⟨run, found⟩, fun waits => waits⟩

theorem World.Good.cancel (good : w.Good) (runId : String) :
    ({ w with page := BackgroundRuns.cancelBackgroundRun w.page runId } : World).Good := by
  have goodNext := good.update runId
    (fun run => { run with status := .stopping, message := "Stopping active query..." }) (fun _ => rfl)
      (fun _ => rfl) fun _ ends => by cases ends
  exact goodNext.quiet (deletes_quiet _ _ _)

theorem World.Good.cancelled (good : w.Good) (request : Nat) (answer : BackgroundRuns.Answer) :
    ({ w with page := BackgroundRuns.cancelAnswered w.page request answer } : World).Good := by
  unfold BackgroundRuns.cancelAnswered
  split
  · exact good
  · rename_i runId found
    have goodNext := good.quiet (deletes_quiet w.page (w.page.deletes.erase request) w.page.asked)
    have running : ∀ message, ({ w with page := BackgroundRuns.World.updateRun { w.page with
        deletes := w.page.deletes.erase request } runId fun run =>
          { run with status := .running, message := message } } : World).Good :=
      fun message => goodNext.update runId _ (fun _ => rfl) (fun _ => rfl) fun _ ends => by cases ends
    cases answer with
    | accepted => exact goodNext
    | refused message => exact running message
    | failed => exact running _

theorem World.Good.describe (good : w.Good) (runId : String) : (step client w (.describe runId)).Good := by
  refine ⟨good.server, good.page, good.seqs, good.cursor, good.unseen, good.within, good.onTrack, ?_, good.complete⟩
  intro other description found ends
  simp only [step, insert_lookup] at found
  split at found
  · rename_i same
    rw [same]
    cases known : w.server.describe runId with
    | none =>
      rw [known] at found
      cases found
    | some handle =>
      rw [known] at found
      cases found
      have there : w.server.handles.lookup runId = some handle := by
        unfold RunRegistry.World.describe at known
        split at known
        · exact known
        · cases known
      refine ⟨handle, there, ?_, rfl⟩
      have ends' : BackgroundRuns.isTerminal (clientStatus handle.status) = true := ends
      cases status : handle.status <;> rw [status] at ends' <;> first | rfl | cases ends'
  · exact good.replies other description found ends

/-- A page that has taken up stored runs only. -/
structure Restored (stored : List (String × BackgroundRuns.BackgroundRun)) (page : Page) : Prop where
  streams : page.streams = ∅
  streaming : page.streaming = ∅
  reconnect : page.reconnectStatuses = ∅
  runs : ∀ runId run, page.runs.lookup runId = some run → ∃ entry ∈ stored, entry.1 = runId ∧
    run.lastSeq = entry.2.lastSeq ∧ run.status = entry.2.status

theorem Restored.probe {stored : List (String × BackgroundRuns.BackgroundRun)} {page : Page}
    (restored : Restored stored page) (runId : String) :
    Restored stored (BackgroundRuns.probeAndStream page runId) := by
  unfold BackgroundRuns.probeAndStream
  split
  · exact restored
  · split
    · exact restored
    · split
      · exact restored
      · exact ⟨restored.streams, restored.streaming, restored.reconnect, restored.runs⟩

theorem Restored.restore {stored : List (String × BackgroundRuns.BackgroundRun)} {page : Page}
    (restored : Restored stored page) {entry : String × BackgroundRuns.BackgroundRun} (member : entry ∈ stored) :
    Restored stored (BackgroundRuns.restoreStored page entry) := by
  unfold BackgroundRuns.restoreStored
  split
  · exact restored
  · have taken : Restored stored { page with
        runs := page.runs.insert entry.1 { entry.2 with seenLive := !BackgroundRuns.isTerminal entry.2.status } } := by
      refine ⟨restored.streams, restored.streaming, restored.reconnect, ?_⟩
      intro runId run found
      simp only [insert_lookup] at found
      split at found
      · rename_i same
        cases found
        exact ⟨entry, member, same.symm, rfl, rfl⟩
      · exact restored.runs runId run found
    simp only
    split
    · exact taken
    · exact taken.probe entry.1

theorem reattach_restored (stored : List (String × BackgroundRuns.BackgroundRun)) :
    Restored stored (BackgroundRuns.reattachBackgroundRuns .empty stored) := by
  unfold BackgroundRuns.reattachBackgroundRuns
  rw [if_neg (by decide)]
  have fresh : Restored stored { BackgroundRuns.World.empty with reattachStarted := true } :=
    ⟨rfl, rfl, rfl, fun runId run found => by cases found⟩
  exact List.foldlRecOn stored BackgroundRuns.restoreStored fresh fun page restored entry member =>
    restored.restore member

theorem World.Good.reload (good : w.Good) : (reload client w).Good := by
  unfold Replay.reload
  simp only
  generalize given : (w.page.runs.entries.map fun entry => (entry.1, BackgroundRuns.storedRun client entry.2)) = stored
  have restored := reattach_restored stored
  generalize BackgroundRuns.reattachBackgroundRuns .empty stored = page at restored
  have known : ∀ runId run, page.runs.lookup runId = some run → ∃ old, w.page.runs.lookup runId = some old ∧
      run.lastSeq = old.lastSeq ∧ run.status = old.status := by
    intro runId run found
    obtain ⟨entry, member, same, seq, status⟩ := restored.runs runId run found
    rw [← given] at member
    obtain ⟨old, there, rfl⟩ := List.mem_map.mp member
    exact ⟨old.2, same ▸ AList.mem_lookup_iff.mpr there, seq, status⟩
  have kept : ∀ runId, World.appliedOf ⟨w.server, page, ∅, ∅,
      keepKeys (fun runId => (page.runs.lookup runId).isSome) w.applied⟩ runId =
        if (page.runs.lookup runId).isSome = true then w.appliedOf runId else [] := by
    intro runId
    unfold World.appliedOf
    rw [keepKeys_lookup]
    split <;> rfl
  refine ⟨good.server, ⟨⟨?_, ?_⟩, ?_, ?_, ?_, ?_⟩, ?_, ?_, ?_, ?_, ?_, ?_, ?_⟩
  · rw [restored.streaming]
    exact nofun
  · rw [restored.streams]
    exact nofun
  · rw [restored.streams]
    exact nofun
  · rw [restored.streams]
    exact nofun
  · rw [restored.streams]
    exact nofun
  · rw [restored.reconnect]
    exact nofun
  · intro runId
    rw [kept]
    split
    · exact good.seqs runId
    · rfl
  · intro runId run found
    rw [kept, if_pos (by rw [show page.runs.lookup runId = some run from found]; rfl)]
    obtain ⟨old, there, seq, -⟩ := known runId run found
    rw [seq]
    exact good.cursor runId old there
  · intro runId absent
    rw [kept, if_neg (by rw [show page.runs.lookup runId = none from absent]; exact Bool.false_ne_true)]
  · intro runId applied
    rw [kept] at applied ⊢
    split
    · rename_i present
      rw [if_pos present] at applied
      exact good.within runId applied
    · rename_i absent
      rw [if_neg absent] at applied
      exact absurd rfl applied
  · rw [restored.streams]
    exact nofun
  · intro runId description found
    cases found
  · intro runId run found ends other
    obtain ⟨old, there, -, status⟩ := known runId run found
    rw [kept, if_pos (by rw [show page.runs.lookup runId = some run from found]; rfl)]
    rw [status] at ends other
    exact good.complete runId old there ends other

theorem step_good (good : w.Good) {event : Event} (calm : Calm w event) : (step client w event).Good := by
  cases event with
  | server event =>
    obtain ⟨goodServer, goes⟩ := RunRegistry.step_good good.server calm
    exact good.onServer goodServer goes (RunRegistry.step_stays good.server event)
  | attach runId kind target message known => exact good.attach runId kind target message known
  | serve token => exact good.serve token
  | deliver token => exact good.deliver calm
  | done token =>
    simp only [step, World.onPage, BackgroundRuns.step, BackgroundRuns.streamEvent]
    split
    · exact good
    · rename_i stream found
      exact good.streamStep found (by simp) (by simp) (by simp)
  | failed token =>
    simp only [step, World.onPage, BackgroundRuns.step, BackgroundRuns.streamEvent]
    split
    · exact good
    · rename_i stream found
      exact good.streamStep found (by simp) (by simp) (by simp)
  | wake token =>
    simp only [step, World.onPage, BackgroundRuns.step, BackgroundRuns.streamEvent]
    split
    · exact good
    · rename_i stream found
      exact good.streamStep found (by simp) (by simp) fun _ _ => calm stream found
  | describe runId => exact good.describe runId
  | probed runId =>
    simp only [step]
    split
    · exact good
    · rename_i reply found
      have goodNext := good.unreply runId
      simp only [World.onPage, BackgroundRuns.step]
      split
      · rename_i probing
        refine goodNext.probed probing ?_ ?_
        · rintro description rfl
          exact good.replies runId description found
        · intro other live
          refine calm ?_ ?_ probing live
          · rw [found]
            rfl
          · rw [found]
            exact other
      · exact goodNext
  | probeFailed runId =>
    simp only [step, World.onPage, BackgroundRuns.step]
    split
    · rename_i probing
      refine good.probed probing ?_ fun _ => calm probing
      intro description same
      cases same
    · exact good
  | cancel runId => exact good.cancel runId
  | cancelled request answer => exact good.cancelled request answer
  | reload => exact good.reload

theorem step_goes (good : w.Good) {event : Event} (calm : Calm w event) :
    RunRegistry.Goes w.server (step client w event).server := by
  cases event with
  | server event => exact (RunRegistry.step_good good.server calm).2
  | serve token =>
    simp only [step, serve]
    split
    · rename_i runId afterSeq found
      have track : afterSeq = (w.appliedOf runId).length := good.onTrack token _ found
      split
      · exact RunRegistry.Goes.refl w.server
      · split
        · exact RunRegistry.Goes.refl w.server
        · rw [track, Rat.num_natCast]
          exact (good.server.subscribe runId (Int.natCast_nonneg _)).2
    · exact RunRegistry.Goes.refl w.server
  | deliver token =>
    simp only [step, deliver]
    split
    · exact RunRegistry.Goes.refl w.server
    · split <;> exact RunRegistry.Goes.refl w.server
  | probed runId =>
    simp only [step]
    split <;> exact RunRegistry.Goes.refl w.server
  | _ => exact RunRegistry.Goes.refl w.server

theorem World.Good.replayed (good : w.Good) : Replayed w := by
  refine ⟨?_, ?_, ?_, good.seqs, good.within, good.complete⟩
  · intro runId handle found ends
    have goodHandle := good.server.handles runId handle found
    exact goodHandle.closed (goodHandle.ended.mp ends)
  · intro id subscriber found
    obtain ⟨handle, after, known, fair⟩ := good.server.fair id subscriber found
    exact ⟨handle, after, known, fair⟩
  · intro id subscriber handle _ known _ waits
    cases ends : handle.status.isTerminal with
    | false => rfl
    | true =>
      rw [(good.server.handles _ handle known).settled ends] at waits
      cases waits

theorem frozen_of_goes (goes : RunRegistry.Goes w.server w'.server) : Frozen w w' := by
  intro runId handle found
  obtain ⟨handle', found', follows⟩ := goes runId handle found
  exact ⟨handle', found', follows.frozen⟩

theorem empty_page : PageGood BackgroundRuns.World.empty := by
  refine ⟨⟨?_, ?_⟩, ?_, ?_, ?_, ?_⟩
  · intro runId token found
    cases found
  · intro token stream found
    cases found
  · intro token stream found
    cases found
  · intro token token' stream stream' found
    cases found
  · intro token stream found
    cases found
  · intro runId status found
    cases found

theorem empty_good (maxFinished : Nat) : (World.empty maxFinished).Good := by
  refine ⟨RunRegistry.empty_good maxFinished, empty_page, fun _ => rfl, ?_, fun _ _ => rfl,
    fun _ applied => absurd rfl applied, ?_, ?_, ?_⟩
  · intro runId run found
    cases found
  · intro token stream found
    cases found
  · intro runId description found
    cases found
  · intro runId run found
    cases found

/-- In a run of the server and a client whose steps are all calm, the records replay in every state. -/
theorem records_replay (client : Client) (maxFinished : Nat) (events : List Event)
    (calm : EveryTurn (step client) Calm (World.empty maxFinished) events) :
    EveryTurn (step client) (fun w event => Replayed (step client w event) ∧ Frozen w (step client w event))
      (World.empty maxFinished) events := by
  refine everyTurn_of_invariant World.Good (fun _ _ calm good => step_good good calm) ?_ calm (empty_good maxFinished)
  intro w event calm good
  exact ⟨(step_good good calm).replayed, frozen_of_goes (step_goes good calm)⟩

section Runs

def started : List Event :=
  [.server (.start "r" .bootstrap "orders" {} []), .attach "r" .bootstrap "orders" "Starting..." {}, .serve 0,
    .server (.begin "r")]

def yields (name : String) : Event := .server (.turn "r" (.yields name []))

/-- The stream fails, and asks again. -/
def reconnects : List Event := [.failed 0, .wake 0, .serve 0]

/-- A subscriber has its next record, and the reader hands it over. -/
def reads (id : Nat) : List Event := [.server (.pull id), .deliver 0]

def reconnected : List Event :=
  started ++ [yields "status", .server (.pull 0)] ++ reads 0 ++ reconnects ++
    [.server (.turn "r" .exhausted), .server (.close "r"), .server (.pull 1)] ++ reads 1 ++ [.server (.pull 1), .done 0]

theorem records_replay_reconnected : EveryTurn (step BackgroundRuns.plain)
    (fun w event => Replayed (step BackgroundRuns.plain w event) ∧ Frozen w (step BackgroundRuns.plain w event))
    (World.empty 20) reconnected :=
  records_replay BackgroundRuns.plain 20 reconnected (by decide +kernel)

example : ((reconnected.foldl (step BackgroundRuns.plain) (World.empty 20)).appliedOf "r").map Applied.seq = [1, 2] := by
  decide +kernel

/-- A `complete` that does not move the run on is asked for again. -/
def repeats : List Event :=
  started ++ [yields "complete", .server (.pull 0)] ++ reads 0 ++ reconnects ++
    [.server (.pull 1), .server (.pull 1), .deliver 0]

/-- The generator's own `run_end` comes before the registry's. -/
def endsTwice : List Event :=
  started ++ [yields "run_end", .server (.turn "r" .exhausted), .server (.close "r")]

theorem final_replayed {client : Client} {w : World} (events : List Event) (last : Event)
    (every : EveryTurn (step client) (fun w event => Replayed (step client w event) ∧ Frozen w (step client w event)) w
      (events ++ [last])) : Replayed ((events ++ [last]).foldl (step client) w) := by
  rw [List.foldl_append]
  exact (everyTurn_append.mp every).2.1.1

theorem Replayed.ends (replayed : Replayed w) (runId : String) : ∀ handle ∈ w.server.handles.lookup runId,
    handle.status.isTerminal = true → ∀ record ∈ handle.events.dropLast, RunRegistry.endsRun record.event = false := by
  intro handle found ends
  obtain ⟨front, events, names⟩ := replayed.closed runId handle found ends
  rw [events, List.dropLast_concat]
  exact names

theorem records_repeat :
    (¬ EveryTurn (step BackgroundRuns.plain)
      (fun w event => Replayed (step BackgroundRuns.plain w event) ∧ Frozen w (step BackgroundRuns.plain w event))
      (World.empty 20) repeats) ∧
    ¬ EveryTurn (step BackgroundRuns.plain)
      (fun w event => Replayed (step BackgroundRuns.plain w event) ∧ Frozen w (step BackgroundRuns.plain w event))
      (World.empty 20) endsTwice := by
  refine ⟨?_, ?_⟩
  · intro every
    have applied := (final_replayed repeats.dropLast (.deliver 0) every).applied "r"
    exact absurd applied (by decide +kernel)
  · intro every
    have ends := (final_replayed endsTwice.dropLast (.server (.close "r")) every).ends "r"
    exact absurd ends (by decide +kernel)

end Runs

end Rdst.Web.Replay
