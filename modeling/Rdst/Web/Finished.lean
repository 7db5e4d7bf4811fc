import Rdst.Web.BackgroundRuns

namespace Rdst.Web.BackgroundRuns

open Assoc Machine

variable {client : Client} {w w' w'' : World} {runId : String} {event : Event}

/-- A run is not cancelled, refused its cancel or parked for a key after it is terminal. -/
def Calm (w : World) : Event → Prop
  | .cancel runId => ∀ run ∈ w.runs.lookup runId, isTerminal run.status = false
  | .cancelled request answer =>
    match answer with
    | .accepted => True
    | _ => ∀ runId ∈ w.deletes.lookup request, ∀ run ∈ w.runs.lookup runId, isTerminal run.status = false
  | .frame token name data =>
    name = "needs_key" → data.isNull = false → ∀ stream ∈ w.streams.lookup token, stream.stage = .reading →
      ∀ run ∈ w.runs.lookup stream.runId, isTerminal run.status = false
  | _ => True

instance (w : World) (event : Event) : Decidable (Calm w event) :=
  match event with
  | .cancel runId => inferInstanceAs (Decidable (∀ run ∈ w.runs.lookup runId, _))
  | .cancelled _ .accepted => .isTrue trivial
  | .cancelled request (.refused _) => inferInstanceAs (Decidable (∀ runId ∈ w.deletes.lookup request, _))
  | .cancelled request .failed => inferInstanceAs (Decidable (∀ runId ∈ w.deletes.lookup request, _))
  | .frame token name data =>
    inferInstanceAs (Decidable (name = "needs_key" → data.isNull = false → ∀ stream ∈ w.streams.lookup token, _))
  | .attach .. => .isTrue trivial
  | .kickoffFailed .. => .isTrue trivial
  | .reattach .. => .isTrue trivial
  | .probed .. => .isTrue trivial
  | .answered .. => .isTrue trivial
  | .done .. => .isTrue trivial
  | .failed .. => .isTrue trivial
  | .wake .. => .isTrue trivial
  | .interrupt .. => .isTrue trivial
  | .dismiss .. => .isTrue trivial

/-- The run's stream, which has not ended. -/
def World.HasStream (w : World) (runId : String) : Prop :=
  ∃ token stream, w.streaming.lookup runId = some token ∧ w.streams.lookup token = some stream ∧
    stream.runId = runId ∧ stream.stage ≠ .ended

structure Settled (w w' : World) : Prop where
  finished : ∀ runId run, w.runs.lookup runId = some run → isTerminal run.status = true → w'.isLive runId = false
  attended : ∀ runId, w'.isLive runId = true →
    w'.HasStream runId ∨ runId ∈ w'.probing ∨ ∃ request, w'.deletes.lookup request = some runId

theorem isLive_iff : w.isLive runId = true ↔
    ∃ run, w.runs.lookup runId = some run ∧ isTerminal run.status = false := by
  unfold World.isLive
  cases w.runs.lookup runId with
  | none => simp
  | some run => simp

theorem updateRun_runs (w : World) (runId : String) (change : BackgroundRun → BackgroundRun) (other : String) :
    ((w.updateRun runId change).runs.lookup other).map BackgroundRun.status =
      if other = runId then (w.runs.lookup runId).map fun run => (change run).status
      else (w.runs.lookup other).map BackgroundRun.status := by
  unfold World.updateRun
  cases found : w.runs.lookup runId with
  | none =>
    by_cases same : other = runId
    · subst same
      simp [found]
    · simp [same]
  | some current =>
    simp only [insert_lookup]
    split <;> rfl

/-- The streams and the probes are as they were, and no run is live that was not. -/
structure Keeps (w w' : World) : Prop where
  streaming : w'.streaming = w.streaming
  streams : w'.streams = w.streams
  started : w'.started = w.started
  probing : w'.probing = w.probing
  live : ∀ runId, w'.isLive runId = true → w.isLive runId = true

theorem Keeps.refl (w : World) : Keeps w w := ⟨rfl, rfl, rfl, rfl, fun _ live => live⟩

theorem Keeps.trans (first : Keeps w w') (second : Keeps w' w'') : Keeps w w'' :=
  ⟨second.streaming.trans first.streaming, second.streams.trans first.streams, second.started.trans first.started,
    second.probing.trans first.probing, fun runId live => first.live runId (second.live runId live)⟩

theorem isLive_status : w.isLive runId = ((w.runs.lookup runId).map BackgroundRun.status).any fun status =>
    !isTerminal status := by
  unfold World.isLive
  cases w.runs.lookup runId with
  | none => rfl
  | some run => rfl

theorem updateRun_frame (w : World) (runId : String) (change : BackgroundRun → BackgroundRun) :
    (w.updateRun runId change).streaming = w.streaming ∧ (w.updateRun runId change).streams = w.streams ∧
      (w.updateRun runId change).started = w.started ∧ (w.updateRun runId change).probing = w.probing := by
  unfold World.updateRun
  cases w.runs.lookup runId with
  | none => exact ⟨rfl, rfl, rfl, rfl⟩
  | some run => exact ⟨rfl, rfl, rfl, rfl⟩

theorem updateRun_other (change : BackgroundRun → BackgroundRun) {other : String} (apart : other ≠ runId) :
    (w.updateRun runId change).isLive other = w.isLive other := by
  rw [isLive_status, updateRun_runs, if_neg apart, isLive_status]

/-- Of a run that was live. -/
theorem Keeps.update_live (kept : Keeps w w') (live : w.isLive runId = true)
    (change : BackgroundRun → BackgroundRun) : Keeps w (w'.updateRun runId change) := by
  obtain ⟨streaming, streams, started, probing⟩ := updateRun_frame w' runId change
  refine ⟨streaming.trans kept.streaming, streams.trans kept.streams, started.trans kept.started,
    probing.trans kept.probing, ?_⟩
  intro other after
  by_cases same : other = runId
  · rwa [same]
  · rw [updateRun_other change same] at after
    exact kept.live other after

theorem updateRun_keeps {change : BackgroundRun → BackgroundRun}
    (keeps : ∀ run, w.runs.lookup runId = some run → isTerminal run.status = true →
      isTerminal (change run).status = true) : Keeps w (w.updateRun runId change) := by
  obtain ⟨streaming, streams, started, probing⟩ := updateRun_frame w runId change
  refine ⟨streaming, streams, started, probing, ?_⟩
  intro other live
  by_cases same : other = runId
  · subst same
    rw [isLive_status, updateRun_runs, if_pos rfl] at live
    cases found : w.runs.lookup other with
    | none => simp [found] at live
    | some run =>
      rw [isLive_iff]
      refine ⟨run, found, ?_⟩
      cases ends : isTerminal run.status with
      | false => rfl
      | true => simp [found, keeps run found ends] at live
  · rwa [updateRun_other change same] at live

theorem markReconnecting_keeps (w : World) (runId : String) : Keeps w (markReconnecting w runId) := by
  unfold markReconnecting
  split
  · exact Keeps.refl w
  · rename_i run found
    split
    · exact Keeps.refl w
    · rename_i live
      have noted : Keeps w { w with reconnectStatuses := w.reconnectStatuses.insert runId run.status } :=
        ⟨rfl, rfl, rfl, rfl, fun _ live => live⟩
      apply noted.trans
      apply updateRun_keeps
      intro run' found' ends
      rw [show w.runs.lookup runId = some run' from found'] at found
      cases found
      exact absurd (.inl ends) live

theorem restoreConnectedState_keeps (w : World) (runId : String) : Keeps w (restoreConnectedState w runId) := by
  unfold restoreConnectedState
  generalize forgotten : ({ w with reconnectStatuses := w.reconnectStatuses.erase runId } : World) = mid
  have kept : Keeps w mid := by
    subst forgotten
    exact ⟨rfl, rfl, rfl, rfl, fun _ live => live⟩
  simp only
  split
  · exact kept
  · rename_i run found
    split
    · exact kept
    · rename_i waits
      refine kept.trans (updateRun_keeps ?_)
      intro run' found' ends
      rw [found] at found'
      cases found'
      rw [not_not.mp waits] at ends
      cases ends

/-- What a frame does to a run's number and to its status. -/
theorem frameRun_spec {run next : BackgroundRun} {name : String} {data : Json}
    (framed : frameRun client run name data = some next) :
    next.lastSeq = max run.lastSeq ((numberOf (data.field "seq")).getD run.lastSeq) ∧
      (next.status = run.status ∨ (name = "needs_key" ∧ next.status = .needsKey) ∨
        (run.status = .needsKey ∧ next.status = .running) ∨ (name = "run_end" ∧ isTerminal next.status = true)) := by
  unfold frameRun at framed
  simp only at framed
  split at framed
  case h_1 =>
    split at framed
    · cases framed
      exact ⟨rfl, .inl rfl⟩
    · split at framed
      · split at framed <;> cases framed <;> exact ⟨rfl, .inl rfl⟩
      · cases framed
        exact ⟨rfl, .inl rfl⟩
  case h_2 =>
    cases framed
    refine ⟨rfl, ?_⟩
    by_cases parked : run.status = .needsKey
    · exact .inr (.inr (.inl ⟨parked, if_pos parked⟩))
    · exact .inl (if_neg parked)
  case h_3 =>
    cases framed
    exact ⟨rfl, .inr (.inl ⟨rfl, rfl⟩)⟩
  case h_14 =>
    split at framed
    · cases framed
      exact ⟨rfl, .inl rfl⟩
    · split at framed <;> cases framed
      exact ⟨rfl, .inl rfl⟩
  case h_16 => split at framed <;> cases framed <;> exact ⟨rfl, .inl rfl⟩
  case h_20 =>
    cases framed
    refine ⟨rfl, .inr (.inr (.inr ⟨rfl, ?_⟩))⟩
    simp only
    split
    · rfl
    · cases BackgroundRunStatus.ofName (textOf client data "status" "done") with
      | none => rfl
      | some status => cases status <;> rfl
  all_goals
    cases framed
    exact ⟨rfl, .inl rfl⟩

/-- A frame makes a terminal run live only where it parks it for a key. -/
theorem frameRun_terminal {run next : BackgroundRun} {name : String} {data : Json}
    (framed : frameRun client run name data = some next) (ends : isTerminal run.status = true)
    (other : name ≠ "needs_key") : isTerminal next.status = true := by
  rcases (frameRun_spec framed).2 with same | ⟨parks, -⟩ | ⟨parked, -⟩ | ⟨-, terminal⟩
  · rwa [same]
  · exact absurd parks other
  · rw [parked] at ends
    cases ends
  · exact terminal

theorem applyFrame_keeps {name : String} {data : Json}
    (calm : name = "needs_key" → data.isNull = false → ∀ run ∈ w.runs.lookup runId, isTerminal run.status = false) :
    Keeps w (applyFrame client w runId name data) := by
  unfold applyFrame
  split
  · exact Keeps.refl w
  · rename_i run found
    cases ends : isTerminal run.status with
    | false =>
      have live : w.isLive runId = true := isLive_iff.mpr ⟨run, found, ends⟩
      have restored : Keeps w (if run.status = .reconnecting then restoreConnectedState w runId else w) := by
        split
        · exact restoreConnectedState_keeps w runId
        · exact Keeps.refl w
      generalize (if run.status = .reconnecting then restoreConnectedState w runId else w) = mid at restored
      simp only
      split
      · exact restored
      · split
        · exact restored
        · split
          · exact restored
          · exact restored.update_live live _
    | true =>
      have connected : run.status ≠ .reconnecting := by
        intro waits
        rw [waits] at ends
        cases ends
      simp only [if_neg connected, found]
      split
      · exact Keeps.refl w
      · rename_i notNull
        split
        · exact Keeps.refl w
        · rename_i next framed
          apply updateRun_keeps
          intro run' found' _
          rw [found] at found'
          cases found'
          apply frameRun_terminal framed ends
          intro parks
          have live := calm parks (Bool.eq_false_iff.mpr notNull) run found
          rw [ends] at live
          cases live

/-- The tokens are of streams that have not ended. -/
structure World.Sound (w : World) : Prop where
  registered : ∀ runId token, w.streaming.lookup runId = some token →
    ∃ stream, w.streams.lookup token = some stream ∧ stream.runId = runId ∧ stream.stage ≠ .ended
  bounded : ∀ token stream, w.streams.lookup token = some stream → token < w.started

/-- A live run has a stream or a probe. -/
def World.Attended (w : World) (runId : String) : Prop :=
  w.isLive runId = true → (∃ token, w.streaming.lookup runId = some token) ∨ runId ∈ w.probing

structure World.Good (w : World) : Prop extends World.Sound w where
  attended : ∀ runId, w.Attended runId

theorem Keeps.sound (kept : Keeps w w') (sound : w.Sound) : w'.Sound := by
  obtain ⟨streaming, streams, started, probing, live⟩ := kept
  refine ⟨?_, ?_⟩
  · rw [streaming, streams]
    exact sound.registered
  · rw [streams, started]
    exact sound.bounded

theorem Keeps.attended (kept : Keeps w w') (attended : w.Attended runId) : w'.Attended runId := by
  intro live
  rw [kept.streaming, kept.probing]
  exact attended (kept.live runId live)

theorem Keeps.good (kept : Keeps w w') (good : w.Good) : w'.Good :=
  ⟨kept.sound good.toSound, fun runId => kept.attended (good.attended runId)⟩

theorem World.Sound.goTo (sound : w.Sound) {token : Nat} {stream : Stream} {stage : Stage}
    (found : w.streams.lookup token = some stream) (goes : stage ≠ .ended) : (w.goTo token stream stage).Sound := by
  refine ⟨?_, ?_⟩
  · intro runId own registered
    obtain ⟨old, there, same, unended⟩ := sound.registered runId own registered
    unfold World.goTo
    rw [insert_lookup]
    split
    · rename_i equal
      rw [equal, found] at there
      cases there
      exact ⟨_, rfl, same, goes⟩
    · exact ⟨old, there, same, unended⟩
  · intro other there member
    unfold World.goTo at member
    rw [insert_lookup] at member
    split at member
    · rename_i equal
      rw [equal]
      exact sound.bounded token stream found
    · exact sound.bounded other there member

theorem World.Good.goTo (good : w.Good) {token : Nat} {stream : Stream} {stage : Stage}
    (found : w.streams.lookup token = some stream) (goes : stage ≠ .ended) : (w.goTo token stream stage).Good :=
  ⟨good.toSound.goTo found goes, good.attended⟩

theorem settle_streaming (w : World) (token : Nat) (stream : Stream) (other : String) :
    (w.settle token stream).streaming.lookup other =
      if other = stream.runId ∧ w.streaming.lookup other = some token then none else w.streaming.lookup other := by
  show AList.lookup other (if w.streaming.lookup stream.runId = some token then _ else _) = _
  by_cases own : w.streaming.lookup stream.runId = some token
  · rw [if_pos own, erase_lookup]
    by_cases same : other = stream.runId
    · subst same
      simp [own]
    · simp [same]
  · rw [if_neg own, if_neg]
    rintro ⟨rfl, registered⟩
    exact own registered

theorem World.Sound.settle (sound : w.Sound) {token : Nat} {stream : Stream}
    (found : w.streams.lookup token = some stream) : (w.settle token stream).Sound := by
  refine ⟨?_, ?_⟩
  · intro runId own registered
    rw [settle_streaming] at registered
    split at registered
    · cases registered
    · rename_i other
      obtain ⟨old, there, same, unended⟩ := sound.registered runId own registered
      refine ⟨old, ?_, same, unended⟩
      unfold World.settle
      rw [insert_lookup, if_neg, there]
      rintro rfl
      rw [found] at there
      cases there
      exact other ⟨same.symm, registered⟩
  · intro other there member
    unfold World.settle at member
    rw [insert_lookup] at member
    split at member
    · rename_i equal
      rw [equal]
      exact sound.bounded token stream found
    · exact sound.bounded other there member

theorem World.Good.settle (good : w.Good) {token : Nat} {stream : Stream}
    (found : w.streams.lookup token = some stream)
    (over_ : w.streaming.lookup stream.runId = some token → w.isLive stream.runId = false) :
    (w.settle token stream).Good := by
  refine ⟨good.toSound.settle found, ?_⟩
  intro runId live
  rcases good.attended runId live with ⟨own, registered⟩ | probes
  · rw [settle_streaming]
    split
    · rename_i mine
      obtain ⟨rfl, registered⟩ := mine
      have live : w.isLive stream.runId = true := live
      rw [over_ registered] at live
      cases live
    · exact .inl ⟨own, registered⟩
  · exact .inr probes

theorem streamRun_live (w : World) (runId other : String) : (streamRun w runId).isLive other = w.isLive other := by
  unfold streamRun
  split
  · split <;> rfl
  · rfl

/-- What the start of a stream leaves: nothing new, or a stream of the live run, whose token is new. -/
theorem streamRun_spec (w : World) (runId : String) :
    (streamRun w runId = w ∧ (w.isLive runId = true → ∃ token, w.streaming.lookup runId = some token)) ∨
      ∃ run, w.runs.lookup runId = some run ∧ isTerminal run.status = false ∧ w.streaming.lookup runId = none ∧
        streamRun w runId =
          { w with
            streaming := w.streaming.insert runId w.started
            streams := w.streams.insert w.started ⟨runId, .fetching run.lastSeq⟩
            started := w.started + 1 } := by
  unfold streamRun
  split
  · rename_i run free found
    split
    · rename_i ends
      refine .inl ⟨rfl, fun live => ?_⟩
      obtain ⟨run', found', goes⟩ := isLive_iff.mp live
      rw [found] at found'
      cases found'
      rw [ends] at goes
      cases goes
    · rename_i live
      exact .inr ⟨run, found, Bool.eq_false_iff.mpr live, free, rfl⟩
  · rename_i busy
    refine .inl ⟨rfl, fun live => ?_⟩
    obtain ⟨run, found, -⟩ := isLive_iff.mp live
    cases registered : w.streaming.lookup runId with
    | none => exact absurd found (busy run registered)
    | some token => exact ⟨token, rfl⟩

theorem streamRun_sound (sound : w.Sound) (runId : String) : (streamRun w runId).Sound := by
  rcases streamRun_spec w runId with ⟨same, -⟩ | ⟨run, found, live, free, same⟩
  · rwa [same]
  · rw [same]
    refine ⟨?_, ?_⟩
    · intro other token registered
      simp only [insert_lookup] at registered ⊢
      split at registered
      · rename_i equal
        cases registered
        exact ⟨_, if_pos rfl, equal.symm, nofun⟩
      · obtain ⟨stream, there, rest⟩ := sound.registered other token registered
        have below := sound.bounded token stream there
        rw [if_neg (by omega), there]
        exact ⟨stream, rfl, rest⟩
    · intro token stream member
      show token < w.started + 1
      simp only [insert_lookup] at member
      split at member
      · omega
      · have below := sound.bounded token stream member
        omega

/-- A run that may be live without a stream has one after `streamRun`. -/
theorem World.Sound.streamRun (sound : w.Sound) (attended : ∀ other, other ≠ runId → w.Attended other) :
    (streamRun w runId).Good := by
  refine ⟨streamRun_sound sound runId, ?_⟩
  rcases streamRun_spec w runId with ⟨same, busy⟩ | ⟨run, found, live, free, same⟩
  · rw [same]
    intro other
    by_cases equal : other = runId
    · subst equal
      exact fun goes => .inl (busy goes)
    · exact attended other equal
  · rw [same]
    intro other goes
    simp only [insert_lookup]
    by_cases equal : other = runId
    · exact .inl ⟨_, if_pos equal⟩
    · rw [if_neg equal]
      exact attended other equal goes

theorem World.Sound.stopStream (sound : w.Sound) (runId : String) : (stopStream w runId).Sound := by
  refine ⟨?_, sound.bounded⟩
  intro other token registered
  unfold BackgroundRuns.stopStream at registered
  rw [erase_lookup] at registered
  split at registered
  · cases registered
  · exact sound.registered other token registered

theorem stopStream_attended {other : String} (attended : w.Attended other) (apart : other ≠ runId) :
    (stopStream w runId).Attended other := by
  intro live
  rcases attended live with registered | probes
  · left
    unfold stopStream
    simp only [erase_lookup, if_neg apart]
    exact registered
  · exact .inr probes

/-- A run that is live after was live before, or was not there. -/
def Grows (w w' : World) : Prop := ∀ runId, w'.isLive runId = true → w.isLive runId = true ∨ w.runs.lookup runId = none

theorem Keeps.grows (kept : Keeps w w') : Grows w w' := fun runId live => .inl (kept.live runId live)

theorem insert_live (w : World) (runId : String) (run : BackgroundRun) (other : String) :
    ({ w with runs := w.runs.insert runId run } : World).isLive other =
      if other = runId then !isTerminal run.status else w.isLive other := by
  unfold World.isLive
  simp only [insert_lookup]
  split <;> rfl

theorem erase_live (w : World) (runId other : String) :
    ({ w with runs := w.runs.erase runId } : World).isLive other = if other = runId then false else w.isLive other := by
  unfold World.isLive
  simp only [erase_lookup]
  split <;> rfl

/-- A run that is not there is added; what is live of the others stays attended. -/
theorem World.Good.insert (good : w.Good) (runId : String) (run : BackgroundRun) :
    ({ w with runs := w.runs.insert runId run } : World).Sound ∧
      ∀ other, other ≠ runId → ({ w with runs := w.runs.insert runId run } : World).Attended other := by
  refine ⟨⟨good.registered, good.bounded⟩, ?_⟩
  intro other apart live
  rw [insert_live, if_neg apart] at live
  exact good.attended other live

theorem attachRun_good (good : w.Good) (kind : BackgroundRunKind) (target message : String) (known : RunMetadata) :
    (attachRun w runId kind target message known).Good ∧ Grows w (attachRun w runId kind target message known) := by
  unfold attachRun
  split
  · exact ⟨good, (Keeps.refl w).grows⟩
  · rename_i absent
    obtain ⟨sound, attended⟩ := good.insert runId
      (newRun kind target (initialStages kind) message .running known)
    refine ⟨sound.streamRun attended, ?_⟩
    intro other live
    rw [streamRun_live, insert_live] at live
    split at live
    · rename_i same
      rw [same]
      exact .inr absent
    · exact .inl live

theorem kickoffFailed_keeps (w : World) (kindName : String) (kind : BackgroundRunKind) (target message now : String)
    (known : RunMetadata) : Keeps w (kickoffFailed w kindName kind target message now known) := by
  refine ⟨rfl, rfl, rfl, rfl, ?_⟩
  intro other live
  unfold kickoffFailed at live
  rw [insert_live] at live
  split at live
  · cases live
  · exact live

theorem probeAndStream_live (w : World) (runId other : String) :
    (probeAndStream w runId).isLive other = w.isLive other := by
  unfold probeAndStream
  split
  · rfl
  · split
    · rfl
    · split <;> rfl

theorem World.Sound.probeAndStream (sound : w.Sound) (attended : ∀ other, other ≠ runId → w.Attended other) :
    (probeAndStream w runId).Good := by
  have others : ∀ other, other = runId → (∃ token, w.streaming.lookup other = some token) ∨ other ∈ w.probing ∨
      w.isLive other = false → w.Attended other := by
    intro other _ reasons live
    rcases reasons with registered | probes | ends
    · exact .inl registered
    · exact .inr probes
    · rw [live] at ends
      cases ends
  unfold BackgroundRuns.probeAndStream
  split
  · rename_i probes
    refine ⟨sound, fun other => ?_⟩
    by_cases same : other = runId
    · exact others other same (.inr (.inl (same ▸ probes)))
    · exact attended other same
  · split
    · rename_i absent
      refine ⟨sound, fun other => ?_⟩
      by_cases same : other = runId
      · refine others other same (.inr (.inr ?_))
        rw [same, World.isLive, absent]
        rfl
      · exact attended other same
    · rename_i run found
      split
      · rename_i ends
        refine ⟨sound, fun other => ?_⟩
        by_cases same : other = runId
        · refine others other same (.inr (.inr ?_))
          rw [same, World.isLive, found]
          simp [ends]
        · exact attended other same
      · refine ⟨⟨sound.registered, sound.bounded⟩, ?_⟩
        intro other live
        by_cases same : other = runId
        · rw [same]
          exact .inr List.mem_cons_self
        · rcases attended other same live with registered | probes
          · exact .inl registered
          · exact .inr (List.mem_cons_of_mem _ probes)

theorem probeAndStream_runs (w : World) (runId : String) : (probeAndStream w runId).runs = w.runs := by
  unfold probeAndStream
  split
  · rfl
  · split
    · rfl
    · split <;> rfl

theorem restoreStored_good (good : w.Good) (entry : String × BackgroundRun) :
    (restoreStored w entry).Good ∧ Grows w (restoreStored w entry) ∧
      ∀ other, (restoreStored w entry).runs.lookup other = none → w.runs.lookup other = none := by
  unfold restoreStored
  split
  · exact ⟨good, (Keeps.refl w).grows, fun _ absent => absent⟩
  · rename_i fresh
    have absent : w.runs.lookup entry.1 = none := by
      cases found : w.runs.lookup entry.1 with
      | none => rfl
      | some run => exact absurd (.inr (by rw [found]; rfl)) fresh
    obtain ⟨sound, attended⟩ := good.insert entry.1
      { entry.2 with seenLive := !isTerminal entry.2.status }
    have grows : ∀ other, ({ w with
        runs := w.runs.insert entry.1 { entry.2 with seenLive := !isTerminal entry.2.status } } : World).isLive other =
          true → w.isLive other = true ∨ w.runs.lookup other = none := by
      intro other live
      rw [insert_live] at live
      split at live
      · rename_i same
        rw [same]
        exact .inr absent
      · exact .inl live
    have known : ∀ other, ((w.runs.insert entry.1
        { entry.2 with seenLive := !isTerminal entry.2.status }).lookup other = none) → w.runs.lookup other = none := by
      intro other gone
      rw [insert_lookup] at gone
      split at gone
      · cases gone
      · exact gone
    split
    · rename_i ends
      refine ⟨⟨sound, fun other => ?_⟩, grows, known⟩
      by_cases same : other = entry.1
      · intro live
        rw [insert_live, if_pos same] at live
        simp [ends] at live
      · exact attended other same
    · refine ⟨sound.probeAndStream attended, fun other live => ?_, fun other gone => ?_⟩
      · rw [probeAndStream_live] at live
        exact grows other live
      · rw [probeAndStream_runs] at gone
        exact known other gone

theorem reattach_good (good : w.Good) (stored : List (String × BackgroundRun)) :
    (reattachBackgroundRuns w stored).Good ∧ Grows w (reattachBackgroundRuns w stored) := by
  have folded : ∀ (mid : World), mid.Good → Grows w mid →
      (∀ other, mid.runs.lookup other = none → w.runs.lookup other = none) →
      (stored.foldl restoreStored mid).Good ∧ Grows w (stored.foldl restoreStored mid) := by
    induction stored with
    | nil => exact fun mid goodMid grows _ => ⟨goodMid, grows⟩
    | cons entry rest ih =>
      intro mid goodMid grows known
      obtain ⟨goodNext, next, fewer⟩ := restoreStored_good goodMid entry
      apply ih _ goodNext
      · intro other live
        rcases next other live with before | absent
        · exact grows other before
        · exact .inr (known other absent)
      · exact fun other gone => known other (fewer other gone)
  unfold reattachBackgroundRuns
  split
  · exact ⟨good, (Keeps.refl w).grows⟩
  · exact folded _ ⟨⟨good.registered, good.bounded⟩, good.attended⟩ (fun _ live => .inl live) (fun _ absent => absent)

theorem removeRun_good (good : w.Good) (runId : String) :
    (removeRun w runId).Good ∧ Grows w (removeRun w runId) := by
  unfold removeRun
  split
  · exact ⟨good, (Keeps.refl w).grows⟩
  · generalize erased : ({ w with runs := w.runs.erase runId } : World) = mid
    have live : ∀ other, mid.isLive other = if other = runId then false else w.isLive other := by
      subst erased
      exact erase_live w runId
    have goodMid : mid.Good := by
      refine ⟨?_, fun other goes => ?_⟩
      · subst erased
        exact ⟨good.registered, good.bounded⟩
      · rw [live] at goes
        split at goes
        · cases goes
        · have before := good.attended other goes
          subst erased
          exact before
    have stopped := goodMid.stopStream runId
    refine ⟨⟨⟨stopped.registered, stopped.bounded⟩, ?_⟩, ?_⟩
    · intro other goes
      have goesMid : mid.isLive other = true := goes
      by_cases same : other = runId
      · rw [live, if_pos same] at goesMid
        cases goesMid
      · exact stopStream_attended (goodMid.attended other) same goes
    · intro other goes
      have goesMid : mid.isLive other = true := goes
      rw [live] at goesMid
      split at goesMid
      · cases goesMid
      · exact .inl goesMid

/-- A run whose stream was stopped is not live. -/
theorem stop_good (good : w.Good) (change : BackgroundRun → BackgroundRun)
    (ends : ∀ run, isTerminal (change run).status = true) :
    ((stopStream w runId).updateRun runId change).Good ∧
      Grows w ((stopStream w runId).updateRun runId change) := by
  have kept : Keeps (stopStream w runId) ((stopStream w runId).updateRun runId change) :=
    updateRun_keeps fun run _ _ => ends run
  refine ⟨⟨kept.sound (good.stopStream runId), ?_⟩, ?_⟩
  · intro other live
    by_cases same : other = runId
    · subst same
      rw [isLive_status, updateRun_runs, if_pos rfl] at live
      cases found : (stopStream w other).runs.lookup other with
      | none => simp [found] at live
      | some run => simp [found, ends run] at live
    · exact kept.attended (stopStream_attended (good.attended other) same) live
  · exact fun other live => .inl (kept.live other live)

theorem probed_good (good : w.Good) (runId : String) (answer : Probe) :
    (probed w runId answer).Good ∧ Grows w (probed w runId answer) := by
  unfold probed
  generalize answered : ({ w with probing := w.probing.filter fun other => decide (other ≠ runId) } : World) = mid
  have sound : mid.Sound := by
    subst answered
    exact ⟨good.registered, good.bounded⟩
  have attended : ∀ other, other ≠ runId → mid.Attended other := by
    intro other apart live
    subst answered
    rcases good.attended other live with registered | probes
    · exact .inl registered
    · exact .inr (List.mem_filter.mpr ⟨probes, decide_eq_true apart⟩)
  have grows : ∀ other, mid.isLive other = true → w.isLive other = true := by
    subst answered
    exact fun _ live => live
  clear answered
  cases answer with
  | unknown =>
    simp only
    have kept : Keeps mid (mid.updateRun runId fun run =>
        { run with status := .interrupted, message := interruptedText }) := updateRun_keeps fun _ _ _ => rfl
    refine ⟨⟨kept.sound sound, fun other live => ?_⟩, fun other live => .inl (grows other (kept.live other live))⟩
    by_cases same : other = runId
    · subst same
      rw [isLive_status, updateRun_runs, if_pos rfl] at live
      cases found : mid.runs.lookup other with
      | none => simp [found] at live
      | some run => simp [found, isTerminal] at live
    · exact kept.attended (attended other same) live
  | failed =>
    simp only
    have kept := markReconnecting_keeps mid runId
    refine ⟨(kept.sound sound).streamRun fun other apart => kept.attended (attended other apart), ?_⟩
    intro other live
    rw [streamRun_live] at live
    exact .inl (grows other (kept.live other live))
  | found description =>
    simp only
    split
    · rename_i absent
      refine ⟨⟨sound, fun other live => ?_⟩, fun other live => .inl (grows other live)⟩
      by_cases same : other = runId
      · rw [same, World.isLive, absent] at live
        cases live
      · exact attended other same live
    · rename_i current found
      split
      · rename_i ends
        refine ⟨⟨sound, fun other live => ?_⟩, fun other live => .inl (grows other live)⟩
        by_cases same : other = runId
        · rw [same, World.isLive, found] at live
          simp [ends] at live
        · exact attended other same live
      · rename_i goes
        have live : mid.isLive runId = true := isLive_iff.mpr ⟨current, found, Bool.eq_false_iff.mpr goes⟩
        have forgets : Keeps mid { mid with reconnectStatuses := mid.reconnectStatuses.erase runId } :=
          ⟨rfl, rfl, rfl, rfl, fun _ live => live⟩
        have kept := forgets.update_live live fun run => run.describedBy description
        have statuses := updateRun_runs { mid with reconnectStatuses := mid.reconnectStatuses.erase runId } runId
          fun run => run.describedBy description
        generalize World.updateRun _ runId _ = updated at kept statuses
        have attended' := fun other apart => kept.attended (attended other apart)
        split
        · refine ⟨(kept.sound sound).streamRun attended', fun other live' => ?_⟩
          rw [streamRun_live] at live'
          exact .inl (grows other (kept.live other live'))
        · rename_i settled
          simp only [Bool.not_eq_true, Bool.or_eq_false_iff, Bool.not_eq_false'] at settled
          refine ⟨⟨(kept.sound sound).stopStream runId, fun other after => ?_⟩,
            fun other after => .inl (grows other (kept.live other after))⟩
          by_cases same : other = runId
          · subst same
            have lives : updated.isLive other = true := after
            rw [isLive_status, statuses, if_pos rfl, show AList.lookup other mid.runs = some current from found] at lives
            simp [BackgroundRun.describedBy, settled] at lives
          · exact stopStream_attended (attended' other same) same after

theorem World.Good.retry (good : w.Good) {token : Nat} {stream : Stream}
    (found : w.streams.lookup token = some stream) : (w.retry token stream).Good ∧ Grows w (w.retry token stream) := by
  have kept := markReconnecting_keeps w stream.runId
  refine ⟨(kept.good good).goTo (by rw [kept.streams, found]) nofun, ?_⟩
  exact fun other live => .inl (kept.live other live)

theorem streamStep_good (good : w.Good) {token : Nat} {stream : Stream}
    (found : w.streams.lookup token = some stream) (calm : Calm w event)
    (own : ∀ other name data, event = .frame other name data → other = token) :
    (streamStep client w token stream event).Good ∧ Grows w (streamStep client w token stream event) := by
  unfold streamStep
  split
  · split
    · rename_i stale
      exact ⟨good.settle found fun registered => absurd registered stale, (Keeps.refl w).grows⟩
    · split
      · have kept : Keeps w (w.updateRun stream.runId fun run =>
            { run with status := .interrupted, message := interruptedText }) := updateRun_keeps fun _ _ _ => rfl
        refine ⟨(kept.good good).settle (by rw [kept.streams, found]) fun _ => ?_, ?_⟩
        · rw [isLive_status, updateRun_runs, if_pos rfl]
          cases w.runs.lookup stream.runId with
          | none => rfl
          | some run => rfl
        · exact fun other live => .inl (kept.live other live)
      · split
        · exact good.retry found
        · have kept := restoreConnectedState_keeps w stream.runId
          refine ⟨(kept.good good).goTo (by rw [kept.streams, found]) nofun, ?_⟩
          exact fun other live => .inl (kept.live other live)
  · rename_i reads
    rename_i other name data
    have kept : Keeps w (applyFrame client w stream.runId name data) := by
      apply applyFrame_keeps
      intro parks notNull
      have same := own _ _ _ rfl
      subst same
      exact calm parks notNull stream found reads
    exact ⟨kept.good good, kept.grows⟩
  · split
    · exact good.retry found
    · rename_i over_
      exact ⟨good.settle found fun _ => Bool.eq_false_iff.mpr over_, (Keeps.refl w).grows⟩
  · exact good.retry found
  · exact good.retry found
  · split
    · rename_i absent
      refine ⟨good.settle found fun _ => ?_, (Keeps.refl w).grows⟩
      rw [World.isLive, absent]
      rfl
    · rename_i run there
      split
      · exact ⟨good.goTo found nofun, (Keeps.refl w).grows⟩
      · rename_i over_
        refine ⟨good.settle found fun registered => ?_, (Keeps.refl w).grows⟩
        rw [World.isLive, there]
        by_contra live
        exact over_ ⟨registered, by simpa using live⟩
  · exact ⟨good, (Keeps.refl w).grows⟩

theorem cancel_keeps (runId : String) (calm : Calm w (.cancel runId)) : Keeps w (cancelBackgroundRun w runId) := by
  have kept : Keeps w (w.updateRun runId fun run =>
      { run with status := .stopping, message := "Stopping active query..." }) := by
    apply updateRun_keeps
    intro run found ends
    rw [calm run found] at ends
    cases ends
  exact kept.trans ⟨rfl, rfl, rfl, rfl, fun _ live => live⟩

theorem cancelAnswered_keeps (request : Nat) (answer : Answer) (calm : Calm w (.cancelled request answer)) :
    Keeps w (cancelAnswered w request answer) := by
  unfold cancelAnswered
  split
  · exact Keeps.refl w
  · rename_i runId found
    have removed : Keeps w { w with deletes := w.deletes.erase request } := ⟨rfl, rfl, rfl, rfl, fun _ live => live⟩
    cases answer with
    | accepted => exact removed
    | refused message =>
      apply removed.trans
      apply updateRun_keeps
      intro run there ends
      rw [calm runId found run there] at ends
      cases ends
    | failed =>
      apply removed.trans
      apply updateRun_keeps
      intro run there ends
      rw [calm runId found run there] at ends
      cases ends

theorem step_good (client : Client) (good : w.Good) (calm : Calm w event) :
    (step client w event).Good ∧ Grows w (step client w event) := by
  have streamed : ∀ token, (∀ other name data, event = .frame other name data → other = token) →
      (streamEvent client w token event).Good ∧ Grows w (streamEvent client w token event) := by
    intro token own
    unfold streamEvent
    split
    · exact ⟨good, (Keeps.refl w).grows⟩
    · rename_i stream found
      exact streamStep_good good found calm own
  cases event with
  | attach runId kind target message known => exact attachRun_good good kind target message known
  | kickoffFailed kindName kind target message now known =>
    have kept := kickoffFailed_keeps w kindName kind target message now known
    exact ⟨kept.good good, kept.grows⟩
  | reattach stored => exact reattach_good good stored
  | probed runId answer =>
    simp only [step]
    split
    · exact probed_good good runId answer
    · exact ⟨good, (Keeps.refl w).grows⟩
  | answered token status => exact streamed token nofun
  | frame token name data =>
    refine streamed token ?_
    intro other _ _ same
    cases same
    rfl
  | done token => exact streamed token nofun
  | failed token => exact streamed token nofun
  | wake token => exact streamed token nofun
  | cancel runId => exact ⟨(cancel_keeps runId calm).good good, (cancel_keeps runId calm).grows⟩
  | cancelled request answer =>
    have kept := cancelAnswered_keeps request answer calm
    exact ⟨kept.good good, kept.grows⟩
  | interrupt runId message =>
    simp only [step, markRunInterrupted]
    split
    · exact stop_good good _ fun _ => rfl
    · exact ⟨good, (Keeps.refl w).grows⟩
  | dismiss runId => exact removeRun_good good runId

theorem empty_good : World.empty.Good := by
  refine ⟨⟨?_, ?_⟩, ?_⟩
  · intro runId token registered
    cases registered
  · intro token stream found
    cases found
  · intro runId live
    cases live

/-- In a run of calm steps a terminal status stays one, and every live run is attended. -/
theorem finished_stay (client : Client) (events : List Event)
    (calm : EveryTurn (step client) Calm World.empty events) :
    EveryTurn (step client) (fun w event => Settled w (step client w event)) World.empty events := by
  apply everyTurn_of_invariant World.Good _ _ calm empty_good
  · exact fun w event calm good => (step_good client good calm).1
  · intro w event calm good
    obtain ⟨goodNext, grows⟩ := step_good client good calm
    refine ⟨?_, ?_⟩
    · intro runId run found ends
      apply Bool.eq_false_iff.mpr
      intro live
      rcases grows runId live with before | absent
      · obtain ⟨run', found', goes⟩ := isLive_iff.mp before
        rw [found] at found'
        cases found'
        rw [ends] at goes
        cases goes
      · rw [found] at absent
        cases absent
    · intro runId live
      rcases goodNext.attended runId live with ⟨token, registered⟩ | probes
      · obtain ⟨stream, there, rest⟩ := goodNext.registered runId token registered
        exact .inl ⟨token, stream, registered, there, rest⟩
      · exact .inr (.inl probes)

section Runs

def plain : Client :=
  { parse := fun _ => none, stringify := fun _ => "", classify := fun text => ("invalid_sql", text)
    str := fun value => (Json.text? (some value)).getD "", num := fun value => (numberOf (some value)).getD 0
    toLocaleString := fun _ => "0", isCacheRunResult := fun _ => true, isCacheCompareSample := fun _ => true
    isCacheCompareRunResult := fun _ => true }

def setUp : Event := .attach "r" .bootstrap "orders" "Starting..." {}

def ends (token : Nat) : Event := .frame token "run_end" (.object [("status", .string "done"), ("seq", .number 1)])

theorem finished_stay_cancelled : EveryTurn (step plain)
    (fun w event => Settled w (step plain w event)) World.empty
      [setUp, .answered 0 200, .cancel "r", .cancelled 0 .accepted, ends 0, .done 0] :=
  finished_stay plain _ (by decide +kernel)

/-- The run is `done`, and is live after the step. -/
theorem unsettled {event : Event} (before : (w.runs.lookup "r").map BackgroundRun.status = some .done)
    (after : (step plain w event).isLive "r" = true) : ¬ Settled w (step plain w event) := by
  intro settled
  obtain ⟨run, found, done⟩ := Option.map_eq_some_iff.mp before
  have quiet := settled.finished "r" run found (by rw [done]; rfl)
  rw [after] at quiet
  cases quiet

theorem finished_run_lives :
    (¬ EveryTurn (step plain) (fun w event => Settled w (step plain w event)) World.empty
      [setUp, .answered 0 200, ends 0, .cancel "r"]) ∧
    (¬ EveryTurn (step plain) (fun w event => Settled w (step plain w event)) World.empty
      [setUp, .answered 0 200, .cancel "r", ends 0, .done 0, .cancelled 0 (.refused "Run is finished")]) ∧
    ¬ EveryTurn (step plain) (fun w event => Settled w (step plain w event)) World.empty
      [setUp, .answered 0 200, ends 0, .frame 0 "needs_key" (.object [("seq", .number 2)])] := by
  refine ⟨?_, ?_, ?_⟩
  · intro every
    exact unsettled (by decide +kernel) (by decide +kernel) every.2.2.2.1
  · intro every
    exact unsettled (by decide +kernel) (by decide +kernel) every.2.2.2.2.2.1
  · intro every
    exact unsettled (by decide +kernel) (by decide +kernel) every.2.2.2.1

end Runs

end Rdst.Web.BackgroundRuns
