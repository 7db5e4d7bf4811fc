import Rdst.Web.RunRegistry

namespace Rdst.Web.RunRegistry

open Assoc Machine BackgroundRuns

variable {w w' : World} {handle handle' : Handle} {runId : String} {event : Event}

/-- The name that a client reads in the line of an event, which is written without line breaks. -/
def sentName (name : String) : String :=
  trimmed (String.ofList (name.toList.filter fun c => c ≠ '\n' ∧ c ≠ '\r'))

/-- What a client would read as the end of its run. -/
def endsRun (name : String) : Bool := sentName name = runEndEvent

/-- No generator yields an event of the registry's own name, and no subscriber asks for records from the end. -/
def Calm : Event → Prop
  | .turn _ (.yields name _) => endsRun name = false
  | .subscribe _ afterSeq => 0 ≤ afterSeq
  | _ => True

instance (event : Event) : Decidable (Calm event) :=
  match event with
  | .turn _ (.yields name _) => inferInstanceAs (Decidable (endsRun name = false))
  | .subscribe _ afterSeq => inferInstanceAs (Decidable (0 ≤ afterSeq))
  | .turn _ .exhausted => .isTrue trivial
  | .turn _ (.raises _) => .isTrue trivial
  | .turn _ .cancelled => .isTrue trivial
  | .start .. => .isTrue trivial
  | .begin .. => .isTrue trivial
  | .close .. => .isTrue trivial
  | .terminalize .. => .isTrue trivial
  | .cancel .. => .isTrue trivial
  | .cancelTarget .. => .isTrue trivial
  | .reset => .isTrue trivial
  | .pull .. => .isTrue trivial
  | .leave .. => .isTrue trivial

/-- The records of a run that has ended: one terminal record, and it is the last. -/
def Handle.Closed (handle : Handle) : Prop :=
  ∃ front, handle.events = front ++ [⟨front.length + 1, runEndEvent, statusData handle.status⟩] ∧
    ∀ record ∈ front, endsRun record.event = false

structure Handle.Good (handle : Handle) : Prop where
  seqs : ∀ i record, handle.events[i]? = some record → record.seq = i + 1
  ended : handle.status.isTerminal = true ↔ handle.task = .finished
  closed : handle.task = .finished → handle.Closed
  open_ : handle.task ≠ .finished → ∀ record ∈ handle.events, endsRun record.event = false
  ending : ∀ status, handle.task = .driving status ∨ handle.task = .closing status → status.isTerminal = true
  settled : handle.status.isTerminal = true → handle.waiters = []

/-- A handle later: it has more records, and none once it has ended. -/
structure Follows (handle handle' : Handle) : Prop where
  more : handle.events <+: handle'.events
  frozen : handle.status.isTerminal = true → handle'.events = handle.events ∧ handle'.status = handle.status
  kind : handle'.kind = handle.kind

theorem Follows.refl (handle : Handle) : Follows handle handle :=
  ⟨List.prefix_refl _, fun _ => ⟨rfl, rfl⟩, rfl⟩

theorem append_seqs (seqs : ∀ i record, handle.events[i]? = some record → record.seq = i + 1) (name : String)
    (data : Data) : ∀ i record, (handle.append name data).events[i]? = some record → record.seq = i + 1 := by
  intro i record found
  simp only [Handle.append, List.getElem?_append] at found
  split at found
  · exact seqs i record found
  · rename_i above
    have last : i - handle.events.length = 0 := by
      by_contra later
      have outside : [(⟨handle.events.length + 1, name, data⟩ : Record)][i - handle.events.length]? = none := by
        rw [List.getElem?_eq_none_iff]
        simp only [List.length_singleton]
        omega
      rw [outside] at found
      cases found
    rw [last] at found
    cases found
    show handle.events.length + 1 = i + 1
    omega

/-- The end of a run that has not ended. -/
theorem finish_good (good : handle.Good) (running : handle.task ≠ .finished) {status : RunStatus}
    (terminal : status.isTerminal = true) : (handle.finish status).Good ∧ Follows handle (handle.finish status) := by
  refine ⟨⟨?_, ⟨fun _ => rfl, fun _ => terminal⟩, fun _ => ⟨handle.events, rfl, good.open_ running⟩,
    fun going => absurd rfl going, ?_, fun _ => rfl⟩, ?_⟩
  · exact append_seqs good.seqs runEndEvent (statusData status)
  · rintro other (driving | closing)
    · cases driving
    · cases closing
  · refine ⟨List.prefix_append _ _, fun ends => ?_, rfl⟩
    exact absurd (good.ended.mp ends) running

theorem nextStatus_terminal (childErrorEvents : List String) (events : List Record) {status : RunStatus}
    (name : String) (data : Data) (terminal : status.isTerminal = true) :
    (nextStatus childErrorEvents events status name data).isTerminal = true := by
  unfold nextStatus
  split
  · split
    · rfl
    · exact terminal
  · split
    · simp only
      split <;> rfl
    · exact terminal

/-- A turn of a driver that leaves its run open. -/
theorem open_good (good : handle.Good) (running : handle.task ≠ .finished)
    (seqs : ∀ i record, handle'.events[i]? = some record → record.seq = i + 1)
    (still : handle'.task ≠ .finished) (live : handle'.status.isTerminal = false)
    (names : ∀ record ∈ handle'.events, endsRun record.event = false)
    (ending : ∀ status, handle'.task = .driving status ∨ handle'.task = .closing status → status.isTerminal = true)
    (more : handle.events <+: handle'.events) (kind : handle'.kind = handle.kind) :
    handle'.Good ∧ Follows handle handle' := by
  have never : ¬ handle'.status.isTerminal = true := Bool.eq_false_iff.mp live
  refine ⟨⟨seqs, ⟨fun ends => absurd ends never, fun ends => absurd ends still⟩, fun ends => absurd ends still,
    fun _ => names, ending, fun ends => absurd ends never⟩, more, ?_, kind⟩
  · intro ends
    exact absurd (good.ended.mp ends) running

theorem Handle.Good.live (good : handle.Good) (running : handle.task ≠ .finished) :
    handle.status.isTerminal = false := by
  cases ends : handle.status.isTerminal with
  | false => rfl
  | true => exact absurd (good.ended.mp ends) running

theorem names_append (good : handle.Good) (running : handle.task ≠ .finished) {name : String}
    (other : endsRun name = false) (data : Data) :
    ∀ record ∈ (handle.append name data).events, endsRun record.event = false := by
  intro record member
  rcases List.mem_append.mp member with before | now
  · exact good.open_ running record before
  · rw [List.mem_singleton.mp now]
    exact other

/-- Only the task changes, of a run that stays open. -/
theorem retask_good (good : handle.Good) (running : handle.task ≠ .finished) {task : Task} (still : task ≠ .finished)
    (ending : ∀ status, task = .driving status ∨ task = .closing status → status.isTerminal = true) :
    ({ handle with task := task } : Handle).Good ∧ Follows handle { handle with task := task } :=
  open_good good running good.seqs still (good.live running) (good.open_ running) ending (List.prefix_refl _) rfl

theorem turn_good (good : handle.Good) (turn : Turn) (calm : Calm (.turn runId turn)) :
    (handle.turn turn).Good ∧ Follows handle (handle.turn turn) := by
  unfold Handle.turn
  split
  · rename_i status driving
    have running : handle.task ≠ .finished := by
      rw [driving]
      exact nofun
    have terminal := good.ending status (.inl driving)
    cases turn with
    | yields name data =>
      refine open_good good running (append_seqs good.seqs name data) nofun ?_ (names_append good running calm data) ?_
        (List.prefix_append _ _) rfl
      · simp only [Handle.yielded]
        split <;> rfl
      · rintro next (driven | closing)
        · cases driven
          exact nextStatus_terminal _ _ _ _ terminal
        · cases closing
    | exhausted =>
      apply retask_good good running (show Task.closing status ≠ .finished from nofun)
      rintro next (driven | closing)
      · cases driven
      · cases closing
        exact terminal
    | raises message =>
      have error : endsRun "error" = false := by decide
      refine open_good good running (append_seqs good.seqs _ _) nofun (good.live running)
        (names_append good running error _) ?_ (List.prefix_append _ _) rfl
      rintro next (driven | closing)
      · cases driven
      · cases closing
        rfl
    | cancelled =>
      apply retask_good good running (show Task.closing .cancelled ≠ .finished from nofun)
      rintro next (driven | closing)
      · cases driven
      · cases closing
        rfl
  · exact ⟨good, Follows.refl handle⟩

theorem close_good (good : handle.Good) : handle.close.Good ∧ Follows handle handle.close := by
  unfold Handle.close
  split
  · rename_i status closing
    apply finish_good good
    · rw [closing]
      exact nofun
    · exact good.ending status (.inr closing)
  · exact ⟨good, Follows.refl handle⟩

theorem terminalize_good (good : handle.Good) : handle.terminalize.Good ∧ Follows handle handle.terminalize := by
  unfold Handle.terminalize
  split
  · rename_i early
    split
    · exact ⟨good, Follows.refl handle⟩
    · apply finish_good good _ rfl
      rw [early]
      exact nofun
  · exact ⟨good, Follows.refl handle⟩

theorem Handle.Good.unstarted (good : handle.Good) {cancelled : Bool} (waits : handle.task = .unstarted cancelled)
    {task : Task} (next : task = .cancelledEarly ∨ task = .driving .done ∨ task = .unstarted true) :
    ({ handle with task := task } : Handle).Good ∧ Follows handle { handle with task := task } := by
  have running : handle.task ≠ .finished := by
    rw [waits]
    exact nofun
  apply retask_good good running
  · rcases next with rfl | rfl | rfl <;> exact nofun
  · rintro status (driven | closing)
    · rcases next with rfl | rfl | rfl <;> cases driven
      rfl
    · rcases next with rfl | rfl | rfl <;> cases closing

theorem begin_good (good : handle.Good) : handle.begin.Good ∧ Follows handle handle.begin := by
  unfold Handle.begin
  split
  · rename_i waits
    exact good.unstarted waits (.inl rfl)
  · rename_i waits
    exact good.unstarted waits (.inr (.inl rfl))
  · exact ⟨good, Follows.refl handle⟩

theorem cancel_good (good : handle.Good) : handle.cancel.Good ∧ Follows handle handle.cancel := by
  unfold Handle.cancel
  split
  · rename_i waits
    exact good.unstarted waits (.inr (.inr rfl))
  · exact ⟨good, Follows.refl handle⟩

/-- What a subscriber was sent: the records after its `after_seq`, in order, and all of them once it has returned. -/
structure Fair (handle : Handle) (subscriber : Subscriber) (after : Nat) : Prop where
  afterSeq : subscriber.afterSeq = after
  index : subscriber.index = after + subscriber.sent.length
  sent : subscriber.sent <+: handle.events.drop after
  returned : subscriber.reading = .returned →
    handle.status.isTerminal = true ∧ subscriber.sent = handle.events.drop after

structure World.Good (w : World) : Prop where
  handles : ∀ runId handle, w.handles.lookup runId = some handle → handle.Good
  known : ∀ runId ∈ w.runs, ∃ handle, w.handles.lookup runId = some handle
  fair : ∀ id subscriber, w.subscribers.lookup id = some subscriber →
    ∃ handle after, w.handles.lookup subscriber.runId = some handle ∧ Fair handle subscriber after
  bounded : ∀ id subscriber, w.subscribers.lookup id = some subscriber → id < w.subscribed

/-- The handles go on. -/
def Goes (w w' : World) : Prop := ∀ runId handle, w.handles.lookup runId = some handle →
  ∃ handle', w'.handles.lookup runId = some handle' ∧ Follows handle handle'

theorem drop_follows {events more : List Record} (grown : events <+: more) (after : Nat) :
    events.drop after <+: more.drop after := by
  obtain ⟨rest, rfl⟩ := grown
  rw [List.drop_append]
  exact List.prefix_append _ _

theorem Fair.follows {subscriber : Subscriber} {after : Nat} (fair : Fair handle subscriber after)
    (follows : Follows handle handle') : Fair handle' subscriber after := by
  refine ⟨fair.afterSeq, fair.index, fair.sent.trans (drop_follows follows.more after), ?_⟩
  intro returned
  obtain ⟨ends, all⟩ := fair.returned returned
  obtain ⟨events, status⟩ := follows.frozen ends
  exact ⟨by rw [status, ends], by rw [events, all]⟩

theorem Goes.refl (w : World) : Goes w w := fun _ handle found => ⟨handle, found, Follows.refl handle⟩

theorem Follows.trans {handle'' : Handle} (first : Follows handle handle') (second : Follows handle' handle'') :
    Follows handle handle'' := by
  refine ⟨first.more.trans second.more, ?_, second.kind.trans first.kind⟩
  intro ends
  obtain ⟨events, status⟩ := first.frozen ends
  obtain ⟨events', status'⟩ := second.frozen (by rw [status, ends])
  exact ⟨events'.trans events, status'.trans status⟩

/-- The subscribers of a world whose handles go on. -/
theorem World.Good.fair_goes (good : w.Good) (goes : Goes w w') {id : Nat} {subscriber : Subscriber}
    (found : w.subscribers.lookup id = some subscriber) :
    ∃ handle after, w'.handles.lookup subscriber.runId = some handle ∧ Fair handle subscriber after := by
  obtain ⟨handle, after, there, fair⟩ := good.fair id subscriber found
  obtain ⟨handle', there', follows⟩ := goes subscriber.runId handle there
  exact ⟨handle', after, there', fair.follows follows⟩

theorem onHandle_handles (w : World) (runId : String) (change : Handle → Handle) (other : String) :
    (w.onHandle runId change).handles.lookup other =
      if other = runId then (w.handles.lookup other).map change else w.handles.lookup other := by
  unfold World.onHandle
  cases found : w.handles.lookup runId with
  | none =>
    by_cases same : other = runId
    · subst same
      simp [found]
    · simp [same]
  | some handle =>
    rw [insert_lookup]
    by_cases same : other = runId
    · subst same
      simp [found]
    · simp [same]

theorem onHandle_frame (w : World) (runId : String) (change : Handle → Handle) :
    (w.onHandle runId change).subscribers = w.subscribers ∧ (w.onHandle runId change).subscribed = w.subscribed ∧
      (w.onHandle runId change).runs = w.runs := by
  unfold World.onHandle
  cases w.handles.lookup runId with
  | none => exact ⟨rfl, rfl, rfl⟩
  | some handle => exact ⟨rfl, rfl, rfl⟩

theorem World.Good.onHandle (good : w.Good) (runId : String) {change : Handle → Handle}
    (each : ∀ handle, w.handles.lookup runId = some handle → handle.Good →
      (change handle).Good ∧ Follows handle (change handle)) :
    (w.onHandle runId change).Good ∧ Goes w (w.onHandle runId change) := by
  obtain ⟨subscribers, subscribed, runs⟩ := onHandle_frame w runId change
  have goes : Goes w (w.onHandle runId change) := by
    intro other handle found
    rw [onHandle_handles]
    split
    · rename_i same
      rw [found]
      exact ⟨_, rfl, (each handle (same ▸ found) (good.handles other handle found)).2⟩
    · exact ⟨handle, found, Follows.refl handle⟩
  refine ⟨⟨?_, ?_, ?_, ?_⟩, goes⟩
  · intro other handle found
    rw [onHandle_handles] at found
    split at found
    · rename_i same
      obtain ⟨before, there, rfl⟩ := Option.map_eq_some_iff.mp found
      exact (each before (same ▸ there) (good.handles other before there)).1
    · exact good.handles other handle found
  · rw [runs]
    intro other member
    obtain ⟨handle, found⟩ := good.known other member
    obtain ⟨handle', found', -⟩ := goes other handle found
    exact ⟨handle', found'⟩
  · rw [subscribers]
    exact fun id subscriber found => good.fair_goes goes found
  · rw [subscribers, subscribed]
    exact good.bounded

/-- Fewer runs are known. -/
theorem World.Good.fewer (good : w.Good) {runs : List String} (fewer : ∀ runId ∈ runs, runId ∈ w.runs) :
    ({ w with runs := runs } : World).Good :=
  ⟨good.handles, fun runId member => good.known runId (fewer runId member), good.fair, good.bounded⟩

theorem World.Good.ending (good : w.Good) (runId : String) {change : Handle → Handle}
    (each : ∀ handle, handle.Good → (change handle).Good ∧ Follows handle (change handle)) :
    (w.ending runId change).Good ∧ Goes w (w.ending runId change) := by
  obtain ⟨goodNext, goes⟩ := good.onHandle runId fun handle _ => each handle
  unfold World.ending
  simp only
  split
  · exact ⟨goodNext.fewer fun other member => (List.mem_filter.mp member).1, goes⟩
  · exact ⟨goodNext, goes⟩

theorem World.Good.cancelAll (good : w.Good) (test : Handle → Bool) :
    (w.cancelAll test).Good ∧ Goes w (w.cancelAll test) := by
  unfold World.cancelAll
  generalize w.runs = runs
  induction runs generalizing w with
  | nil => exact ⟨good, Goes.refl w⟩
  | cons runId rest ih =>
    have each : ∀ handle, handle.Good →
        (if (!handle.status.isTerminal && test handle) = true then handle.cancel else handle).Good ∧
          Follows handle (if (!handle.status.isTerminal && test handle) = true then handle.cancel else handle) := by
      intro handle goodHandle
      split
      · exact cancel_good goodHandle
      · exact ⟨goodHandle, Follows.refl handle⟩
    obtain ⟨goodNext, goes⟩ := good.onHandle runId fun handle _ => each handle
    obtain ⟨goodLast, goes'⟩ := ih goodNext
    refine ⟨goodLast, ?_⟩
    intro other handle found
    obtain ⟨handle', found', follows⟩ := goes other handle found
    obtain ⟨handle'', found'', follows'⟩ := goes' other handle' found'
    exact ⟨handle'', found'', follows.trans follows'⟩

theorem fresh_good (kind : BackgroundRunKind) (target : String) (known : RunMetadata) (childErrorEvents : List String) :
    ({ kind := kind, target := target, known := known, childErrorEvents := childErrorEvents } : Handle).Good := by
  refine ⟨?_, ?_, nofun, fun _ => nofun, ?_, fun _ => rfl⟩
  · intro i record found
    cases found
  · constructor <;> exact nofun
  · rintro status (driving | closing)
    · cases driving
    · cases closing

theorem World.Good.start (good : w.Good) (runId : String) (goodHandle : handle.Good) :
    (w.start runId handle).Good ∧ Goes w (w.start runId handle) := by
  unfold World.start
  split
  · exact ⟨good, Goes.refl w⟩
  · rename_i absent
    have goes : Goes w { w with runs := w.runs ++ [runId], handles := w.handles.insert runId handle } := by
      intro other handle found
      refine ⟨handle, ?_, Follows.refl handle⟩
      rw [insert_lookup, if_neg, found]
      rintro rfl
      rw [absent] at found
      cases found
    refine ⟨⟨?_, ?_, fun id subscriber found => good.fair_goes goes found, good.bounded⟩, goes⟩
    · intro other handle found
      rw [insert_lookup] at found
      split at found
      · cases found
        exact goodHandle
      · exact good.handles other handle found
    · intro other member
      simp only [insert_lookup]
      rcases List.mem_append.mp member with before | now
      · split
        · exact ⟨_, rfl⟩
        · exact good.known other before
      · rw [List.mem_singleton.mp now, if_pos rfl]
        exact ⟨_, rfl⟩

theorem World.Good.cancel (good : w.Good) (runId : String) :
    (w.cancel runId).Good ∧ Goes w (w.cancel runId) := by
  unfold World.cancel
  split
  · apply good.onHandle
    intro handle _ goodHandle
    split
    · exact ⟨goodHandle, Follows.refl handle⟩
    · exact cancel_good goodHandle
  · exact ⟨good, Goes.refl w⟩

/-- A subscriber is put in the place of one, or is new. -/
theorem World.Good.put (good : w.Good) {id : Nat} {subscriber : Subscriber} {after : Nat}
    (found : w.handles.lookup subscriber.runId = some handle) (fair : Fair handle subscriber after)
    (old : id < w.subscribed) : ({ w with subscribers := w.subscribers.insert id subscriber } : World).Good := by
  refine ⟨good.handles, good.known, ?_, ?_⟩
  · intro other there member
    rw [insert_lookup] at member
    split at member
    · cases member
      exact ⟨handle, after, found, fair⟩
    · exact good.fair other there member
  · intro other there member
    rw [insert_lookup] at member
    split at member
    · rename_i same
      rw [same]
      exact old
    · exact good.bounded other there member

theorem World.Good.subscribe (good : w.Good) (runId : String) {afterSeq : Int} (calm : 0 ≤ afterSeq) :
    (w.subscribe runId afterSeq).Good ∧ Goes w (w.subscribe runId afterSeq) := by
  unfold World.subscribe
  split
  · rename_i member
    refine ⟨?_, fun other handle found => ⟨handle, found, Follows.refl handle⟩⟩
    obtain ⟨handle, found⟩ := good.known runId member
    have wider : ({ w with subscribed := w.subscribed + 1 } : World).Good :=
      ⟨good.handles, good.known, good.fair, fun id subscriber found => Nat.lt_succ_of_lt (good.bounded id subscriber found)⟩
    have fair : Fair handle ⟨runId, afterSeq, afterSeq, [], .opening⟩ afterSeq.toNat := by
      refine ⟨(Int.toNat_of_nonneg calm).symm, ?_, List.nil_prefix, nofun⟩
      simp [Int.toNat_of_nonneg calm]
    exact wider.put found fair (Nat.lt_succ_self _)
  · exact ⟨good, Goes.refl w⟩

theorem waits_good (good : handle.Good) (live : handle.status.isTerminal = false) (id : Nat) :
    ({ handle with waiters := handle.waiters ++ [id] } : Handle).Good ∧
      Follows handle { handle with waiters := handle.waiters ++ [id] } := by
  refine ⟨⟨good.seqs, good.ended, good.closed, good.open_, good.ending, ?_⟩,
    List.prefix_refl _, fun _ => ⟨rfl, rfl⟩, rfl⟩
  intro ends
  rw [live] at ends
  cases ends

theorem getItem_nat (events : List Record) (i : Nat) : getItem events i = events[i]? := by
  unfold getItem
  rw [if_pos (Int.natCast_nonneg i), Int.toNat_natCast]

/-- The next record is sent. -/
theorem Fair.next {subscriber : Subscriber} {after : Nat} {record : Record} (fair : Fair handle subscriber after)
    (found : handle.events[after + subscriber.sent.length]? = some record) (replays : subscriber.reading = .replaying) :
    Fair handle { subscriber with index := subscriber.index + 1, sent := subscriber.sent ++ [record] } after := by
  refine ⟨fair.afterSeq, ?_, ?_, ?_⟩
  · have index := fair.index
    simp only [List.length_append, List.length_singleton]
    omega
  · obtain ⟨rest, all⟩ := fair.sent
    have here : (handle.events.drop after)[subscriber.sent.length]? = some record := by
      rw [List.getElem?_drop]
      exact found
    rw [← all, List.getElem?_append_right (Nat.le_refl _), Nat.sub_self] at here
    cases rest with
    | nil => cases here
    | cons first more =>
      cases here
      exact ⟨more, by rw [← all, List.append_assoc]; rfl⟩
  · intro returned
    rw [replays] at returned
    cases returned

theorem World.Good.pull (good : w.Good) {id : Nat} {subscriber : Subscriber}
    (there : w.subscribers.lookup id = some subscriber) :
    (w.pull id subscriber).Good ∧ Goes w (w.pull id subscriber) := by
  obtain ⟨handle, after, found, fair⟩ := good.fair id subscriber there
  have old := good.bounded id subscriber there
  have moved : ∀ next : Subscriber, next.runId = subscriber.runId → Fair handle next after →
      ({ w with subscribers := w.subscribers.insert id next } : World).Good ∧
        Goes w { w with subscribers := w.subscribers.insert id next } := by
    intro next same fairNext
    exact ⟨good.put (by rw [same, found]) fairNext old, fun other handle found => ⟨handle, found, Follows.refl handle⟩⟩
  have reads : ∀ reading, reading ≠ .returned → Fair handle { subscriber with reading := reading } after := by
    intro reading other
    exact ⟨fair.afterSeq, fair.index, fair.sent, fun returned => absurd returned other⟩
  unfold World.pull
  rw [found]
  simp only
  split
  · refine moved _ rfl (reads _ ?_)
    split <;> exact nofun
  · rename_i replays
    split
    · have item : getItem handle.events subscriber.index = handle.events[after + subscriber.sent.length]? := by
        rw [fair.index, ← Nat.cast_add, getItem_nat]
      rw [item]
      split
      · exact moved _ rfl (reads .broken nofun)
      · rename_i record here
        exact moved _ rfl (fair.next here replays)
    · rename_i above
      have all : subscriber.sent = handle.events.drop after := by
        have index := fair.index
        apply fair.sent.eq_of_length
        have short := fair.sent.length_le
        rw [List.length_drop] at short ⊢
        omega
      split
      · rename_i ends
        exact moved _ rfl ⟨fair.afterSeq, fair.index, fair.sent, fun _ => ⟨ends, all⟩⟩
      · rename_i live
        have each : ∀ other, w.handles.lookup subscriber.runId = some other → other.Good →
            ({ other with waiters := other.waiters ++ [id] } : Handle).Good ∧
              Follows other { other with waiters := other.waiters ++ [id] } := by
          intro other member goodOther
          rw [found] at member
          cases member
          exact waits_good goodOther (Bool.eq_false_iff.mpr live) id
        obtain ⟨goodNext, goes⟩ := good.onHandle subscriber.runId each
        obtain ⟨handle', found', follows⟩ := goes subscriber.runId handle found
        obtain ⟨subscribers, subscribed, -⟩ := onHandle_frame w subscriber.runId fun handle =>
          { handle with waiters := handle.waiters ++ [id] }
        exact ⟨goodNext.put found' ((reads .waiting nofun).follows follows) (by rw [subscribed]; exact old), goes⟩
  · split
    · exact ⟨good, Goes.refl w⟩
    · exact moved _ rfl (reads .replaying nofun)
  · exact ⟨good, Goes.refl w⟩

theorem World.Good.leave (good : w.Good) {id : Nat} {subscriber : Subscriber}
    (there : w.subscribers.lookup id = some subscriber) :
    ({ w with subscribers := w.subscribers.insert id { subscriber with reading := .broken } } : World).Good := by
  obtain ⟨handle, after, found, fair⟩ := good.fair id subscriber there
  exact good.put found ⟨fair.afterSeq, fair.index, fair.sent, nofun⟩ (good.bounded id subscriber there)

theorem step_good (good : w.Good) (calm : Calm event) : (step w event).Good ∧ Goes w (step w event) := by
  cases event with
  | start runId kind target known childErrorEvents => exact good.start runId (fresh_good kind target known childErrorEvents)
  | begin runId => exact good.onHandle runId fun _ _ => begin_good
  | turn runId turn => exact good.onHandle runId fun _ _ goodHandle => turn_good goodHandle turn calm
  | close runId => exact good.ending runId fun _ => close_good
  | terminalize runId => exact good.ending runId fun _ => terminalize_good
  | cancel runId => exact good.cancel runId
  | cancelTarget target => exact good.cancelAll _
  | reset =>
    obtain ⟨goodNext, goes⟩ := good.cancelAll fun _ => true
    exact ⟨goodNext.fewer fun _ member => absurd member List.not_mem_nil, goes⟩
  | subscribe runId afterSeq => exact good.subscribe runId calm
  | pull id =>
    simp only [step]
    split
    · exact ⟨good, Goes.refl w⟩
    · rename_i subscriber there
      exact good.pull there
  | leave id =>
    simp only [step]
    split
    · exact ⟨good, Goes.refl w⟩
    · rename_i subscriber there
      exact ⟨good.leave there, fun other handle found => ⟨handle, found, Follows.refl handle⟩⟩

/-- The subscribers stay, with their runs and their numbers. -/
def Stays (w w' : World) : Prop := ∀ id subscriber, w.subscribers.lookup id = some subscriber →
  ∃ subscriber', w'.subscribers.lookup id = some subscriber' ∧ subscriber'.runId = subscriber.runId ∧
    subscriber'.afterSeq = subscriber.afterSeq

theorem Stays.of_same (same : w'.subscribers = w.subscribers) : Stays w w' := by
  intro id subscriber found
  exact ⟨subscriber, by rw [same, found], rfl, rfl⟩

theorem put_stays {id : Nat} {subscriber next : Subscriber} (there : w.subscribers.lookup id = some subscriber)
    (subscribers : w'.subscribers = w.subscribers.insert id next) (run : next.runId = subscriber.runId)
    (after : next.afterSeq = subscriber.afterSeq) : Stays w w' := by
  intro other member found
  rw [subscribers, insert_lookup]
  split
  · rename_i same
    rw [same, there] at found
    cases found
    exact ⟨next, rfl, run, after⟩
  · exact ⟨member, found, rfl, rfl⟩

theorem subscribe_stays (good : w.Good) (runId : String) (afterSeq : Int) : Stays w (w.subscribe runId afterSeq) := by
  unfold World.subscribe
  split
  · intro other member found
    have old := good.bounded other member found
    refine ⟨member, ?_, rfl, rfl⟩
    rw [insert_lookup, if_neg (by omega), found]
  · exact Stays.of_same rfl

theorem pull_stays {id : Nat} {subscriber : Subscriber} (there : w.subscribers.lookup id = some subscriber) :
    Stays w (w.pull id subscriber) := by
  unfold World.pull
  split
  · exact Stays.of_same rfl
  · split
    · exact put_stays there rfl rfl rfl
    · split
      · split
        · exact put_stays there rfl rfl rfl
        · exact put_stays there rfl rfl rfl
      · split
        · exact put_stays there rfl rfl rfl
        · exact put_stays there (congrArg (AList.insert id _) (onHandle_frame w subscriber.runId _).1) rfl rfl
    · split
      · exact Stays.of_same rfl
      · exact put_stays there rfl rfl rfl
    · exact Stays.of_same rfl

theorem cancelAll_subscribers (w : World) (test : Handle → Bool) : (w.cancelAll test).subscribers = w.subscribers := by
  unfold World.cancelAll
  generalize w.runs = runs
  induction runs generalizing w with
  | nil => rfl
  | cons runId rest ih =>
    rw [List.foldl_cons, ih]
    exact (onHandle_frame w runId _).1

theorem ending_subscribers (w : World) (runId : String) (change : Handle → Handle) :
    (w.ending runId change).subscribers = w.subscribers := by
  unfold World.ending
  simp only
  split
  · exact (onHandle_frame w runId change).1
  · exact (onHandle_frame w runId change).1

theorem step_stays (good : w.Good) (event : Event) : Stays w (step w event) := by
  cases event with
  | start runId =>
    apply Stays.of_same
    simp only [step, World.start]
    split <;> rfl
  | begin runId => exact Stays.of_same (onHandle_frame w runId _).1
  | turn runId turn => exact Stays.of_same (onHandle_frame w runId _).1
  | close runId => exact Stays.of_same (ending_subscribers w runId _)
  | terminalize runId => exact Stays.of_same (ending_subscribers w runId _)
  | cancel runId =>
    apply Stays.of_same
    simp only [step, World.cancel]
    split
    · exact (onHandle_frame w runId _).1
    · rfl
  | cancelTarget target => exact Stays.of_same (cancelAll_subscribers w _)
  | reset => exact Stays.of_same (cancelAll_subscribers w _)
  | subscribe runId afterSeq => exact subscribe_stays good runId afterSeq
  | pull id =>
    simp only [step]
    split
    · exact Stays.of_same rfl
    · rename_i subscriber there
      exact pull_stays there
  | leave id =>
    simp only [step]
    split
    · exact Stays.of_same rfl
    · rename_i subscriber there
      exact put_stays there rfl rfl rfl

theorem empty_good (maxFinished : Nat) : (World.empty maxFinished).Good := by
  refine ⟨?_, nofun, ?_, ?_⟩
  · intro runId handle found
    cases found
  · intro id subscriber found
    cases found
  · intro id subscriber found
    cases found

end Rdst.Web.RunRegistry
