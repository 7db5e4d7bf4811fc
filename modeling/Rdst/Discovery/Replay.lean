import Rdst.Observation.EventLog

namespace Rdst.Discovery

open Rdst.Observation

set_option linter.unusedSectionVars false

variable {Target : Type} [DecidableEq Target]

def resyncGapThreshold : Nat := 5000

/-- The page size of `events_since`. -/
def pageLimit : Nat := 1000

/-- What a subscription yields. Every item carries the id that the client sends back; `covered` says how
    many publications the cursor stood for when the item was made. -/
inductive Item
  | event (id payload : Nat)
  | snapshot (id covered : Nat)
  | resync (id covered : Nat)
  | bookmark (id covered : Nat)
deriving DecidableEq

def Item.id : Item → Nat
  | .event id _ | .snapshot id _ | .resync id _ | .bookmark id _ => id

def Item.isReset : Item → Bool
  | .snapshot .. | .resync .. => true
  | .event .. | .bookmark .. => false

def Item.payload : Item → Option Nat
  | .event _ payload => some payload
  | .snapshot .. | .resync .. | .bookmark .. => none

/-- How many publications the client has seen when this item reaches it. -/
def Item.covers (published : List Nat) : Item → Nat
  | .event _ payload => published.idxOf payload + 1
  | .snapshot _ covered | .resync _ covered | .bookmark _ covered => covered

/-- `delivered_cursor` after a replayed item: a resync sets it, anything else only raises it. -/
def Item.reached (delivered : Int) : Item → Int
  | .resync id _ => id
  | item => max delivered item.id

/-- The event log with what was ever written to it: all rows of the collector's target, pruned ones
    too, the publications of that target in the order in which they became visible, and those of the
    collector itself that are on their way from the file to the subscribers. -/
structure Journal (Target : Type) where
  log : EventLog Target
  history : List (EventRow Target)
  published : List Nat
  pending : List (Nat × Option Nat)
  next : Nat

/-- A commit to the file: of the collector's own publication, or of another process. -/
inductive StoreOp (Target : Type)
  | persist (createdAt : Int)
  | append (targetId : Target) (createdAt : Int)
  | prune (targetId : Target) (keep stale : Nat) (cutoff : Int) (chunk : Nat)

def Journal.append (target : Target) (journal : Journal Target) (targetId : Target) (createdAt : Int) :
    Journal Target :=
  let written := appendEvent journal.log targetId journal.next createdAt
  if targetId = target then
    { journal with
      log := written.1
      history := journal.history ++ [⟨written.2, targetId, journal.next, createdAt⟩]
      published := journal.published ++ [journal.next]
      next := journal.next + 1 }
  else { journal with log := written.1, next := journal.next + 1 }

def Journal.apply (target : Target) (journal : Journal Target) : StoreOp Target → Journal Target
  | .persist createdAt =>
    let written := journal.append target target createdAt
    { written with pending := journal.pending ++ [(journal.next, some written.log.lastSeq)] }
  | .append targetId createdAt => journal.append target targetId createdAt
  | .prune targetId keep stale cutoff chunk =>
    { journal with log := pruneEvents journal.log targetId keep stale cutoff chunk }

def Journal.applyAll (target : Target) (journal : Journal Target) (ops : List (StoreOp Target)) :
    Journal Target :=
  ops.foldl (Journal.apply target) journal

def rowItem (row : EventRow Target) : Item := .event row.seq row.payload

/-- The paging loop of `_replay_from_store`; `between` is what other writers commit before each
    read, since every read is a connection of its own. -/
def pagesFrom (target : Target) (latest : Nat) :
    Nat → List (List (StoreOp Target)) → Journal Target → Nat → Journal Target × List (EventRow Target)
  | 0, _, journal, _ => (journal, [])
  | fuel + 1, between, journal, position =>
    if position < latest then
      let journal := journal.applyAll target (between.headD [])
      let page := eventsSince journal.log target position pageLimit
      match page.getLast? with
      | none => (journal, [])
      | some last =>
        let rest := pagesFrom target latest fuel between.tail journal last.seq
        (rest.1, page ++ rest.2)
    else (journal, [])

def replayFromStore (target : Target) (resyncEvent : Item) (between : List (List (StoreOp Target)))
    (journal : Journal Target) (after : Nat) : Journal Target × List Item :=
  let latest := latestSeq journal.log target
  if after = latest then (journal, [])
  else if latest < after then (journal, [resyncEvent])
  else
    let journal := journal.applyAll target (between.headD [])
    if after < earliestSeq journal.log target - 1 then (journal, [resyncEvent])
    else if latest - after > resyncGapThreshold then (journal, [resyncEvent])
    else
      let pages := pagesFrom target latest (latest - after) between.tail journal after
      (pages.1, pages.2.map rowItem)

def replayFromMemory (cursor : Nat) (resyncEvent : Item) (events : List Item) (after : Nat) : List Item :=
  if after = cursor then []
  else match events with
    | [] => [resyncEvent]
    | first :: _ =>
      if after < cursor ∧ first.id ≤ after + 1 then events.filter fun event => after < event.id
      else [resyncEvent]

/-- The rows of a target above a cursor. -/
def above (after : Nat) (rows : List (EventRow Target)) : List (EventRow Target) :=
  rows.filter fun row => after < row.seq

/-- What the collector holds of a row until it hands it to the subscribers. -/
def inFlight (row : EventRow Target) : Nat × Option Nat := (row.payload, some row.seq)

/-- No row of the target is older than the clock of the next append. -/
def ClockAdvances (target : Target) (journal : Journal Target) (createdAt : Int) : Prop :=
  ∀ row ∈ eventsOf journal.log target, row.createdAt ≤ createdAt

/-- While a client reads, the collector alone appends to its target, by a clock that does not go back,
    and nothing prunes. -/
def Quiet (target : Target) : Journal Target → List (StoreOp Target) → Prop
  | _, [] => True
  | journal, .persist createdAt :: rest =>
    ClockAdvances target journal createdAt ∧ Quiet target (journal.apply target (.persist createdAt)) rest
  | journal, .append targetId createdAt :: rest =>
    targetId ≠ target ∧ Quiet target (journal.apply target (.append targetId createdAt)) rest
  | _, .prune .. :: _ => False

structure Journal.Sound (target : Target) (journal : Journal Target) : Prop where
  ordered : journal.log.Ordered
  clock : ClockOrdered journal.log target
  retained : ∃ gone, eventsOf journal.log target = journal.history.drop gone
  kept : journal.history ≠ [] → eventsOf journal.log target ≠ []
  grows : Increasing.By EventRow.seq journal.history
  bounded : ∀ row ∈ journal.history, row.seq ≤ journal.log.lastSeq
  visible : journal.published = journal.history.map EventRow.payload
  distinct : (journal.history.map EventRow.payload).Nodup
  fresh : ∀ row ∈ journal.history, row.payload < journal.next

/-- The longer journal has `more` new rows, of which the collector still holds `held`. -/
structure Journal.Extends (journal longer : Journal Target) (more held : List (EventRow Target)) :
    Prop where
  history : longer.history = journal.history ++ more
  pending : longer.pending = journal.pending ++ held.map inFlight
  newer : ∀ row ∈ more, journal.log.lastSeq < row.seq
  counter : journal.log.lastSeq ≤ longer.log.lastSeq

theorem Journal.Extends.refl (journal : Journal Target) : journal.Extends journal [] [] where
  history := by simp
  pending := by simp
  newer := by simp
  counter := Nat.le_refl _

theorem Journal.Extends.trans {first second third : Journal Target}
    {more more' held held' : List (EventRow Target)} (one : first.Extends second more held)
    (two : second.Extends third more' held') :
    first.Extends third (more ++ more') (held ++ held') where
  history := by rw [two.history, one.history, List.append_assoc]
  pending := by rw [two.pending, one.pending, List.map_append, List.append_assoc]
  newer := by
    intro row member
    have counter := one.counter
    rcases List.mem_append.mp member with early | late
    · exact one.newer row early
    · have := two.newer row late
      omega
  counter := Nat.le_trans one.counter two.counter

theorem above_append (after : Nat) (xs ys : List (EventRow Target)) :
    above after (xs ++ ys) = above after xs ++ above after ys := List.filter_append ..

theorem above_initial (after : Nat) {xs ys : List (EventRow Target)} (lead : xs <+: ys) :
    above after xs <+: above after ys := by
  obtain ⟨rest, rfl⟩ := lead
  exact ⟨above after rest, (above_append after xs rest).symm⟩

theorem above_above {after later : Nat} (order : after ≤ later) (rows : List (EventRow Target)) :
    above later (above after rows) = above later rows := by
  simp only [above, List.filter_filter]
  apply List.filter_congr
  intro row _
  rw [Bool.eq_iff_iff, Bool.and_eq_true, decide_eq_true_iff, decide_eq_true_iff]
  omega

theorem mem_above {after : Nat} {rows : List (EventRow Target)} {row : EventRow Target} :
    row ∈ above after rows ↔ row ∈ rows ∧ after < row.seq := by
  simp [above]

theorem Journal.Sound.append {target : Target} {journal : Journal Target} (sound : journal.Sound target)
    (targetId : Target) (createdAt : Int)
    (clock : targetId = target → ClockAdvances target journal createdAt) :
    (journal.append target targetId createdAt).Sound target := by
  have ordered := appendEvent_ordered sound.ordered targetId journal.next createdAt
  have events := appendEvent_events journal.log target targetId journal.next createdAt
  obtain ⟨gone, retained⟩ := sound.retained
  unfold Journal.append
  by_cases same : targetId = target
  · subst same
    simp only [if_true] at events ⊢
    have newest : ∀ row ∈ journal.history, row.seq < journal.log.lastSeq + 1 :=
      fun row member => Nat.lt_succ_of_le (sound.bounded row member)
    refine ⟨ordered, ?_, ?_, ?_, ?_, ?_, ?_, ?_, ?_⟩
    · show List.Pairwise _ (eventsOf _ _)
      rw [events, List.pairwise_append]
      refine ⟨sound.clock, by simp, ?_⟩
      intro row member last here
      rw [List.mem_singleton.mp here]
      exact clock rfl row member
    · -- The suffix that is left starts inside the old history even when all of it is gone.
      refine ⟨min gone journal.history.length, ?_⟩
      show eventsOf _ _ = _
      rw [events, retained, List.drop_append_of_le_length (Nat.min_le_right ..)]
      congr 1
      rcases Nat.le_total gone journal.history.length with le | le
      · rw [Nat.min_eq_left le]
      · rw [Nat.min_eq_right le, List.drop_of_length_le le, List.drop_length]
    · intro _
      show eventsOf _ _ ≠ []
      rw [events]
      simp
    · show Increasing.By _ (journal.history ++ _)
      rw [Increasing.by_append]
      refine ⟨sound.grows, by simp, ?_⟩
      intro row member last here
      rw [List.mem_singleton.mp here]
      exact newest row member
    · intro row member
      rcases List.mem_append.mp member with old | here
      · exact Nat.le_of_lt (newest row old)
      · rw [List.mem_singleton.mp here]
        exact Nat.le_refl _
    · simp [sound.visible]
    · rw [List.map_append, List.nodup_append]
      refine ⟨sound.distinct, by simp, ?_⟩
      intro payload member other here equal
      obtain ⟨row, present, rfl⟩ := List.mem_map.mp member
      have bound := sound.fresh row present
      simp only [List.map_cons, List.map_nil, List.mem_singleton] at here
      omega
    · intro row member
      rcases List.mem_append.mp member with old | here
      · exact Nat.lt_succ_of_lt (sound.fresh row old)
      · rw [List.mem_singleton.mp here]
        exact Nat.lt_succ_self _
  · simp only [same, if_false, List.append_nil] at events ⊢
    refine ⟨ordered, ?_, ⟨gone, events.trans retained⟩, ?_, sound.grows, ?_, sound.visible,
      sound.distinct, ?_⟩
    · show List.Pairwise _ (eventsOf _ _)
      rw [events]
      exact sound.clock
    · intro some_row
      show eventsOf _ _ ≠ []
      rw [events]
      exact sound.kept some_row
    · exact fun row member => Nat.le_succ_of_le (sound.bounded row member)
    · exact fun row member => Nat.lt_succ_of_lt (sound.fresh row member)

theorem Journal.Sound.prune {target : Target} {journal : Journal Target} (sound : journal.Sound target)
    (targetId : Target) (keep stale : Nat) (cutoff : Int) (chunk : Nat) :
    (journal.apply target (.prune targetId keep stale cutoff chunk)).Sound target := by
  obtain ⟨more, events, nonempty⟩ :=
    pruneEvents_events sound.ordered sound.clock targetId keep stale cutoff chunk
  obtain ⟨gone, retained⟩ := sound.retained
  refine ⟨pruneEvents_ordered sound.ordered targetId keep stale cutoff chunk, ?_, ?_, ?_, sound.grows,
    ?_, sound.visible, sound.distinct, sound.fresh⟩
  · show List.Pairwise _ (eventsOf _ _)
    simp only [Journal.apply, events]
    exact sound.clock.sublist (List.drop_sublist _ _)
  · exact ⟨gone + more, by rw [Journal.apply, events, retained, List.drop_drop]⟩
  · exact fun some_row => nonempty (sound.kept some_row)
  · intro row member
    have bound := sound.bounded row member
    have same : (pruneEvents journal.log targetId keep stale cutoff chunk).lastSeq =
        journal.log.lastSeq := by
      unfold pruneEvents
      split <;> rfl
    simpa [Journal.apply, same] using bound

theorem Journal.Sound.holding {target : Target} {journal : Journal Target} (sound : journal.Sound target)
    (pending : List (Nat × Option Nat)) : { journal with pending := pending }.Sound target :=
  ⟨sound.ordered, sound.clock, sound.retained, sound.kept, sound.grows, sound.bounded, sound.visible,
    sound.distinct, sound.fresh⟩

/-- The row that the next append of the target writes. -/
def Journal.nextRow (target : Target) (journal : Journal Target) (createdAt : Int) : EventRow Target :=
  ⟨journal.log.lastSeq + 1, target, journal.next, createdAt⟩

theorem Journal.append_own (target : Target) (journal : Journal Target) (createdAt : Int) :
    eventsOf (journal.append target target createdAt).log target =
        eventsOf journal.log target ++ [journal.nextRow target createdAt] ∧
      journal.Extends (journal.append target target createdAt) [journal.nextRow target createdAt] [] := by
  have events := appendEvent_events journal.log target target journal.next createdAt
  simp only [if_true] at events
  simp only [Journal.append, if_true]
  refine ⟨events, rfl, by simp, ?_, Nat.le_succ _⟩
  intro row member
  rw [List.mem_singleton.mp member]
  exact Nat.lt_succ_self _

theorem Journal.append_other {target targetId : Target} (journal : Journal Target) (createdAt : Int)
    (other : targetId ≠ target) :
    eventsOf (journal.append target targetId createdAt).log target = eventsOf journal.log target ∧
      journal.Extends (journal.append target targetId createdAt) [] [] := by
  have events := appendEvent_events journal.log target targetId journal.next createdAt
  simp only [other, if_false, List.append_nil] at events
  simp only [Journal.append, other, if_false]
  exact ⟨events, by simp, by simp, by simp, Nat.le_succ _⟩

theorem Journal.persist_extends (target : Target) (journal : Journal Target) (createdAt : Int) :
    eventsOf (journal.apply target (.persist createdAt)).log target =
        eventsOf journal.log target ++ [journal.nextRow target createdAt] ∧
      journal.Extends (journal.apply target (.persist createdAt)) [journal.nextRow target createdAt]
        [journal.nextRow target createdAt] := by
  obtain ⟨events, extends'⟩ := journal.append_own target createdAt
  refine ⟨events, extends'.history, ?_, extends'.newer, extends'.counter⟩
  simp [Journal.apply, Journal.append, appendEvent, Journal.nextRow, inFlight]

/-- Quiet commits add rows at the end and take nothing away. -/
theorem Journal.Sound.applyAll {target : Target} {journal : Journal Target}
    (sound : journal.Sound target) (ops rest : List (StoreOp Target))
    (quiet : Quiet target journal (ops ++ rest)) :
    (journal.applyAll target ops).Sound target ∧
      (∃ more, eventsOf (journal.applyAll target ops).log target = eventsOf journal.log target ++ more ∧
        journal.Extends (journal.applyAll target ops) more more) ∧
      Quiet target (journal.applyAll target ops) rest := by
  induction ops generalizing journal with
  | nil => exact ⟨sound, ⟨[], by simp [Journal.applyAll], .refl journal⟩, quiet⟩
  | cons op ops ih =>
    have step : (journal.apply target op).Sound target ∧
        (∃ one, eventsOf (journal.apply target op).log target = eventsOf journal.log target ++ one ∧
          journal.Extends (journal.apply target op) one one) ∧
        Quiet target (journal.apply target op) (ops ++ rest) := by
      cases op with
      | prune => exact False.elim quiet
      | persist createdAt =>
        exact ⟨(sound.append target createdAt fun _ => quiet.1).holding _,
          ⟨_, journal.persist_extends target createdAt⟩, quiet.2⟩
      | append targetId createdAt =>
        obtain ⟨events, extends'⟩ := journal.append_other createdAt quiet.1
        exact ⟨sound.append targetId createdAt fun same => absurd same quiet.1,
          ⟨[], events.trans (List.append_nil _).symm, extends'⟩, quiet.2⟩
    obtain ⟨next, ⟨one, events, extends'⟩, others⟩ := step
    obtain ⟨final, ⟨more, events', extends''⟩, remaining⟩ := ih next others
    refine ⟨final, ⟨one ++ more, ?_, extends'.trans extends''⟩, remaining⟩
    show eventsOf (Journal.applyAll target (journal.apply target op) ops).log target = _
    rw [events', events, List.append_assoc]

/-- The file still holds every event of the target above the cursor. -/
def Retains (target : Target) (after : Nat) (journal : Journal Target) : Prop :=
  above after (eventsOf journal.log target) = above after journal.history

theorem Retains.extend {target : Target} {after : Nat} {journal longer : Journal Target}
    (retains : Retains target after journal) {more : List (EventRow Target)}
    (events : eventsOf longer.log target = eventsOf journal.log target ++ more)
    (history : longer.history = journal.history ++ more) : Retains target after longer := by
  unfold Retains at retains ⊢
  rw [events, history, above_append, above_append, retains]

theorem Retains.later {target : Target} {after later : Nat} {journal : Journal Target}
    (retains : Retains target after journal) (order : after ≤ later) :
    Retains target later journal := by
  unfold Retains at retains ⊢
  rw [← above_above order (eventsOf _ _), retains, above_above order]

theorem Journal.Sound.latest {target : Target} {journal : Journal Target} (sound : journal.Sound target)
    {front : List (EventRow Target)} {last : EventRow Target}
    (history : journal.history = front ++ [last]) : latestSeq journal.log target = last.seq := by
  obtain ⟨gone, retained⟩ := sound.retained
  have nonempty := sound.kept (by simp [history])
  rw [history] at retained
  have inside : gone ≤ front.length := by
    by_contra beyond
    apply nonempty
    rw [retained, List.drop_of_length_le]
    simp only [List.length_append, List.length_singleton]
    omega
  rw [List.drop_append_of_le_length inside] at retained
  exact latestSeq_snoc sound.ordered retained

theorem Journal.Sound.le_latest {target : Target} {journal : Journal Target}
    (sound : journal.Sound target) {row : EventRow Target} (member : row ∈ journal.history) :
    row.seq ≤ latestSeq journal.log target := by
  obtain ⟨front, newest, history⟩ : ∃ front newest, journal.history = front ++ [newest] := by
    rcases List.eq_nil_or_concat journal.history with none | ⟨front, newest, split⟩
    · rw [none] at member
      cases member
    · exact ⟨front, newest, by rw [split, List.concat_eq_append]⟩
  rw [sound.latest history]
  have grows := sound.grows
  rw [history] at grows member
  exact grows.le_last member

/-- The latest seq is that of a row, or zero when nothing was ever written for the target. -/
theorem Journal.Sound.latest_cases {target : Target} {journal : Journal Target}
    (sound : journal.Sound target) :
    latestSeq journal.log target = 0 ∨
      ∃ row ∈ journal.history, latestSeq journal.log target = row.seq := by
  rcases List.eq_nil_or_concat journal.history with none | ⟨front, newest, split⟩
  · obtain ⟨gone, retained⟩ := sound.retained
    rw [none, List.drop_nil] at retained
    exact .inl (latestSeq_nil retained)
  · rw [List.concat_eq_append] at split
    exact .inr ⟨newest, by simp [split], sound.latest split⟩

/-- A cursor that is not below the oldest kept event sees all that was published after it. -/
theorem Journal.Sound.retains {target : Target} {journal : Journal Target} (sound : journal.Sound target)
    {after : Nat} (inside : ¬ after < earliestSeq journal.log target - 1) :
    Retains target after journal := by
  obtain ⟨gone, retained⟩ := sound.retained
  have split : journal.history = journal.history.take gone ++ eventsOf journal.log target := by
    rw [retained, List.take_append_drop]
  have old : above after (journal.history.take gone) = [] := by
    rw [above, List.filter_eq_nil_iff]
    intro row member
    cases kept : eventsOf journal.log target with
    | nil =>
      have none : journal.history = [] := by
        by_contra some_row
        exact sound.kept some_row kept
      simp [none] at member
    | cons first rest =>
      have grows := sound.grows
      rw [split, kept, Increasing.by_append] at grows
      have before := grows.2.2 row member first (by simp)
      rw [earliestSeq_cons sound.ordered kept] at inside
      simp only [decide_eq_true_eq]
      omega
  unfold Retains
  conv_rhs => rw [split, above_append, old, List.nil_append]

theorem flatten_head_tail {α : Type*} (xss : List (List α)) :
    xss.flatten = xss.headD [] ++ xss.tail.flatten := by
  cases xss <;> simp

theorem pagesFrom_spec {target : Target} {latest : Nat} (fuel : Nat)
    (between : List (List (StoreOp Target))) (journal : Journal Target) (position : Nat)
    (sound : journal.Sound target) (quiet : Quiet target journal between.flatten)
    (retains : Retains target position journal) (enough : latest - position ≤ fuel) :
    let pages := pagesFrom target latest fuel between journal position
    pages.1.Sound target ∧ (∃ more, journal.Extends pages.1 more more) ∧
      pages.2 <+: above position pages.1.history ∧
      ((∃ row ∈ journal.history, row.seq = latest) →
        ∀ row ∈ journal.history, position < row.seq → row.seq ≤ latest → row ∈ pages.2) := by
  induction fuel generalizing between journal position with
  | zero =>
    refine ⟨sound, ⟨[], .refl journal⟩, List.nil_prefix, ?_⟩
    intro _ row _ low high
    omega
  | succ fuel ih =>
    by_cases behind : position < latest
    swap
    · have stop : pagesFrom target latest (fuel + 1) between journal position = (journal, []) := by
        simp [pagesFrom, behind]
      rw [stop]
      refine ⟨sound, ⟨[], .refl journal⟩, List.nil_prefix, ?_⟩
      intro _ row _ low high
      omega
    rw [flatten_head_tail] at quiet
    obtain ⟨sound', ⟨more, events, extends'⟩, rest⟩ := sound.applyAll _ _ quiet
    have history := extends'.history
    set journal' := journal.applyAll target (between.headD []) with defined
    have retains' := retains.extend events history
    have page_eq : eventsSince journal'.log target position pageLimit =
        (above position journal'.history).take pageLimit := by
      rw [← retains']
      rfl
    cases newest : (eventsSince journal'.log target position pageLimit).getLast? with
    | none =>
      have stop : pagesFrom target latest (fuel + 1) between journal position = (journal', []) := by
        rw [pagesFrom, if_pos behind]
        simp only [← defined, newest]
      rw [stop]
      refine ⟨sound', ⟨more, extends'⟩, List.nil_prefix, ?_⟩
      rintro ⟨row, member, at_latest⟩
      rw [List.getLast?_eq_none_iff, page_eq, List.take_eq_nil_iff] at newest
      have present : row ∈ above position journal'.history :=
        mem_above.mpr ⟨by rw [history]; exact List.mem_append_left _ member, by omega⟩
      rcases newest with zero | none
      · cases zero
      · rw [none] at present
        cases present
    | some last =>
      obtain ⟨front, page⟩ := List.getLast?_eq_some_iff.mp newest
      have stop : pagesFrom target latest (fuel + 1) between journal position =
          ((pagesFrom target latest fuel between.tail journal' last.seq).1,
            eventsSince journal'.log target position pageLimit ++
              (pagesFrom target latest fuel between.tail journal' last.seq).2) := by
        rw [pagesFrom, if_pos behind]
        simp only [← defined, newest]
      obtain ⟨tail, whole⟩ : eventsSince journal'.log target position pageLimit <+:
          above position journal'.history := by
        rw [page_eq]
        exact List.take_prefix _ _
      have last_member : last ∈ above position journal'.history := by
        rw [← whole, page]
        simp
      have forward := (mem_above.mp last_member).2
      obtain ⟨sound'', ⟨more', extends''⟩, lead, cover⟩ := ih between.tail journal' last.seq sound' rest
        (retains'.later (Nat.le_of_lt forward)) (by omega)
      have history' := extends''.history
      rw [stop]
      refine ⟨sound'', ⟨more ++ more', extends'.trans extends''⟩, ?_, ?_⟩
      · set final := (pagesFrom target latest fuel between.tail journal' last.seq).1
        have grown : above position final.history =
            front ++ last :: (tail ++ above position more') := by
          rw [history', above_append, ← whole, page]
          simp
        have grows : Increasing.By EventRow.seq (above position final.history) :=
          sound''.grows.sublist List.filter_sublist
        have next : above last.seq final.history = tail ++ above position more' := by
          rw [← above_above (Nat.le_of_lt forward)]
          exact grows.filter_above_of_split grown
        rw [next] at lead
        rw [grown, page, List.append_assoc, List.singleton_append]
        exact (List.prefix_append_right_inj front).mpr ((List.prefix_cons_inj last).mpr lead)
      · rintro ⟨top, top_member, at_latest⟩ row member low high
        have present : row ∈ above position journal'.history :=
          mem_above.mpr ⟨by rw [history]; exact List.mem_append_left _ member, low⟩
        rw [List.mem_append]
        by_cases paged : row.seq ≤ last.seq
        · left
          rw [← whole, List.mem_append] at present
          rcases present with here | beyond
          · exact here
          · have grows : Increasing.By EventRow.seq (above position journal'.history) :=
              sound'.grows.sublist List.filter_sublist
            rw [← whole, Increasing.by_append] at grows
            have := grows.2.2 last (by rw [page]; simp) row beyond
            omega
        · right
          exact cover ⟨top, by rw [history]; exact List.mem_append_left _ top_member, at_latest⟩ row
            (by rw [history]; exact List.mem_append_left _ member) (by omega) high

/-- A replay is one resync, or the events after the cursor: all that were there when it began, and
    perhaps the first of those that were committed meanwhile. -/
theorem replayFromStore_spec {target : Target} {journal : Journal Target} (sound : journal.Sound target)
    (resyncEvent : Item) (between : List (List (StoreOp Target)))
    (quiet : Quiet target journal between.flatten) (after : Nat) :
    let replay := replayFromStore target resyncEvent between journal after
    replay.1.Sound target ∧ (∃ more, journal.Extends replay.1 more more) ∧
      (replay.2 = [resyncEvent] ∨ ∃ rows, replay.2 = rows.map rowItem ∧
        rows <+: above after replay.1.history ∧ above after journal.history <+: rows) := by
  have low : ∀ row ∈ journal.history, row.seq ≤ latestSeq journal.log target :=
    fun _ member => sound.le_latest member
  unfold replayFromStore
  by_cases current : after = latestSeq journal.log target
  · simp only [current, if_true]
    refine ⟨sound, ⟨[], .refl journal⟩, .inr ⟨[], rfl, List.nil_prefix, ?_⟩⟩
    have none : above (latestSeq journal.log target) journal.history = [] := by
      rw [above, List.filter_eq_nil_iff]
      intro row member
      simpa using low row member
    rw [none]
  by_cases ahead : latestSeq journal.log target < after
  · simp only [current, ahead, if_false, if_true]
    exact ⟨sound, ⟨[], .refl journal⟩, .inl trivial⟩
  rw [flatten_head_tail] at quiet
  obtain ⟨sound', ⟨more, events, extends'⟩, rest⟩ := sound.applyAll _ _ quiet
  simp only [current, ahead, if_false]
  by_cases pruned : after < earliestSeq (journal.applyAll target (between.headD [])).log target - 1
  · simp only [pruned, if_true]
    exact ⟨sound', ⟨more, extends'⟩, .inl trivial⟩
  by_cases far : latestSeq journal.log target - after > resyncGapThreshold
  · simp only [pruned, if_false, far, if_true]
    exact ⟨sound', ⟨more, extends'⟩, .inl trivial⟩
  simp only [pruned, far, if_false]
  obtain ⟨sound'', ⟨more', extends''⟩, lead, cover⟩ := pagesFrom_spec (latestSeq journal.log target - after)
    between.tail _ after sound' rest (sound'.retains pruned) (Nat.le_refl _)
  have history' := extends'.history
  have history'' := extends''.history
  refine ⟨sound'', ⟨more ++ more', extends'.trans extends''⟩, .inr ⟨_, rfl, lead, ?_⟩⟩
  have whole : above after journal.history <+:
      above after (pagesFrom target (latestSeq journal.log target) (latestSeq journal.log target - after)
        between.tail (journal.applyAll target (between.headD [])) after).1.history := by
    apply above_initial
    rw [history'', history', List.append_assoc]
    exact List.prefix_append _ _
  rcases List.prefix_or_prefix_of_prefix whole lead with fits | short
  · exact fits
  · -- A shorter answer would miss the newest event that the first read saw.
    rcases List.eq_nil_or_concat journal.history with empty | ⟨front, newest, split⟩
    · simp [empty, above]
    rw [List.concat_eq_append] at split
    have latest := sound.latest split
    have top : newest ∈ journal.history := by simp [split]
    have strictly : after < newest.seq := by omega
    have covered := cover ⟨newest, by rw [history']; exact List.mem_append_left _ top, latest.symm⟩ newest
      (by rw [history']; exact List.mem_append_left _ top) strictly (by omega)
    have ends : above after journal.history = above after front ++ [newest] := by
      rw [split, above_append]
      simp [above, strictly]
    obtain ⟨rest', joined⟩ := short
    rcases List.eq_nil_or_concat rest' with none | ⟨init, last, cut⟩
    · rw [none, List.append_nil] at joined
      rw [joined]
    · rw [cut, List.concat_eq_append, ends, ← List.append_assoc] at joined
      have same := (List.append_inj' joined rfl).1
      have sorted : Increasing.By EventRow.seq (above after front ++ [newest]) := by
        rw [← ends]
        exact sound.grows.sublist List.filter_sublist
      rw [← same, Increasing.by_append] at sorted
      have := sorted.2.2 newest (List.mem_append_left _ covered) newest (by simp)
      omega

end Rdst.Discovery
