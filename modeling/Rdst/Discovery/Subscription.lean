import Rdst.Lib.Run
import Rdst.Discovery.Replay

namespace Rdst.Discovery.Subscription

open Rdst.Observation Machine

set_option linter.unusedSectionVars false

variable {Target : Type} [DecidableEq Target]

/-- One run of the generator `subscribe`: what of the replay it has still to yield, its queue, the
    cursor up to which it drops queued items, what it yielded, and how many publications precede the
    id that its client sent. -/
structure Subscriber where
  replay : List Item
  queue : List Item
  delivered : Int
  out : List Item
  since : Nat

/-- The collector of one process, the file that it shares, and the ids that clients hold, each with
    the number of publications it stands for. -/
structure World (Target : Type) where
  journal : Journal Target
  cursor : Nat
  synced : Bool
  covered : Nat
  events : List Item
  subscribers : List Subscriber
  yielded : List (Nat × Nat)

inductive Outcome
  | stored (createdAt : Int)
  | failed
  | leaseLost
deriving DecidableEq

inductive Input (Target : Type)
  | persist (syncFails : Bool) (outcome : Outcome)
  | deliver (index : Nat)
  | append (targetId : Target) (createdAt : Int)
  | prune (targetId : Target) (keep stale : Nat) (cutoff : Int) (chunk : Nat)
  | subscribe (client : Option Nat) (syncFails readFails : Bool) (between : List (List (StoreOp Target)))
  | receive (index : Nat)
  | timeout (index : Nat)
  | leave (index : Nat)
  | restart

def World.resyncEvent (world : World Target) : Item := .resync world.cursor world.covered

def World.snapshotEvent (world : World Target) : Item := .snapshot world.cursor world.covered

def World.bookmarkEvent (world : World Target) : Item := .bookmark world.cursor world.covered

def World.syncCursor (target : Target) (world : World Target) (fails : Bool) : World Target :=
  if world.synced then world
  else if fails then { world with synced := true }
  else
    { world with
      synced := true
      cursor := max world.cursor (latestSeq world.journal.log target)
      covered := world.journal.published.length }

def World.persist (target : Target) (world : World Target) (syncFails : Bool) : Outcome → World Target
  | .stored createdAt =>
    let world := world.syncCursor target syncFails
    { world with journal := world.journal.apply target (.persist createdAt) }
  | .failed =>
    let world := world.syncCursor target syncFails
    let journal := world.journal
    { world with
      journal := { journal with
        pending := journal.pending ++ [(journal.next, none)]
        next := journal.next + 1 } }
  | .leaseLost => world.syncCursor target syncFails

/-- `put_nowait`; a full queue gives way to one resync. -/
def Subscriber.offer (queueMaxsize : Nat) (event resyncEvent : Item) (sub : Subscriber) : Subscriber :=
  if 0 < queueMaxsize ∧ queueMaxsize ≤ sub.queue.length then { sub with queue := [resyncEvent] }
  else { sub with queue := sub.queue ++ [event] }

def World.deliver (historySize queueMaxsize : Nat) (world : World Target) (index : Nat) : World Target :=
  match world.journal.pending[index]? with
  | none => world
  | some (payload, seq) =>
    let journal := world.journal
    let published := if seq.isNone then journal.published ++ [payload] else journal.published
    let cursor := match seq with
      | none => world.cursor + 1
      | some seq => max (world.cursor + 1) seq
    let covered := published.idxOf payload + 1
    let events := world.events ++ [.event cursor payload]
    { world with
      journal := { journal with published := published, pending := journal.pending.eraseIdx index }
      cursor := cursor
      covered := covered
      events := events.drop (events.length - historySize)
      subscribers :=
        world.subscribers.map (Subscriber.offer queueMaxsize (.event cursor payload) (.resync cursor covered)) }

/-- `replay_after`: the store answers, and the ring when a read of the store fails. -/
def World.replayAfter (target : Target) (world : World Target) (readFails : Bool)
    (between : List (List (StoreOp Target))) : Option (Nat × Nat) → Journal Target × List Item
  | none => (world.journal, [world.snapshotEvent])
  | some client =>
    if readFails then
      (world.journal.applyAll target between.flatten,
        replayFromMemory world.cursor world.resyncEvent world.events client.1)
    else replayFromStore target world.resyncEvent between world.journal client.1

/-- A client connects: a new one, or one that sends back an id it holds. -/
def World.subscribe (target : Target) (world : World Target) (client : Option Nat)
    (syncFails readFails : Bool) (between : List (List (StoreOp Target))) : World Target :=
  let world := world.syncCursor target syncFails
  let held := client.bind fun index => world.yielded[index]?
  let replay := world.replayAfter target readFails between held
  { world with
    journal := replay.1
    subscribers := world.subscribers ++
      [{ replay := replay.2
         queue := []
         delivered := match held with
           | none => -1
           | some client => client.1
         out := []
         since := match held with
           | none => 0
           | some client => client.2 }] }

/-- One turn of the generator, with the item that it yields. -/
def Subscriber.receive (sub : Subscriber) : Subscriber × List Item :=
  match sub.replay with
  | item :: rest =>
    ({ sub with replay := rest, delivered := item.reached sub.delivered, out := sub.out ++ [item] }, [item])
  | [] =>
    match sub.queue with
    | [] => (sub, [])
    | item :: rest =>
      if (item.id : Int) ≤ sub.delivered then ({ sub with queue := rest }, [])
      else ({ sub with queue := rest, delivered := item.id, out := sub.out ++ [item] }, [item])

/-- A bookmark goes out when nothing else is there to send. -/
def Subscriber.timeout (bookmarkEvent : Item) (sub : Subscriber) : Subscriber × List Item :=
  if sub.replay = [] ∧ sub.queue = [] then ({ sub with out := sub.out ++ [bookmarkEvent] }, [bookmarkEvent])
  else (sub, [])

/-- Let one subscriber take a turn. -/
def World.turn (world : World Target) (index : Nat) (act : Subscriber → Subscriber × List Item) :
    World Target × List Item :=
  match world.subscribers[index]? with
  | none => (world, [])
  | some sub =>
    let next := act sub
    let marks := next.2.map fun item => (item.id, item.covers world.journal.published)
    ({ world with
      subscribers := world.subscribers.set index next.1
      yielded := world.yielded ++ marks }, next.2)

def step (historySize queueMaxsize : Nat) (target : Target) (world : World Target) :
    Input Target → World Target × List Item
  | .persist syncFails outcome => (world.persist target syncFails outcome, [])
  | .deliver index => (world.deliver historySize queueMaxsize index, [])
  | .append targetId createdAt =>
    ({ world with journal := world.journal.apply target (.append targetId createdAt) }, [])
  | .prune targetId keep stale cutoff chunk =>
    ({ world with journal := world.journal.apply target (.prune targetId keep stale cutoff chunk) }, [])
  | .subscribe client syncFails readFails between =>
    (world.subscribe target client syncFails readFails between, [])
  | .receive index => world.turn index Subscriber.receive
  | .timeout index => world.turn index (Subscriber.timeout world.bookmarkEvent)
  | .leave index => ({ world with subscribers := world.subscribers.eraseIdx index }, [])
  | .restart =>
    ({ journal := { world.journal with pending := [] }
       cursor := 0
       synced := false
       covered := 0
       events := []
       subscribers := []
       yielded := world.yielded }, [])

def World.start : World Target where
  journal := { log := { rows := [], lastSeq := 0 }, history := [], published := [], pending := [], next := 0 }
  cursor := 0
  synced := false
  covered := 0
  events := []
  subscribers := []
  yielded := []

/-- What the loop of `subscribe` will yield out of its queue. -/
def unreadQueue (delivered : Int) : List Item → List Item
  | [] => []
  | item :: rest =>
    if (item.id : Int) ≤ delivered then unreadQueue delivered rest else item :: unreadQueue item.id rest

/-- The delivered cursor once the queue is read. -/
def unreadQueueEnd (delivered : Int) : List Item → Int
  | [] => delivered
  | item :: rest => unreadQueueEnd (max delivered item.id) rest

def Subscriber.afterReplay (sub : Subscriber) : Int := sub.replay.foldl Item.reached sub.delivered

def Subscriber.unread (sub : Subscriber) : List Item :=
  sub.replay ++ unreadQueue sub.afterReplay sub.queue

def payloads (items : List Item) : List Nat := items.filterMap Item.payload

/-- The client is reset, or it is given the publications after its id, in order and without a gap; what
    is still owed is on its way through the collector. -/
def Served (world : World Target) (sub : Subscriber) : Prop :=
  (∃ item ∈ sub.out ++ sub.unread, item.isReset) ∨
    payloads (sub.out ++ sub.unread) <+: world.journal.published.drop sub.since ∧
      ∀ payload ∈ (world.journal.published.drop sub.since).drop (payloads (sub.out ++ sub.unread)).length,
        payload ∈ world.journal.pending.map Prod.fst

instance (world : World Target) (sub : Subscriber) : Decidable (Served world sub) := by
  unfold Served
  infer_instance

/-- The id splits the history of the file where the count splits what was published. -/
structure Known (journal : Journal Target) (id covered : Nat) : Prop where
  bounded : id ≤ journal.log.lastSeq
  counted : covered ≤ journal.published.length
  rest : (above id journal.history).map EventRow.payload = journal.published.drop covered

def Item.Known (journal : Journal Target) (item : Item) : Prop :=
  Subscription.Known journal item.id (item.covers journal.published)

/-- The subscriber was or will be given the rows from `start` to `top`, and all later ones are still in
    the collector's hands. -/
structure Exact (journal : Journal Target) (cursor : Nat) (sub : Subscriber) (start top : Nat) : Prop where
  known : Known journal start sub.since
  order : start ≤ top
  ahead : cursor ≤ top
  bounded : top ≤ journal.log.lastSeq
  given : payloads (sub.out ++ sub.unread) =
    ((above start journal.history).filter fun row => row.seq ≤ top).map EventRow.payload
  reached : unreadQueueEnd sub.afterReplay sub.queue = top
  waiting : ∀ row ∈ above top journal.history, inFlight row ∈ journal.pending

structure Subscriber.Good (journal : Journal Target) (cursor : Nat) (sub : Subscriber) : Prop where
  known : ∀ item ∈ sub.replay ++ sub.queue, Item.Known journal item
  low : ∀ item ∈ sub.queue, item.id ≤ cursor
  served : (∃ item ∈ sub.out ++ sub.unread, item.isReset) ∨ ∃ start top, Exact journal cursor sub start top

structure World.Good (target : Target) (world : World Target) : Prop where
  sound : world.journal.Sound target
  waiting : ∃ rows : List (EventRow Target), rows.Sublist world.journal.history ∧ world.journal.pending = rows.map inFlight ∧
    ∀ row ∈ rows, world.cursor < row.seq
  unsynced : world.synced = false →
    world.journal.pending = [] ∧ world.subscribers = [] ∧ world.cursor = 0
  anchored : world.cursor = 0 ∨ ∃ row ∈ world.journal.history, world.cursor = row.seq
  known : world.synced = true → Known world.journal world.cursor world.covered
  yielded : ∀ mark ∈ world.yielded, Known world.journal mark.1 mark.2
  subscribers : ∀ sub ∈ world.subscribers, sub.Good world.journal world.cursor

/-- What a step must meet: the durable append and the replay's reads succeed, events reach the
    subscribers in the order of their commits, clocks do not go back, nobody prunes in the middle of a
    replay, and other processes write this target only while nobody listens here. -/
def Orderly (target : Target) (world : World Target) : Input Target → Prop
  | .persist syncFails outcome =>
    (world.synced = false → syncFails = false) ∧ outcome ≠ .failed ∧
      ∀ createdAt, outcome = .stored createdAt → ClockAdvances target world.journal createdAt
  | .deliver index => index = 0
  | .append targetId createdAt =>
    targetId = target → world.subscribers = [] ∧ ClockAdvances target world.journal createdAt
  | .subscribe _ syncFails readFails between =>
    (world.synced = false → syncFails = false) ∧ readFails = false ∧
      Quiet target world.journal between.flatten
  | .prune .. | .receive _ | .timeout _ | .leave _ | .restart => True

section Queue

theorem unreadQueue_seen {delivered : Int} {queue : List Item} {item : Item}
    (seen : (item.id : Int) ≤ unreadQueueEnd delivered queue) :
    unreadQueue delivered (queue ++ [item]) = unreadQueue delivered queue := by
  induction queue generalizing delivered with
  | nil => exact if_pos seen
  | cons head rest ih =>
    have tail := ih seen
    simp only [List.cons_append, unreadQueue]
    by_cases low : (head.id : Int) ≤ delivered
    · rw [Int.max_eq_left low] at tail
      simp only [low, if_true, tail]
    · rw [Int.max_eq_right (by omega)] at tail
      simp only [low, if_false, tail]

theorem unreadQueue_new {delivered : Int} {queue : List Item} {item : Item}
    (new : unreadQueueEnd delivered queue < item.id) :
    unreadQueue delivered (queue ++ [item]) = unreadQueue delivered queue ++ [item] := by
  induction queue generalizing delivered with
  | nil =>
    have above : ¬ (item.id : Int) ≤ delivered := by
      simp only [unreadQueueEnd] at new
      omega
    exact if_neg above
  | cons head rest ih =>
    have tail := ih new
    simp only [List.cons_append, unreadQueue]
    by_cases low : (head.id : Int) ≤ delivered
    · rw [Int.max_eq_left low] at tail
      simp only [low, if_true, tail]
    · rw [Int.max_eq_right (by omega)] at tail
      simp only [low, if_false, tail, List.cons_append]

theorem unreadQueueEnd_snoc (delivered : Int) (queue : List Item) (item : Item) :
    unreadQueueEnd delivered (queue ++ [item]) = max (unreadQueueEnd delivered queue) item.id := by
  induction queue generalizing delivered with
  | nil => rfl
  | cons head rest ih => exact ih _

/-- A queue of old items yields nothing. -/
theorem unreadQueue_low {delivered : Int} {queue : List Item}
    (low : ∀ item ∈ queue, (item.id : Int) ≤ delivered) :
    unreadQueue delivered queue = [] ∧ unreadQueueEnd delivered queue = delivered := by
  induction queue with
  | nil => exact ⟨rfl, rfl⟩
  | cons head rest ih =>
    have first := low head (by simp)
    have others := ih fun item member => low item (List.mem_cons_of_mem _ member)
    simp only [unreadQueue, unreadQueueEnd, first, if_true, Int.max_eq_left first]
    exact others

theorem Subscriber.receive_keeps (sub : Subscriber) :
    sub.receive.1.out ++ sub.receive.1.unread = sub.out ++ sub.unread ∧
      unreadQueueEnd sub.receive.1.afterReplay sub.receive.1.queue =
        unreadQueueEnd sub.afterReplay sub.queue ∧
      sub.receive.1.since = sub.since ∧
      (∀ item ∈ sub.receive.1.replay ++ sub.receive.1.queue, item ∈ sub.replay ++ sub.queue) ∧
      (∀ item ∈ sub.receive.1.queue, item ∈ sub.queue) ∧
      ∀ item ∈ sub.receive.2, item ∈ sub.replay ++ sub.queue := by
  obtain ⟨replay, queue, delivered, out, since⟩ := sub
  cases replay with
  | cons item rest =>
    simp only [Subscriber.receive, Subscriber.unread, Subscriber.afterReplay, List.foldl_cons]
    refine ⟨by simp, trivial, trivial, ?_, fun _ member => member, by simp⟩
    intro other member
    exact List.mem_cons_of_mem _ member
  | nil =>
    cases queue with
    | nil => simp [Subscriber.receive]
    | cons item rest =>
      have later : ∀ other ∈ rest, other ∈ item :: rest := fun _ member => List.mem_cons_of_mem _ member
      by_cases low : (item.id : Int) ≤ delivered
      · simp only [Subscriber.receive, Subscriber.unread, Subscriber.afterReplay, List.foldl_nil,
          List.nil_append, unreadQueue, unreadQueueEnd, low, if_true, Int.max_eq_left low]
        exact ⟨trivial, trivial, trivial, later, later, by simp⟩
      · have high : delivered ≤ item.id := by omega
        simp only [Subscriber.receive, Subscriber.unread, Subscriber.afterReplay, List.foldl_nil,
          List.nil_append, unreadQueue, unreadQueueEnd, low, if_false, Int.max_eq_right high]
        exact ⟨by simp, trivial, trivial, later, later, by simp⟩

end Queue

section Journal

variable {target : Target} {journal longer : Journal Target} {more held : List (EventRow Target)}

theorem above_fresh {id : Nat} (low : id ≤ journal.log.lastSeq)
    (newer : ∀ row ∈ more, journal.log.lastSeq < row.seq) : above id more = more := by
  rw [above, List.filter_eq_self]
  intro row member
  have := newer row member
  simp only [decide_eq_true_eq]
  omega

theorem published_extend (sound : journal.Sound target) (sound' : longer.Sound target)
    (extends' : journal.Extends longer more held) :
    longer.published = journal.published ++ more.map EventRow.payload := by
  rw [sound'.visible, extends'.history, List.map_append, ← sound.visible]

theorem Known.extend {id covered : Nat} (known : Known journal id covered) (sound : journal.Sound target)
    (sound' : longer.Sound target) (extends' : journal.Extends longer more held) :
    Known longer id covered where
  bounded := Nat.le_trans known.bounded extends'.counter
  counted := by
    rw [published_extend sound sound' extends', List.length_append]
    exact Nat.le_add_right_of_le known.counted
  rest := by
    rw [extends'.history, above_append, above_fresh known.bounded extends'.newer, List.map_append,
      known.rest, published_extend sound sound' extends', List.drop_append_of_le_length known.counted]

theorem Known.row (sound : journal.Sound target) {row : EventRow Target} (member : row ∈ journal.history) :
    Known journal row.seq (journal.published.idxOf row.payload + 1) := by
  obtain ⟨before, after, split⟩ := List.append_of_mem member
  have published : journal.published =
      before.map EventRow.payload ++ row.payload :: after.map EventRow.payload := by
    rw [sound.visible, split, List.map_append, List.map_cons]
  have first : row.payload ∉ before.map EventRow.payload := by
    have distinct := sound.distinct
    rw [split, List.map_append, List.nodup_append] at distinct
    intro early
    exact distinct.2.2 _ early row.payload (by simp) rfl
  have index : journal.published.idxOf row.payload = before.length := by
    rw [published, List.idxOf_append_of_notMem first, List.idxOf_cons_self, List.length_map, Nat.add_zero]
  refine ⟨sound.bounded row member, ?_, ?_⟩
  · rw [index, published]
    simp
  · have tail : above row.seq journal.history = after := sound.grows.filter_above_of_split split
    rw [tail, index, published]
    simp [List.drop_append]

theorem Item.Known.extend {item : Item} (known : Item.Known journal item) (sound : journal.Sound target)
    (sound' : longer.Sound target) (extends' : journal.Extends longer more held) :
    Item.Known longer item := by
  have same : item.covers longer.published = item.covers journal.published := by
    cases item with
    | event id payload =>
      have present : payload ∈ journal.published := List.idxOf_lt_length_iff.mp known.counted
      simp only [Item.covers, published_extend sound sound' extends', List.idxOf_append_of_mem present]
    | snapshot | resync | bookmark => rfl
  have grown := Subscription.Known.extend known sound sound' extends'
  unfold Item.Known
  rw [same]
  exact grown

theorem Known.latest (sound : journal.Sound target) :
    Known journal (latestSeq journal.log target) journal.published.length := by
  have none : above (latestSeq journal.log target) journal.history = [] := by
    rw [above, List.filter_eq_nil_iff]
    intro row member
    simpa using sound.le_latest member
  refine ⟨?_, Nat.le_refl _, by simp [none]⟩
  rcases sound.latest_cases with zero | ⟨row, member, latest⟩
  · omega
  · have := sound.bounded row member
    omega

theorem Exact.extend {cursor start top : Nat} {sub : Subscriber} (exact' : Exact journal cursor sub start top)
    (sound : journal.Sound target) (sound' : longer.Sound target)
    (extends' : journal.Extends longer more more) : Exact longer cursor sub start top where
  known := exact'.known.extend sound sound' extends'
  order := exact'.order
  ahead := exact'.ahead
  bounded := Nat.le_trans exact'.bounded extends'.counter
  given := by
    have late : ((above start more).filter fun row => row.seq ≤ top) = [] := by
      rw [List.filter_eq_nil_iff]
      intro row member
      have newer := extends'.newer row (mem_above.mp member).1
      have bounded := exact'.bounded
      simp only [decide_eq_true_eq]
      omega
    rw [exact'.given, extends'.history, above_append, List.filter_append, late, List.append_nil]
  reached := exact'.reached
  waiting := by
    intro row member
    rw [extends'.history, above_append, List.mem_append] at member
    rw [extends'.pending, List.mem_append]
    rcases member with old | new
    · exact .inl (exact'.waiting row old)
    · exact .inr (List.mem_map_of_mem (mem_above.mp new).1)

theorem Subscriber.Good.extend {cursor : Nat} {sub : Subscriber} (good : sub.Good journal cursor)
    (sound : journal.Sound target) (sound' : longer.Sound target)
    (extends' : journal.Extends longer more more) : sub.Good longer cursor where
  known item member := (good.known item member).extend sound sound' extends'
  low := good.low
  served := by
    rcases good.served with reset | ⟨start, top, exact'⟩
    · exact .inl reset
    · exact .inr ⟨start, top, exact'.extend sound sound' extends'⟩

end Journal

section Steps

variable {target : Target} {world : World Target}

theorem syncCursor_keeps (target : Target) (world : World Target) (fails : Bool) :
    (world.syncCursor target fails).journal = world.journal ∧
      (world.syncCursor target fails).synced = true ∧
      (world.syncCursor target fails).subscribers = world.subscribers ∧
      (world.syncCursor target fails).yielded = world.yielded := by
  unfold World.syncCursor
  by_cases synced : world.synced = true
  · simp [synced]
  · cases fails <;> simp [synced]

theorem World.Good.sync (good : world.Good target) {fails : Bool}
    (works : world.synced = false → fails = false) : (world.syncCursor target fails).Good target := by
  unfold World.syncCursor
  cases synced : world.synced with
  | true => exact good
  | false =>
    obtain ⟨idle, alone, zero⟩ := good.unsynced synced
    simp only [works synced, zero, Nat.zero_max, if_false, Bool.false_eq_true]
    refine ⟨good.sound, ⟨[], List.nil_sublist _, idle, by simp⟩, by simp, good.sound.latest_cases,
      fun _ => .latest good.sound, good.yielded, ?_⟩
    simp [alone]

theorem World.Good.cursor_le (good : world.Good target) : world.cursor ≤ world.journal.log.lastSeq := by
  rcases good.anchored with zero | ⟨row, member, same⟩
  · omega
  · have := good.sound.bounded row member
    omega

theorem World.Good.commit (good : world.Good target) {longer : Journal Target}
    {more held : List (EventRow Target)} (sound' : longer.Sound target)
    (extends' : world.journal.Extends longer more held) (part : held.Sublist more)
    (listeners : world.subscribers = [] ∨ held = more) (started : held = [] ∨ world.synced = true) :
    { world with journal := longer }.Good target := by
  obtain ⟨rows, sub, pending, later⟩ := good.waiting
  refine ⟨sound', ⟨rows ++ held, ?_, ?_, ?_⟩, ?_, ?_, ?_, ?_, ?_⟩
  · show List.Sublist _ longer.history
    rw [extends'.history]
    exact sub.append part
  · show longer.pending = _
    rw [extends'.pending, pending, List.map_append]
  · intro row member
    rcases List.mem_append.mp member with old | new
    · exact later row old
    · have := extends'.newer row (part.subset new)
      have := good.cursor_le
      show world.cursor < row.seq
      omega
  · intro synced
    obtain ⟨idle, alone, zero⟩ := good.unsynced synced
    rcases started with none | yes
    · exact ⟨by simp [extends'.pending, idle, none], alone, zero⟩
    · rw [synced] at yes
      cases yes
  · rcases good.anchored with zero | ⟨row, member, same⟩
    · exact .inl zero
    · refine .inr ⟨row, ?_, same⟩
      show row ∈ longer.history
      rw [extends'.history]
      exact List.mem_append_left _ member
  · exact fun synced => (good.known synced).extend good.sound sound' extends'
  · exact fun mark member => (good.yielded mark member).extend good.sound sound' extends'
  · intro sub member
    rcases listeners with none | all
    · rw [none] at member
      cases member
    · subst all
      exact (good.subscribers sub member).extend good.sound sound' extends'

theorem Known.holding {journal : Journal Target} {id covered : Nat} (known : Known journal id covered)
    (pending : List (Nat × Option Nat)) : Known { journal with pending := pending } id covered :=
  ⟨known.bounded, known.counted, known.rest⟩

/-- The rows up to the next one in flight are those up to `top` and that row. -/
theorem window_next {history : List (EventRow Target)} (grows : Increasing.By EventRow.seq history)
    {start top : Nat} (order : start ≤ top) {row : EventRow Target} (member : row ∈ history)
    (beyond : top < row.seq) (least : ∀ other ∈ above top history, row.seq ≤ other.seq) :
    ((above start history).filter fun other => other.seq ≤ row.seq) =
      ((above start history).filter fun other => other.seq ≤ top) ++ [row] := by
  have grows' : Increasing.By EventRow.seq (above top history) := grows.sublist List.filter_sublist
  obtain ⟨rest, tail⟩ := grows'.head_of_least (mem_above.mpr ⟨member, beyond⟩) least
  have split : above start history =
      ((above start history).filter fun other => other.seq ≤ top) ++ above top history := by
    rw [← above_above order history]
    exact Increasing.By.split (grows.sublist List.filter_sublist) top
  have early : (((above start history).filter fun other => other.seq ≤ top).filter
      fun other => other.seq ≤ row.seq) = (above start history).filter fun other => other.seq ≤ top := by
    rw [List.filter_eq_self]
    intro other inside
    have low := (List.mem_filter.mp inside).2
    simp only [decide_eq_true_eq] at low ⊢
    omega
  have late : (rest.filter fun other => other.seq ≤ row.seq) = [] := by
    rw [tail, Increasing.by_cons] at grows'
    rw [List.filter_eq_nil_iff]
    intro other inside
    have := grows'.1 other inside
    simp only [decide_eq_true_eq]
    omega
  conv_lhs => rw [split, tail]
  rw [List.filter_append, early, List.filter_cons_of_pos (by simp), late]

theorem Subscriber.Good.offer {journal : Journal Target} {cursor queueMaxsize : Nat} {sub : Subscriber}
    (good : sub.Good journal cursor) (sound : journal.Sound target) {row : EventRow Target}
    {rows : List (EventRow Target)} (part : (row :: rows).Sublist journal.history)
    (pending : journal.pending = (row :: rows).map inFlight) (later : cursor < row.seq) :
    (sub.offer queueMaxsize (.event row.seq row.payload)
      (.resync row.seq (journal.published.idxOf row.payload + 1))).Good
        { journal with pending := rows.map inFlight } row.seq := by
  have member : row ∈ journal.history := part.subset (by simp)
  have known := Known.row sound member
  have next : ∀ other ∈ rows, row.seq < other.seq :=
    (Increasing.by_cons.mp (sound.grows.sublist part)).1
  have in_flight : ∀ other : EventRow Target, inFlight other ∈ journal.pending →
      other.seq = row.seq ∨ inFlight other ∈ rows.map inFlight := by
    intro other here
    rw [pending, List.map_cons, List.mem_cons] at here
    rcases here with first | rest
    · simp only [inFlight, Prod.mk.injEq, Option.some.injEq] at first
      exact .inl first.2
    · exact .inr rest
  unfold Subscriber.offer
  by_cases full : 0 < queueMaxsize ∧ queueMaxsize ≤ sub.queue.length
  · simp only [full, and_self, if_true]
    have reset : sub.afterReplay < row.seq →
        ∃ item ∈ sub.out ++ ({ sub with queue := [Item.resync row.seq
          (journal.published.idxOf row.payload + 1)] } : Subscriber).unread, item.isReset := by
      intro high
      refine ⟨.resync row.seq (journal.published.idxOf row.payload + 1), ?_, rfl⟩
      have fresh : ¬ (row.seq : Int) ≤ sub.afterReplay := by omega
      simp only [Subscriber.unread, Subscriber.afterReplay, List.mem_append]
      refine .inr (.inr ?_)
      simp only [unreadQueue, Item.id]
      exact (if_neg fresh).symm ▸ List.mem_singleton_self _
    refine ⟨?_, ?_, ?_⟩
    · intro item here
      rcases List.mem_append.mp here with old | new
      · exact (good.known item (List.mem_append_left _ old)).holding _
      · rw [List.mem_singleton.mp new]
        exact known.holding _
    · intro item here
      rw [List.mem_singleton.mp here]
      exact Nat.le_refl _
    by_cases high : sub.afterReplay < row.seq
    · exact .inl (reset high)
    -- The replay already went past this event, so every dropped item was a repetition.
    have stale : ∀ item ∈ sub.queue, (item.id : Int) ≤ sub.afterReplay := by
      intro item here
      have := good.low item here
      omega
    have nothing := unreadQueue_low stale
    have same : ({ sub with queue := [Item.resync row.seq
        (journal.published.idxOf row.payload + 1)] } : Subscriber).unread = sub.unread := by
      simp only [Subscriber.unread, Subscriber.afterReplay]
      congr 1
      exact (if_pos (Int.not_lt.mp high)).trans nothing.1.symm
    rw [same]
    rcases good.served with reset' | ⟨start, top, exact'⟩
    · exact .inl reset'
    · have reached := exact'.reached
      rw [nothing.2] at reached
      refine .inr ⟨start, top, exact'.known.holding _, exact'.order, by omega, exact'.bounded, ?_, ?_, ?_⟩
      · rw [same]
        exact exact'.given
      · show max sub.afterReplay (row.seq : Int) = top
        omega
      · intro other here
        have beyond := (mem_above.mp here).2
        rcases in_flight other (exact'.waiting other here) with first | rest
        · omega
        · exact rest
  · simp only [full, if_false]
    have grown : ∀ item ∈ sub.unread, item ∈ ({ sub with queue := sub.queue ++
        [Item.event row.seq row.payload] } : Subscriber).unread := by
      intro item here
      simp only [Subscriber.unread, Subscriber.afterReplay, List.mem_append] at here ⊢
      rcases here with replayed | queued
      · exact .inl replayed
      · refine .inr ?_
        by_cases seen : ((Item.event row.seq row.payload).id : Int) ≤
            unreadQueueEnd (List.foldl Item.reached sub.delivered sub.replay) sub.queue
        · rw [unreadQueue_seen seen]
          exact queued
        · rw [unreadQueue_new (by omega)]
          exact List.mem_append_left _ queued
    refine ⟨?_, ?_, ?_⟩
    · intro item here
      rw [← List.append_assoc] at here
      rcases List.mem_append.mp here with old | new
      · exact (good.known item old).holding _
      · rw [List.mem_singleton.mp new]
        exact known.holding _
    · intro item here
      rcases List.mem_append.mp here with old | new
      · have := good.low item old
        omega
      · rw [List.mem_singleton.mp new]
        exact Nat.le_refl _
    rcases good.served with ⟨item, here, reset⟩ | ⟨start, top, exact'⟩
    · refine .inl ⟨item, ?_, reset⟩
      rcases List.mem_append.mp here with old | new
      · exact List.mem_append_left _ old
      · exact List.mem_append_right _ (grown item new)
    · have reached := exact'.reached
      right
      by_cases seen : row.seq ≤ top
      · refine ⟨start, top, exact'.known.holding _, exact'.order, seen, exact'.bounded, ?_, ?_, ?_⟩
        · rw [← exact'.given]
          simp only [Subscriber.unread, Subscriber.afterReplay] at reached ⊢
          rw [unreadQueue_seen (by simp only [Item.id]; omega)]
        · show unreadQueueEnd sub.afterReplay (sub.queue ++ _) = top
          rw [unreadQueueEnd_snoc, reached]
          simp only [Item.id]
          omega
        · intro other here
          have beyond := (mem_above.mp here).2
          rcases in_flight other (exact'.waiting other here) with first | rest
          · omega
          · exact rest
      · have least : ∀ other ∈ above top journal.history, row.seq ≤ other.seq := by
          intro other here
          rcases in_flight other (exact'.waiting other here) with first | rest
          · omega
          · obtain ⟨held, inside, same⟩ := List.mem_map.mp rest
            have := next held inside
            simp only [inFlight, Prod.mk.injEq, Option.some.injEq] at same
            omega
        have window := window_next sound.grows exact'.order member (by omega) least
        have order := exact'.order
        refine ⟨start, row.seq, exact'.known.holding _, by omega, Nat.le_refl _, sound.bounded row member,
          ?_, ?_, ?_⟩
        · show _ = (List.filter _ (above start journal.history)).map EventRow.payload
          rw [window, List.map_append, ← exact'.given]
          simp only [Subscriber.unread, Subscriber.afterReplay] at reached ⊢
          rw [unreadQueue_new (by simp only [Item.id]; omega), ← List.append_assoc, ← List.append_assoc,
            payloads, List.filterMap_append, payloads, List.append_assoc]
          rfl
        · show unreadQueueEnd sub.afterReplay (sub.queue ++ _) = row.seq
          rw [unreadQueueEnd_snoc, reached]
          simp only [Item.id]
          omega
        · intro other here
          obtain ⟨inside, beyond⟩ := mem_above.mp here
          rcases in_flight other (exact'.waiting other (mem_above.mpr ⟨inside, by omega⟩)) with first | rest
          · omega
          · exact rest

theorem World.Good.deliver (good : world.Good target) (historySize queueMaxsize : Nat) :
    (world.deliver historySize queueMaxsize 0).Good target := by
  obtain ⟨rows, part, pending, later⟩ := good.waiting
  cases rows with
  | nil =>
    have idle : world.journal.pending[0]? = none := by rw [pending]; rfl
    simp only [World.deliver, idle]
    exact good
  | cons row rest =>
    have head : world.journal.pending[0]? = some (row.payload, some row.seq) := by rw [pending]; rfl
    have tail : world.journal.pending.eraseIdx 0 = rest.map inFlight := by rw [pending]; rfl
    have first := later row (by simp)
    have cursor : max (world.cursor + 1) row.seq = row.seq := Nat.max_eq_right first
    have member : row ∈ world.journal.history := part.subset (by simp)
    have next := Increasing.by_cons.mp (good.sound.grows.sublist part)
    simp only [World.deliver, head, tail, cursor, Option.isNone_some, Bool.false_eq_true, if_false]
    refine ⟨good.sound.holding _, ⟨rest, (List.sublist_cons_self row rest).trans part, rfl, next.1⟩, ?_,
      .inr ⟨row, member, rfl⟩, fun _ => (Known.row good.sound member).holding _,
      fun mark here => (good.yielded mark here).holding _, ?_⟩
    · intro synced
      have idle := (good.unsynced synced).1
      rw [pending] at idle
      cases idle
    · intro sub here
      obtain ⟨before, old, rfl⟩ := List.mem_map.mp here
      exact (good.subscribers before old).offer good.sound part pending first

theorem World.Good.turn (good : world.Good target) (index : Nat)
    (act : Subscriber → Subscriber × List Item)
    (keeps : ∀ sub : Subscriber, sub.Good world.journal world.cursor → world.synced = true →
      (act sub).1.Good world.journal world.cursor ∧ ∀ item ∈ (act sub).2, Item.Known world.journal item) :
    (world.turn index act).1.Good target := by
  unfold World.turn
  cases found : world.subscribers[index]? with
  | none => exact good
  | some sub =>
    have member := List.mem_of_getElem? found
    have synced : world.synced = true := by
      by_contra unsynced
      have alone := (good.unsynced (by simpa using unsynced)).2.1
      rw [alone] at member
      cases member
    obtain ⟨kept, marked⟩ := keeps sub (good.subscribers sub member) synced
    refine ⟨good.sound, good.waiting, ?_, good.anchored, good.known, ?_, ?_⟩
    · intro unsynced
      rw [synced] at unsynced
      cases unsynced
    · intro mark here
      rcases List.mem_append.mp here with old | new
      · exact good.yielded mark old
      · obtain ⟨item, yielded, rfl⟩ := List.mem_map.mp new
        exact marked item yielded
    · intro other here
      rcases List.mem_or_eq_of_mem_set here with old | rfl
      · exact good.subscribers other old
      · exact kept

theorem Subscriber.Good.receive {journal : Journal Target} {cursor : Nat} {sub : Subscriber}
    (good : sub.Good journal cursor) :
    sub.receive.1.Good journal cursor ∧ ∀ item ∈ sub.receive.2, Item.Known journal item := by
  obtain ⟨same, reached, since, left, queued, given⟩ := sub.receive_keeps
  refine ⟨⟨fun item member => good.known item (left item member),
    fun item member => good.low item (queued item member), ?_⟩,
    fun item member => good.known item (given item member)⟩
  rw [same]
  rcases good.served with reset | ⟨start, top, exact'⟩
  · exact .inl reset
  · exact .inr ⟨start, top, by rw [since]; exact exact'.known, exact'.order, exact'.ahead, exact'.bounded,
      by rw [same]; exact exact'.given, by rw [reached]; exact exact'.reached, exact'.waiting⟩

theorem Subscriber.Good.timeout {journal : Journal Target} {cursor covered : Nat} {sub : Subscriber}
    (good : sub.Good journal cursor) (known : Known journal cursor covered) :
    (sub.timeout (.bookmark cursor covered)).1.Good journal cursor ∧
      ∀ item ∈ (sub.timeout (.bookmark cursor covered)).2, Item.Known journal item := by
  unfold Subscriber.timeout
  split
  · rename_i quiet
    have none : sub.unread = [] := by simp [Subscriber.unread, quiet.1, quiet.2, unreadQueue]
    have none' : ({ sub with out := sub.out ++ [.bookmark cursor covered] } : Subscriber).unread = [] := none
    refine ⟨⟨good.known, good.low, ?_⟩, ?_⟩
    · rw [none', List.append_nil]
      have served := good.served
      rw [none, List.append_nil] at served
      rcases served with ⟨item, member, reset⟩ | ⟨start, top, exact'⟩
      · exact .inl ⟨item, List.mem_append_left _ member, reset⟩
      · have given := exact'.given
        refine .inr ⟨start, top, exact'.known, exact'.order, exact'.ahead, exact'.bounded, ?_,
          exact'.reached, exact'.waiting⟩
        rw [← given, none, none', List.append_nil, List.append_nil, payloads, List.filterMap_append]
        exact List.append_nil _
    · intro item member
      rw [List.mem_singleton.mp member]
      exact known
  · exact ⟨good, by simp⟩

theorem reached_rows_le {rows : List (EventRow Target)} {start bound : Nat} (low : start ≤ bound)
    (all : ∀ row ∈ rows, row.seq ≤ bound) : (rows.map rowItem).foldl Item.reached (start : Int) ≤ bound := by
  induction rows generalizing start with
  | nil => exact Int.ofNat_le.mpr low
  | cons row rest ih =>
    have first := all row (by simp)
    have step : Item.reached (start : Int) (rowItem row) = ((max start row.seq : Nat) : Int) := by
      show max (start : Int) (row.seq : Int) = _
      omega
    rw [List.map_cons, List.foldl_cons, step]
    exact ih (Nat.max_le.mpr ⟨low, first⟩) fun other member => all other (List.mem_cons_of_mem _ member)

theorem payloads_rows (rows : List (EventRow Target)) :
    payloads (rows.map rowItem) = rows.map EventRow.payload := by
  induction rows with
  | nil => rfl
  | cons row rest ih => exact congrArg (List.cons row.payload) ih

/-- Where a replay ends: at the last row that it holds, or where it started. -/
theorem replay_top {rows : List (EventRow Target)} (grows : Increasing.By EventRow.seq rows) {start : Nat}
    (after : ∀ row ∈ rows, start < row.seq) :
    ∃ top, (rows.map rowItem).foldl Item.reached (start : Int) = (top : Nat) ∧ start ≤ top ∧
      (∀ row ∈ rows, row.seq ≤ top) ∧ (top = start ∧ rows = [] ∨ ∃ row ∈ rows, top = row.seq) := by
  rcases List.eq_nil_or_concat rows with rfl | ⟨front, last, rfl⟩
  · exact ⟨start, rfl, Nat.le_refl _, by simp, .inl ⟨rfl, rfl⟩⟩
  rw [List.concat_eq_append] at *
  have below : start ≤ last.seq := Nat.le_of_lt (after last (by simp))
  have low : ∀ row ∈ front ++ [last], row.seq ≤ last.seq := fun row member => grows.le_last member
  refine ⟨last.seq, ?_, below, low, .inr ⟨last, by simp, rfl⟩⟩
  have front_low := reached_rows_le below fun row member => low row (List.mem_append_left _ member)
  rw [List.map_append, List.foldl_append]
  exact Int.max_eq_right front_low

theorem Subscriber.Good.replayed {journal longer : Journal Target} {more : List (EventRow Target)}
    (sound : journal.Sound target) (sound' : longer.Sound target)
    (extends' : journal.Extends longer more more) {start covered cursor : Nat}
    (known : Known journal start covered)
    (anchored : cursor = 0 ∨ ∃ row ∈ journal.history, cursor = row.seq) {rows : List (EventRow Target)}
    (lead : rows <+: above start longer.history) (cover : above start journal.history <+: rows) :
    Subscriber.Good longer cursor
      { replay := rows.map rowItem, queue := [], delivered := start, out := [], since := covered } := by
  have grows : Increasing.By EventRow.seq (above start longer.history) :=
    sound'.grows.sublist List.filter_sublist
  have inside : ∀ row ∈ rows, row ∈ longer.history ∧ start < row.seq :=
    fun row member => mem_above.mp (lead.subset member)
  obtain ⟨top, reached, order, low, place⟩ :=
    replay_top (grows.sublist lead.sublist) fun row member => (inside row member).2
  obtain ⟨rest, whole⟩ := lead
  have rest_new : ∀ row ∈ rest, row ∈ more := by
    intro row member
    obtain ⟨extra, rfl⟩ := cover
    have bounded := known.bounded
    have newer : above start more = more := above_fresh bounded extends'.newer
    rw [extends'.history, above_append, newer, List.append_assoc] at whole
    have tail := List.append_cancel_left whole
    rw [← tail]
    exact List.mem_append_right _ member
  refine ⟨?_, by simp, .inr ⟨start, top, known.extend sound sound' extends', order, ?_, ?_, ?_, ?_, ?_⟩⟩
  · intro item member
    rw [List.append_nil] at member
    obtain ⟨row, here, rfl⟩ := List.mem_map.mp member
    exact Known.row sound' (inside row here).1
  · rcases anchored with zero | ⟨row, member, same⟩
    · omega
    · by_cases old : row.seq ≤ start
      · omega
      · have := low row (cover.subset (mem_above.mpr ⟨member, by omega⟩))
        omega
  · rcases place with ⟨same, _⟩ | ⟨row, member, same⟩
    · have := known.bounded
      have := extends'.counter
      omega
    · have := sound'.bounded row (inside row member).1
      omega
  · simp only [Subscriber.unread, unreadQueue, List.append_nil, List.nil_append]
    rw [payloads_rows, ← whole, List.filter_append]
    have all : (rows.filter fun row => row.seq ≤ top) = rows := by
      rw [List.filter_eq_self]
      intro row member
      simpa using low row member
    have none : (rest.filter fun row => row.seq ≤ top) = [] := by
      rw [List.filter_eq_nil_iff]
      intro row member
      simp only [decide_eq_true_eq]
      rcases place with ⟨same, _⟩ | ⟨last, here, same⟩
      · have := (mem_above.mp (by rw [← whole]; exact List.mem_append_right rows member)).2
        omega
      · rw [← whole, Increasing.by_append] at grows
        have := grows.2.2 last here row member
        omega
    rw [all, none, List.append_nil]
  · exact reached
  · intro row member
    obtain ⟨present, beyond⟩ := mem_above.mp member
    have here : row ∈ above start longer.history := mem_above.mpr ⟨present, by omega⟩
    rw [← whole, List.mem_append] at here
    rw [extends'.pending, List.mem_append]
    rcases here with given | new
    · have := low row given
      omega
    · exact .inr (List.mem_map_of_mem (rest_new row new))

theorem World.Good.subscribe (good : world.Good target) (client : Option Nat) {syncFails : Bool}
    {between : List (List (StoreOp Target))} (works : world.synced = false → syncFails = false)
    (quiet : Quiet target world.journal between.flatten) :
    (world.subscribe target client syncFails false between).Good target := by
  obtain ⟨journal_same, synced, _, yielded_same⟩ := syncCursor_keeps target world syncFails
  have good' := good.sync works
  rw [← journal_same] at quiet
  unfold World.subscribe
  set world' := world.syncCursor target syncFails
  have add : ∀ {longer : Journal Target} {more : List (EventRow Target)} {sub : Subscriber},
      longer.Sound target → world'.journal.Extends longer more more → sub.Good longer world'.cursor →
      { world' with journal := longer, subscribers := world'.subscribers ++ [sub] }.Good target := by
    intro longer more sub sound' extends' fits
    have grown := good'.commit sound' extends' (List.Sublist.refl more) (.inr rfl) (.inr synced)
    refine ⟨grown.sound, grown.waiting, ?_, grown.anchored, grown.known, grown.yielded, ?_⟩
    · intro unsynced
      rw [synced] at unsynced
      cases unsynced
    · intro other member
      rcases List.mem_append.mp member with old | new
      · exact grown.subscribers other old
      · rw [List.mem_singleton.mp new]
        exact fits
  cases held : client.bind fun index => world'.yielded[index]? with
  | none =>
    have fits : Subscriber.Good world'.journal world'.cursor
        { replay := [world'.snapshotEvent], queue := [], delivered := -1, out := [], since := 0 } := by
      refine ⟨?_, by simp, .inl ⟨world'.snapshotEvent, by simp [Subscriber.unread], rfl⟩⟩
      intro item member
      rw [List.append_nil] at member
      rw [List.mem_singleton.mp member]
      exact good'.known synced
    simp only [World.replayAfter, held]
    exact add good'.sound (.refl _) fits
  | some mark =>
    have carried : mark ∈ world'.yielded := by
      cases client with
      | none => cases held
      | some index => exact List.mem_of_getElem? held
    have known := good'.yielded mark carried
    obtain ⟨sound', ⟨more, extends'⟩, answer⟩ :=
      replayFromStore_spec good'.sound world'.resyncEvent between quiet mark.1
    have fits : Subscriber.Good (replayFromStore target world'.resyncEvent between world'.journal mark.1).1
        world'.cursor
        { replay := (replayFromStore target world'.resyncEvent between world'.journal mark.1).2
          queue := [], delivered := mark.1, out := [], since := mark.2 } := by
      rcases answer with reset | ⟨rows, replay, lead, cover⟩
      · rw [reset]
        refine ⟨?_, by simp, .inl ⟨world'.resyncEvent, by simp [Subscriber.unread], rfl⟩⟩
        intro item member
        rw [List.append_nil] at member
        rw [List.mem_singleton.mp member]
        exact (good'.known synced).extend good'.sound sound' extends'
      · rw [replay]
        exact .replayed good'.sound sound' extends' known good'.anchored lead cover
    simp only [World.replayAfter, held, Bool.false_eq_true, if_false]
    exact add sound' extends' fits

end Steps

theorem step_good (historySize queueMaxsize : Nat) {target : Target} {world : World Target}
    {input : Input Target} (orderly : Orderly target world input) (good : world.Good target) :
    (step historySize queueMaxsize target world input).1.Good target := by
  cases input with
  | persist syncFails outcome =>
    obtain ⟨works, durable, clock⟩ := orderly
    have good' := good.sync works
    cases outcome with
    | failed => exact absurd rfl durable
    | leaseLost => exact good'
    | stored createdAt =>
      obtain ⟨journal_same, synced, -, -⟩ := syncCursor_keeps target world syncFails
      have advances := clock createdAt rfl
      rw [← journal_same] at advances
      have sound' := (good'.sound.append target createdAt fun _ => advances).holding
        ((world.syncCursor target syncFails).journal.apply target (.persist createdAt)).pending
      exact good'.commit sound' (Journal.persist_extends target _ createdAt).2 (List.Sublist.refl _)
        (.inr rfl) (.inr synced)
  | deliver index =>
    rw [show index = 0 from orderly]
    exact good.deliver historySize queueMaxsize
  | append targetId createdAt =>
    by_cases own : targetId = target
    · subst own
      obtain ⟨alone, advances⟩ := orderly rfl
      exact good.commit (good.sound.append targetId createdAt fun _ => advances)
        (Journal.append_own targetId _ createdAt).2 (List.nil_sublist _) (.inl alone) (.inl rfl)
    · exact good.commit (good.sound.append targetId createdAt fun same => absurd same own)
        (Journal.append_other _ createdAt own).2 (List.Sublist.refl _) (.inr rfl) (.inl rfl)
  | prune targetId keep stale cutoff chunk =>
    have counter : (pruneEvents world.journal.log targetId keep stale cutoff chunk).lastSeq =
        world.journal.log.lastSeq := by
      unfold pruneEvents
      split <;> rfl
    exact good.commit (good.sound.prune targetId keep stale cutoff chunk)
      ⟨(List.append_nil _).symm, (List.append_nil _).symm, by simp, Nat.le_of_eq counter.symm⟩
      (List.Sublist.refl []) (.inr rfl) (.inl rfl)
  | subscribe client syncFails readFails between =>
    obtain ⟨works, reads, quiet⟩ := orderly
    rw [reads]
    exact good.subscribe client works quiet
  | receive index => exact good.turn index _ fun _ fits _ => fits.receive
  | timeout index => exact good.turn index _ fun _ fits synced => fits.timeout (good.known synced)
  | leave index =>
    refine ⟨good.sound, good.waiting, ?_, good.anchored, good.known, good.yielded, ?_⟩
    · intro unsynced
      obtain ⟨idle, alone, zero⟩ := good.unsynced unsynced
      exact ⟨idle, by show List.eraseIdx _ _ = _; rw [alone]; rfl, zero⟩
    · intro sub member
      exact good.subscribers sub (List.mem_of_mem_eraseIdx member)
  | restart =>
    exact ⟨good.sound.holding _, ⟨[], List.nil_sublist _, rfl, by simp⟩, fun _ => ⟨rfl, rfl, rfl⟩, .inl rfl,
      nofun, fun mark member => (good.yielded mark member).holding _, nofun⟩

theorem start_good (target : Target) : (World.start : World Target).Good target where
  sound := ⟨⟨.nil, by simp [World.start]⟩, .nil, ⟨0, rfl⟩, by simp [World.start], .nil, by simp [World.start],
    rfl, by simp [World.start], by simp [World.start]⟩
  waiting := ⟨[], List.nil_sublist _, rfl, by simp⟩
  unsynced _ := ⟨rfl, rfl, rfl⟩
  anchored := .inl rfl
  known := by simp [World.start]
  yielded := by simp [World.start]
  subscribers := by simp [World.start]

theorem World.Good.served {target : Target} {world : World Target} (good : world.Good target)
    {sub : Subscriber} (member : sub ∈ world.subscribers) : Served world sub := by
  rcases (good.subscribers sub member).served with reset | ⟨start, top, exact'⟩
  · exact .inl reset
  have grows : Increasing.By EventRow.seq (above start world.journal.history) :=
    good.sound.grows.sublist List.filter_sublist
  have owed : world.journal.published.drop sub.since = payloads (sub.out ++ sub.unread) ++
      (above top world.journal.history).map EventRow.payload := by
    rw [← exact'.known.rest, exact'.given, ← List.map_append, ← above_above exact'.order]
    exact congrArg _ (Increasing.By.split grows top)
  refine .inr ⟨by rw [owed]; exact List.prefix_append _ _, ?_⟩
  intro payload late
  rw [owed, List.drop_left] at late
  obtain ⟨row, here, rfl⟩ := List.mem_map.mp late
  exact List.mem_map.mpr ⟨inFlight row, exact'.waiting row here, rfl⟩

/-- In every orderly run each client that reconnects gets a reset or exactly what followed its id. -/
theorem subscribers_served (historySize queueMaxsize : Nat) (target : Target) (inputs : List (Input Target))
    (orderly : EveryStep (step historySize queueMaxsize target) (Orderly target) World.start inputs) :
    ∀ sub ∈ (exec (step historySize queueMaxsize target) World.start inputs).1.subscribers,
      Served (exec (step historySize queueMaxsize target) World.start inputs).1 sub := by
  have good := exec_invariant (fun world _ => world.Good target) (Orderly target)
    (fun world trace input ok fits => step_good historySize queueMaxsize ok fits) World.start inputs orderly (start_good target)
  exact fun sub member => good.served member

/-- Two publications, and a client that leaves in between and comes back. -/
def reconnectRun : List (Input Unit) :=
  [.subscribe none false false [], .receive 0, .persist false (.stored 0), .deliver 0, .receive 0, .leave 0,
    .persist false (.stored 1), .deliver 0, .subscribe (some 1) false false []]

theorem subscribers_served_reconnect :
    ∃ sub ∈ (exec (step 100 10 ()) World.start reconnectRun).1.subscribers,
      Served (exec (step 100 10 ()) World.start reconnectRun).1 sub := by
  have orderly : EveryStep (step 100 10 ()) (Orderly ()) World.start reconnectRun := by
    simp only [reconnectRun, EveryStep, Orderly]
    refine ⟨⟨by decide, trivial, trivial⟩, trivial, ⟨by decide, by decide, ?_⟩, trivial, trivial, trivial,
      ⟨by decide, by decide, ?_⟩, trivial, ⟨by decide, trivial, trivial⟩, trivial⟩ <;>
    · intro createdAt same
      cases same
      unfold ClockAdvances
      decide
  have present : (exec (step 100 10 ()) World.start reconnectRun).1.subscribers ≠ [] := by decide
  exact ⟨_, List.head_mem present, subscribers_served 100 10 () reconnectRun orderly _ (List.head_mem present)⟩

/-- One append fails, the next seq of the file repeats the id of the event that was not stored, and the
    client that sends this id back gets nothing. -/
theorem skipped_after_failed_append :
    ¬ ∀ (inputs : List (Input Unit)),
      ∀ sub ∈ (exec (step 100 10 ()) World.start inputs).1.subscribers,
        Served (exec (step 100 10 ()) World.start inputs).1 sub := by
  intro every
  have served := every [.persist false (.stored 0), .deliver 0, .subscribe none false false [], .receive 0,
    .persist false .failed, .deliver 0, .receive 0, .leave 0, .persist false (.stored 1), .deliver 0,
    .subscribe (some 1) false false []]
  revert served
  decide

end Rdst.Discovery.Subscription
