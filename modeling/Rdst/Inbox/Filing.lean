import Rdst.Inbox.Items

namespace Rdst.Inbox

open RowTable LocalTime

/-- The arguments of `upsert_item`. -/
structure Filing where
  target : String
  type : String
  subject : String
  severity : ℚ
  title : String
  body : Body
  ts : Int
  notifyCap : Option Nat := none
  notify : Bool := true
  reopenResolved : Bool := false
  materiallyWorse : Bool := false
  notifyOnUpdate : Bool := false
  delivery : Option Delivery := none

def Filing.level (f : Filing) : Delivery := f.delivery.getD (if f.notify = true then .notify else .inbox)

/-- The subject that the store files it under. -/
def Filing.key (f : Filing) : String :=
  match f.body.queryKey with
  | some key => if f.body.queryKeys = [] ∧ f.body.recoveryQueries = [] then key else f.subject
  | none => f.subject

def Item.isOf (item : Item) (target type subject : String) : Bool :=
  item.target = target && item.type = type && (item.subject = subject || item.body.queryKey = some subject)

def ItemState.isOpen : ItemState → Bool
  | .new | .seen | .snoozed => true
  | .dismissed | .resolved => false

/-- The order in which a filing looks for its row. -/
def Foremost (a b : Nat × Item) : Prop :=
  (a.2.state.isOpen = true ∧ b.2.state.isOpen = false) ∨ a.2.state.isOpen = b.2.state.isOpen ∧
    (a.2.createdAt < b.2.createdAt ∨ a.2.createdAt = b.2.createdAt ∧ a.1 ≤ b.1)

instance : DecidableRel Foremost := fun _ _ => inferInstanceAs (Decidable (_ ∨ _ ∧ (_ ∨ _ ∧ _)))

def Store.find (s : Store) (target type subject : String) : Option (Nat × Item) :=
  ((s.items.rows.filter fun row => row.2.isOf target type subject).insertionSort Foremost).head?

/-- `or` of times: zero counts as none. -/
def orTime (first : Option Int) (second : Option Int) : Option Int := (first.filter (· ≠ 0)).orElse fun _ => second

section Body

variable (f : Filing) (row : Item)

def Filing.newBody : Body :=
  if f.type = queryStoppedRunning then { f.body with occurrences := [⟨f.body.filedAt.getD f.ts, none, [f.key]⟩] }
  else f.body

/-- A stop that was over before the item was resolved, or that it settled. -/
def Filing.staleStop : Prop :=
  f.type = queryStoppedRunning ∧ row.state = .resolved ∧
    (f.body.filedAt.getD f.ts ≤ ((orTime row.body.resumedAt row.resolvedAt).filter (· ≠ 0)).getD row.updatedAt ∨
      row.body.settled = true)

instance : Decidable (f.staleStop row) := inferInstanceAs (Decidable (_ ∧ _ ∧ (_ ∨ _)))

def Filing.stopEntries : List Occurrence :=
  if row.body.occurrences ≠ [] then row.body.occurrences
  else [⟨row.body.filedAt.getD row.createdAt, none, [f.key]⟩]

/-- What the filing makes of the body of its row, but for `still_happening`. -/
def Filing.rowBody : Body :=
  if f.type ≠ queryStoppedRunning then f.body
  else
    let entries := f.stopEntries row
    if row.state = .resolved then
      let last := entries.getLast?.toList.map fun entry => { entry with end_ := row.body.resumedAt.orElse fun _ => row.resolvedAt }
      let all := entries.dropLast ++ last ++ [⟨f.body.filedAt.getD f.ts, none, [f.key]⟩]
      { f.body with occurrences := all.drop (all.length - 60) }
    else
      { f.body with
        occurrences := entries.drop (entries.length - 60)
        filedAt := some (row.body.filedAt.getD row.createdAt) }

def Item.snoozeExpired (ts : Int) : Prop := row.state = .snoozed ∧ row.snoozedUntil.any (· ≤ ts) = true

instance (ts : Int) : Decidable (row.snoozeExpired ts) := inferInstanceAs (Decidable (_ ∧ _))

def Filing.dismissedReturn : Prop := row.state = .dismissed ∧ f.materiallyWorse = true

instance : Decidable (f.dismissedReturn row) := inferInstanceAs (Decidable (_ ∧ _))

def Filing.reopens : Prop :=
  (row.state = .resolved ∧ (row.resolvedBy = some .code ∨ f.reopenResolved = true ∨ f.materiallyWorse = true)) ∨
    row.snoozeExpired f.ts ∨ f.dismissedReturn row

instance : Decidable (f.reopens row) := inferInstanceAs (Decidable ((_ ∧ (_ ∨ _ ∨ _)) ∨ _ ∨ _))

def Filing.final : Delivery := if f.reopens row then f.level else row.delivery.max f.level

def Filing.promotes : Prop := f.final row ≠ row.delivery ∧ ¬ f.reopens row

instance : Decidable (f.promotes row) := inferInstanceAs (Decidable (_ ∧ _))

def Filing.detail : Body :=
  if f.dismissedReturn row ∨ row.state ≠ .dismissed ∧ row.body.stillHappening = true then
    { f.rowBody row with stillHappening := true }
  else f.rowBody row

/-- The kind of the event, and whether the filing is to push. -/
def Filing.outcome : EventKind × Bool :=
  if f.reopens row then (.reopened, true)
  else if f.promotes row ∧ row.state.isOpen = true then (.updated, f.final row = .notify)
  else if f.materiallyWorse = true ∧ (row.state = .new ∨ row.state = .seen) then (.worse, true)
  else if f.notifyOnUpdate = true ∧ (row.state = .new ∨ row.state = .seen) then (.updated, true)
  else (.updated, false)

/-- The filing leaves its row as it is. -/
def Filing.leaves : Prop :=
  f.staleStop row ∨ (row.state.isOpen = false ∧ ¬ f.reopens row) ∨
    (f.detail row = row.body ∧ f.title = row.title ∧ f.severity = row.severity ∧ ¬ f.reopens row ∧
      ¬ f.materiallyWorse = true ∧ ¬ f.promotes row)

instance : Decidable (f.leaves row) := inferInstanceAs (Decidable (_ ∨ _ ∨ _))

def Filing.rewrite (item : Item) : Item :=
  { item with
    state := if f.reopens row ∨ f.promotes row ∧ row.delivery = .digest then .new else row.state
    severity := f.severity
    title := f.title
    body := f.detail row
    updatedAt := f.ts
    delivery := f.final row
    resolvedAt := if f.reopens row then none else row.resolvedAt
    resolvedBy := if f.reopens row then none else row.resolvedBy
    snoozedUntil := if f.reopens row then none else row.snoozedUntil
    reopenedCount := row.reopenedCount + if f.reopens row then 1 else 0
    dismissedReturned := if f.reopens row ∧ row.state = .resolved then 0
      else row.dismissedReturned + if f.dismissedReturn row then 1 else 0 }

def Filing.newItem : Item where
  target := f.target
  type := f.type
  subject := f.key
  state := .new
  severity := f.severity
  title := f.title
  body := f.newBody
  createdAt := f.ts
  updatedAt := f.ts
  resolvedAt := none
  resolvedBy := none
  seenCount := 0
  dismissedAt := none
  reopenedCount := 0
  snoozedUntil := none
  dismissedReturned := 0
  mutedBy := none
  delivery := f.level

end Body

section Store

variable (zone : Zone)

def Store.mutedBy (s : Store) (f : Filing) : Option Nat :=
  s.matchingRule f.target f.type (itemQueryKeys f.key f.body) f.ts

/-- What becomes of the push of a filing: none where it goes out. -/
def Store.skipped (s : Store) (f : Filing) : Option PushSkipped :=
  let settings := s.settings f.target
  let event := notifyEvent f.type f.key
  if settings.notifyEvents event = false then some .eventOff
  else if event ≠ .databaseUnreachable ∧ inQuietHours zone settings.quietHours f.ts = true then some .quietHours
  else if event = .databaseUnreachable ∨
      s.pushed f.target (localDayBounds zone f.ts) < f.notifyCap.getD settings.pushCap then none
  else some .dailyLimit

def Store.push (s : Store) (f : Filing) (id : Nat) : Store :=
  match s.skipped zone f with
  | some why => s.log id f.ts .updated (.pushSkipped why)
  | none => s.log id f.ts .notified .empty

/-- The store in which the push of a filing is decided: the filing is logged and its mute looked up. -/
def Store.settled (base : Store) (f : Filing) (id : Nat) (kind : EventKind) (detail : EventDetail) : Store :=
  (base.log id f.ts kind detail).setItem id fun item => { item with mutedBy := base.mutedBy f }

/-- The rest of a filing that wrote its row. -/
def Store.filed (s : Store) (f : Filing) (id : Nat) (kind : EventKind) (detail : Body) (wantsPush : Bool)
    (final : Delivery) : Store :=
  let filed := s.settled f id kind (.filed detail)
  if wantsPush = true ∧ final = .notify ∧ s.mutedBy f = none then filed.push zone f id else filed

/-- The store after the filing, and the id of the item. -/
def upsertItem (s : Store) (f : Filing) : Store × Nat :=
  match s.find f.target f.type f.key with
  | none =>
    let id := s.items.nextId
    (Store.filed zone { s with items := s.items.insert f.newItem } f id .created f.newBody true f.level, id)
  | some (id, row) =>
    let muted := s.mutedBy f
    let marked := s.setItem id fun item => { item with mutedBy := muted }
    if f.leaves row then (marked, id)
    else
      let written := marked.setItem id (f.rewrite row)
      (written.filed zone f id (f.outcome row).1 (f.detail row) (f.outcome row).2 (f.final row), id)

def UserAction.state : UserAction → ItemState
  | .seen => .seen
  | .snooze => .snoozed
  | .dismiss => .dismissed
  | .resolve => .resolved
  | .reopen => .new

def UserAction.kind : UserAction → EventKind
  | .dismiss => .dismissed
  | .resolve => .resolved
  | .reopen => .reopened
  | .seen | .snooze => .updated

def UserAction.body (action : UserAction) (resolvedBy : ResolvedBy) (body : Body) : Body :=
  match action with
  | .resolve => if resolvedBy = .jev then { body with resolutionLabel := some "Resolved by RDST" } else body
  | .reopen => { body with resolutionLabel := none, stillHappening := false }
  | .seen | .snooze | .dismiss => body

def Item.act (item : Item) (action : UserAction) (ts : Int) (snoozeUntil : Option Int) (resolvedBy : ResolvedBy) : Item :=
  { item with
    state := action.state
    updatedAt := ts
    resolvedAt := if action = .resolve then some ts else none
    resolvedBy := if action = .resolve then some resolvedBy else none
    body := action.body resolvedBy item.body
    dismissedAt := if action = .dismiss then some ts else item.dismissedAt
    snoozedUntil := if action = .snooze then snoozeUntil else none
    seenCount := item.seenCount + if action = .seen then 1 else 0
    reopenedCount := item.reopenedCount + if action = .reopen then 1 else 0
    dismissedReturned := if action = .reopen then 0 else item.dismissedReturned }

/-- Seeing a closed item acknowledges its recovery; the state stays closed. -/
def Item.acknowledge (item : Item) (ts : Int) : Item :=
  { item with body := { item.body with recoverySeenAt := some ts }, seenCount := item.seenCount + 1 }

/-- A user's or the code's verb on an item. -/
def actionItem (s : Store) (id : Nat) (action : UserAction) (ts : Int) (snoozeUntil : Option Int)
    (resolvedBy : ResolvedBy) (measuredRecovery : Bool) : Store :=
  match s.items.lookup id with
  | none => s
  | some row =>
    if action = .resolve ∧ resolvedBy ≠ .user ∧ row.state = .dismissed ∧ row.dismissedReturned ≠ 0 ∧
        ¬ (measuredRecovery = true ∧ resolvedBy = .code) then s
    else if action = .seen ∧ row.state.isOpen = false then
      if (row.body.recoverySeenAt.filter (· ≠ 0)).isSome = true then s
      else (s.setItem id fun item => item.acknowledge ts).log id ts .updated (.action .seen none none)
    else if action.state = row.state then s
    else (s.setItem id fun item => item.act action ts snoozeUntil resolvedBy).log id ts action.kind
      (.action action snoozeUntil (if action = .resolve then some resolvedBy else none))

/-- The filing that raises an item to a level. -/
def Item.promotion (row : Item) (delivery : Delivery) (ts : Int) : Filing where
  target := row.target
  type := row.type
  subject := row.subject
  severity := row.severity
  title := row.title
  body := row.body
  ts := ts
  delivery := some delivery

def promoteItem (s : Store) (id : Nat) (delivery : Delivery) (ts : Int) : Store :=
  match s.items.lookup id with
  | none => s
  | some row => if row.delivery = delivery then s else (upsertItem zone s (row.promotion delivery ts)).1

/-- Open items that a new rule covers move to the Muted tab right away. -/
def createMuteRule (s : Store) (rule : MuteRule) (now : Int) : Store :=
  if rule.queryKey = none ∧ rule.type = none then s
  else
    let id := s.rules.nextId
    { s with
      rules := s.rules.insert rule
      items := s.items.update fun _ item =>
        if item.mutedBy = none ∧ item.state.isOpen = true ∧
            ruleMatches rule item.target item.type (itemQueryKeys item.subject item.body) now = true then
          { item with mutedBy := some id }
        else item }

def deleteMuteRule (s : Store) (id : Nat) : Store :=
  if s.rules.lookup id = none then s
  else
    { s with
      rules := s.rules.delete fun other _ => other = id
      items := s.items.update fun _ item => if item.mutedBy = some id then { item with mutedBy := none } else item }

inductive Step
  | file (f : Filing)
  | promote (id : Nat) (delivery : Delivery) (ts : Int)
  | act (id : Nat) (action : UserAction) (ts : Int) (snoozeUntil : Option Int)
  | mute (rule : MuteRule) (now : Int)
  | unmute (id : Nat)
  | configure (target : String) (settings : Settings)

def step (s : Store) : Step → Store
  | .file f => (upsertItem zone s f).1
  | .promote id delivery ts => promoteItem zone s id delivery ts
  | .act id action ts snoozeUntil => actionItem s id action ts snoozeUntil .user false
  | .mute rule now => createMuteRule s rule now
  | .unmute id => deleteMuteRule s id
  | .configure target settings =>
    { s with settings := fun other => if other = target then settings else s.settings other }

end Store

section Spec

variable {zone : Zone} {s : Store} {f : Filing}

theorem find_lookup {target type subject : String} {id : Nat} {row : Item}
    (found : s.find target type subject = some (id, row)) :
    s.items.lookup id = some row ∧ row.isOf target type subject = true := by
  unfold Store.find at found
  have member := List.mem_of_mem_head? (Option.mem_def.mpr found)
  obtain ⟨inside, matching⟩ := List.mem_filter.mp ((List.mem_insertionSort Foremost).mp member)
  exact ⟨s.items.mem_rows_iff.mp inside, matching⟩

@[simp] theorem setItem_lookup (s : Store) (id other : Nat) (change : Item → Item) :
    (s.setItem id change).items.lookup other =
      (s.items.lookup other).map fun item => if other = id then change item else item := by
  simp [Store.setItem]

@[simp] theorem setItem_events (s : Store) (id : Nat) (change : Item → Item) : (s.setItem id change).events = s.events := rfl

@[simp] theorem setItem_rules (s : Store) (id : Nat) (change : Item → Item) : (s.setItem id change).rules = s.rules := rfl

@[simp] theorem setItem_settings (s : Store) (id : Nat) (change : Item → Item) :
    (s.setItem id change).settings = s.settings := rfl

@[simp] theorem log_items (s : Store) (id : Nat) (ts : Int) (kind : EventKind) (detail : EventDetail) :
    (s.log id ts kind detail).items = s.items := rfl

@[simp] theorem log_events (s : Store) (id : Nat) (ts : Int) (kind : EventKind) (detail : EventDetail) :
    (s.log id ts kind detail).events = s.events ++ [⟨id, ts, kind, detail⟩] := rfl

@[simp] theorem log_rules (s : Store) (id : Nat) (ts : Int) (kind : EventKind) (detail : EventDetail) :
    (s.log id ts kind detail).rules = s.rules := rfl

@[simp] theorem log_settings (s : Store) (id : Nat) (ts : Int) (kind : EventKind) (detail : EventDetail) :
    (s.log id ts kind detail).settings = s.settings := rfl

/-- The event of a push in the store that its filing has written. -/
def pushEvent (zone : Zone) (s : Store) (f : Filing) (id : Nat) : Event :=
  match s.skipped zone f with
  | some why => ⟨id, f.ts, .updated, .pushSkipped why⟩
  | none => ⟨id, f.ts, .notified, .empty⟩

theorem push_eq (s : Store) (f : Filing) (id : Nat) :
    s.push zone f id = { s with events := s.events ++ [pushEvent zone s f id] } := by
  unfold Store.push pushEvent
  cases s.skipped zone f <;> rfl

/-- What a filing leaves of its store: only its own item differs, and the events are those from before and its own. -/
structure Wrote (s : Store) (f : Filing) (id : Nat) (item : Item) (added : List Event) (after : Store) : Prop where
  items : ∀ other, after.items.lookup other = if other = id then some item else s.items.lookup other
  events : after.events = s.events ++ added
  rules : after.rules = s.rules
  settings : after.settings = s.settings
  own : ∀ event ∈ added, event.itemId = id ∧ event.ts = f.ts

/-- The events of a filing that wrote its row, in the store `base` with the row written. -/
def filingEvents (zone : Zone) (base : Store) (f : Filing) (id : Nat) (kind : EventKind) (detail : Body)
    (wantsPush : Bool) (final : Delivery) : List Event :=
  ⟨id, f.ts, kind, .filed detail⟩ ::
    if wantsPush = true ∧ final = .notify ∧ base.mutedBy f = none then
      [pushEvent zone (base.settled f id kind (.filed detail)) f id]
    else []

theorem mutedBy_congr {base : Store} (rules : base.rules = s.rules) (f : Filing) : base.mutedBy f = s.mutedBy f := by
  unfold Store.mutedBy Store.matchingRule
  rw [rules]

theorem filed_wrote (base : Store) {id : Nat} {kind : EventKind} {detail : Body} {wantsPush : Bool} {final : Delivery}
    {item : Item} (items : ∀ other, base.items.lookup other = if other = id then some item else s.items.lookup other)
    (events : base.events = s.events) (rules : base.rules = s.rules) (settings : base.settings = s.settings) :
    Wrote s f id { item with mutedBy := s.mutedBy f } (filingEvents zone base f id kind detail wantsPush final)
      (base.filed zone f id kind detail wantsPush final) := by
  rw [← mutedBy_congr rules f]
  have same_items : (base.filed zone f id kind detail wantsPush final).items =
      (base.setItem id fun item => { item with mutedBy := base.mutedBy f }).items := by
    unfold Store.filed
    simp only [push_eq]
    split <;> rfl
  constructor
  · intro other
    rw [same_items, setItem_lookup, items]
    by_cases same : other = id <;> simp [same]
  · unfold Store.filed filingEvents
    simp only [push_eq, ← events]
    split <;> simp [Store.settled]
  · rw [← rules]
    unfold Store.filed
    simp only [push_eq]
    split <;> rfl
  · rw [← settings]
    unfold Store.filed
    simp only [push_eq]
    split <;> rfl
  · intro event member
    unfold filingEvents at member
    rcases List.mem_cons.mp member with rfl | member
    · exact ⟨rfl, rfl⟩
    · split at member
      · rw [List.mem_singleton.mp member]
        unfold pushEvent
        split <;> exact ⟨rfl, rfl⟩
      · cases member

/-- A filing makes a new item, leaves its row but for the mute, or rewrites it. -/
theorem upsert_cases (zone : Zone) (s : Store) (f : Filing) :
    (s.find f.target f.type f.key = none ∧
      Wrote s f s.items.nextId { f.newItem with mutedBy := s.mutedBy f }
        (filingEvents zone { s with items := s.items.insert f.newItem } f s.items.nextId .created f.newBody true f.level)
        (upsertItem zone s f).1) ∨
    (∃ id row, s.find f.target f.type f.key = some (id, row) ∧ f.leaves row ∧
      Wrote s f id { row with mutedBy := s.mutedBy f } [] (upsertItem zone s f).1) ∨
    ∃ id row base, s.find f.target f.type f.key = some (id, row) ∧ ¬ f.leaves row ∧
      base = (s.setItem id fun item => { item with mutedBy := s.mutedBy f }).setItem id (f.rewrite row) ∧
      Wrote s f id (f.rewrite row { row with mutedBy := s.mutedBy f })
        (filingEvents zone base f id (f.outcome row).1 (f.detail row) (f.outcome row).2 (f.final row))
        (upsertItem zone s f).1 := by
  cases found : s.find f.target f.type f.key with
  | none =>
    left
    refine ⟨rfl, ?_⟩
    have result : (upsertItem zone s f).1 = Store.filed zone { s with items := s.items.insert f.newItem } f
        s.items.nextId .created f.newBody true f.level := by
      unfold upsertItem
      rw [found]
    rw [result]
    exact filed_wrote _ (fun other => s.items.lookup_insert f.newItem other) rfl rfl rfl
  | some placed =>
    right
    obtain ⟨id, row⟩ := placed
    have stored := (find_lookup found).1
    by_cases leaves : f.leaves row
    · left
      refine ⟨id, row, rfl, leaves, ?_⟩
      have result : (upsertItem zone s f).1 = s.setItem id fun item => { item with mutedBy := s.mutedBy f } := by
        unfold upsertItem
        simp only [found, if_pos leaves]
      rw [result]
      constructor
      · intro other
        rw [setItem_lookup]
        by_cases same : other = id
        · simp [same, stored]
        · simp [same]
      · simp
      · rfl
      · rfl
      · intro event member
        cases member
    · right
      refine ⟨id, row, _, rfl, leaves, rfl, ?_⟩
      have result : (upsertItem zone s f).1 = Store.filed zone
          ((s.setItem id fun item => { item with mutedBy := s.mutedBy f }).setItem id (f.rewrite row)) f id
          (f.outcome row).1 (f.detail row) (f.outcome row).2 (f.final row) := by
        unfold upsertItem
        simp only [found, if_neg leaves]
      have items : ∀ other, ((s.setItem id fun item => { item with mutedBy := s.mutedBy f }).setItem id
          (f.rewrite row)).items.lookup other =
            if other = id then some (f.rewrite row { row with mutedBy := s.mutedBy f }) else s.items.lookup other := by
        intro other
        rw [setItem_lookup, setItem_lookup]
        by_cases same : other = id
        · simp [same, stored]
        · simp [same]
      rw [result]
      exact filed_wrote _ items rfl rfl rfl

/-- What the count of a target's pushes reads of an item. -/
def Item.place (item : Item) : String × Bool := (item.target, item.countsToCap)

theorem isPush_congr {t : Store} {event : Event}
    (items : (t.items.lookup event.itemId).map Item.place = (s.items.lookup event.itemId).map Item.place)
    (target : String) : t.isPush target event = s.isPush target event := by
  unfold Store.isPush
  cases after : t.items.lookup event.itemId <;> cases before : s.items.lookup event.itemId <;>
    simp_all [Item.place]

theorem isPush_silent {event : Event} (silent : event.kind ≠ .notified) (target : String) :
    s.isPush target event = false := by
  simp [Store.isPush, silent]

theorem pushed_congr {t : Store} {quiet : List Event} (events : t.events = s.events ++ quiet)
    (silent : ∀ event ∈ quiet, event.kind ≠ .notified)
    (items : ∀ event ∈ s.events,
      (t.items.lookup event.itemId).map Item.place = (s.items.lookup event.itemId).map Item.place)
    (target : String) (bounds : Int × Int) : t.pushed target bounds = s.pushed target bounds := by
  have none_late : quiet.countP (fun event => t.isPush target event && (decide (bounds.1 ≤ event.ts) &&
      decide (event.ts < bounds.2))) = 0 := by
    rw [List.countP_eq_zero]
    intro event member
    simp [isPush_silent (silent event member)]
  unfold Store.pushed
  rw [events, List.countP_append, none_late, Nat.add_zero]
  apply List.countP_congr
  intro event member
  rw [isPush_congr (items event member)]

theorem outcome_kind (f : Filing) (row : Item) : (f.outcome row).1 ≠ .notified := by
  unfold Filing.outcome
  split_ifs <;> simp

/-- A push among the events of a filing went through every check. -/
theorem filingEvents_notified {base : Store} {id : Nat} {kind : EventKind} {detail : Body} {wantsPush : Bool}
    {final : Delivery} (loud : kind ≠ .notified) {event : Event}
    (member : event ∈ filingEvents zone base f id kind detail wantsPush final) (push : event.kind = .notified) :
    wantsPush = true ∧ final = .notify ∧ base.mutedBy f = none ∧
      (base.settled f id kind (.filed detail)).skipped zone f = none := by
  unfold filingEvents at member
  rcases List.mem_cons.mp member with rfl | member
  · exact absurd push loud
  · split at member
    case isTrue wants =>
      refine ⟨wants.1, wants.2.1, wants.2.2, ?_⟩
      rw [List.mem_singleton.mp member] at push
      unfold pushEvent at push
      split at push
      · cases push
      · assumption
    case isFalse => cases member

theorem skipped_congr {t : Store} {quiet : List Event} (events : t.events = s.events ++ quiet)
    (silent : ∀ event ∈ quiet, event.kind ≠ .notified)
    (items : ∀ event ∈ s.events,
      (t.items.lookup event.itemId).map Item.place = (s.items.lookup event.itemId).map Item.place)
    (settings : t.settings = s.settings) : t.skipped zone f = s.skipped zone f := by
  unfold Store.skipped
  rw [pushed_congr events silent items, settings]

/-- What becomes of a push is settled by the store before the filing of a row. -/
theorem skipped_rewritten {base : Store} {id : Nat} {row : Item} {kind : EventKind} {detail : EventDetail}
    (stored : s.items.lookup id = some row) (loud : kind ≠ .notified)
    (written : base = (s.setItem id fun item => { item with mutedBy := s.mutedBy f }).setItem id (f.rewrite row)) :
    (base.settled f id kind detail).skipped zone f = s.skipped zone f := by
  unfold Store.settled
  refine skipped_congr (show _ = s.events ++ [⟨id, f.ts, kind, detail⟩] from ?_) ?_ ?_ ?_
  · simp [written]
  · simpa using loud
  · intro event _
    simp only [setItem_lookup, log_items, written]
    by_cases same : event.itemId = id
    · simp only [same, stored, Option.map_some, if_true]
      rfl
    · simp [same]
  · simp [written]

/-- Every event is one of an item. -/
def Store.Linked (s : Store) : Prop := ∀ event ∈ s.events, (s.items.lookup event.itemId).isSome = true

theorem skipped_created (linked : s.Linked) {kind : EventKind} {detail : EventDetail} (loud : kind ≠ .notified) :
    (Store.settled { s with items := s.items.insert f.newItem } f s.items.nextId kind detail).skipped zone f =
      s.skipped zone f := by
  unfold Store.settled
  refine skipped_congr (show _ = s.events ++ [⟨s.items.nextId, f.ts, kind, detail⟩] from rfl) ?_ ?_ ?_
  · simpa using loud
  · intro event member
    have other : event.itemId ≠ s.items.nextId := by
      intro same
      have there := linked event member
      rw [same, s.items.lookup_nextId] at there
      cases there
    rw [setItem_lookup, log_items, Table.lookup_insert]
    simp [other]
  · rfl

/-- A verb changes its own item, but not where it belongs, and does not push. -/
structure Acted (s : Store) (id : Nat) (after : Store) : Prop where
  others : ∀ other, other ≠ id → after.items.lookup other = s.items.lookup other
  place : (after.items.lookup id).map Item.place = (s.items.lookup id).map Item.place
  events : ∃ added, after.events = s.events ++ added ∧ ∀ event ∈ added, event.itemId = id ∧ event.kind ≠ .notified ∧
    (s.items.lookup id).isSome = true
  rules : after.rules = s.rules
  settings : after.settings = s.settings

theorem Acted.refl (s : Store) (id : Nat) : Acted s id s where
  others := fun _ _ => rfl
  place := rfl
  events := ⟨[], by simp, by simp⟩
  rules := rfl
  settings := rfl

theorem setItem_acted {id : Nat} {row : Item} (stored : s.items.lookup id = some row) {change : Item → Item} {ts : Int} {kind : EventKind} {detail : EventDetail}
    (place : ∀ item, (change item).place = item.place) (loud : kind ≠ .notified) :
    Acted s id ((s.setItem id change).log id ts kind detail) where
  others := by
    intro other different
    simp [different]
  place := by
    rw [log_items, setItem_lookup]
    cases s.items.lookup id <;> simp [place]
  events := ⟨[⟨id, ts, kind, detail⟩], rfl, by simpa [stored] using loud⟩
  rules := rfl
  settings := rfl

theorem action_acted (s : Store) (id : Nat) (action : UserAction) (ts : Int) (snoozeUntil : Option Int)
    (resolvedBy : ResolvedBy) (measuredRecovery : Bool) :
    Acted s id (actionItem s id action ts snoozeUntil resolvedBy measuredRecovery) := by
  unfold actionItem
  cases stored : s.items.lookup id with
  | none => exact Acted.refl s id
  | some row =>
    simp only []
    split
    · exact Acted.refl s id
    · split
      · split
        · exact Acted.refl s id
        · exact setItem_acted stored (fun _ => rfl) (by simp)
      · split
        · exact Acted.refl s id
        · exact setItem_acted stored (fun _ => rfl) (by cases action <;> simp [UserAction.kind])

def Item.unmuted (item : Item) : Item := { item with mutedBy := none }

/-- A change of the rules changes the mutes of items only. -/
structure Remuted (s after : Store) : Prop where
  items : ∀ id, (after.items.lookup id).map Item.unmuted = (s.items.lookup id).map Item.unmuted
  events : after.events = s.events
  settings : after.settings = s.settings

theorem createMuteRule_remuted (s : Store) (rule : MuteRule) (now : Int) : Remuted s (createMuteRule s rule now) := by
  unfold createMuteRule
  split
  · exact ⟨fun _ => rfl, rfl, rfl⟩
  · refine ⟨fun id => ?_, rfl, rfl⟩
    rw [Table.lookup_update, Option.map_map]
    congr 1
    funext item
    rw [Function.comp_apply]
    split <;> rfl

theorem deleteMuteRule_remuted (s : Store) (rule : Nat) : Remuted s (deleteMuteRule s rule) := by
  unfold deleteMuteRule
  split
  · exact ⟨fun _ => rfl, rfl, rfl⟩
  · refine ⟨fun id => ?_, rfl, rfl⟩
    rw [Table.lookup_update, Option.map_map]
    congr 1
    funext item
    rw [Function.comp_apply]
    split <;> rfl

end Spec

end Rdst.Inbox
