import Rdst.Inbox.Snooze

namespace Rdst.Inbox

open RowTable LocalTime Machine

section Budget

variable (zone : Zone)

/-- The capped pushes of a target on a day of the local calendar. -/
def dayPushes (s : Store) (target : String) (day : Int) : Nat :=
  s.events.countP fun event => s.isPush target event && decide (zone.day event.ts = day)

/-- What the item asks for before it may push: no rule matches it, its event is on, and the hours are not quiet. -/
def Allowed (s : Store) (item : Item) (ts : Int) : Prop :=
  s.matchingRule item.target item.type (itemQueryKeys item.subject item.body) ts = none ∧
    (s.settings item.target).notifyEvents (notifyEvent item.type item.subject) = true ∧
    (notifyEvent item.type item.subject ≠ .databaseUnreachable →
      inQuietHours zone (s.settings item.target).quietHours ts = false)

/-- Whatever item pushes in the step may. -/
def OnlyAllowed (s : Store) (step : Step) : Prop :=
  ∀ id item, (Inbox.step zone s step).items.lookup id = some item →
    s.notifications id < (Inbox.step zone s step).notifications id → ∃ ts ∈ step.time, Allowed zone s item ts

/-- The filing that a step makes. -/
def Step.filing (s : Store) : Step → Option Filing
  | .file f => some f
  | .promote id delivery ts =>
    (s.items.lookup id).bind fun row => if row.delivery = delivery then none else some (row.promotion delivery ts)
  | _ => none

/-- The daily cap of every filing is the one of its target. -/
def HasCap (cap : String → Nat) (s : Store) (step : Step) : Prop :=
  ∀ f ∈ step.filing s, f.notifyCap.getD (s.settings f.target).pushCap = cap f.target

/-- The pushes of the local day of a filing lie within the bounds that are counted for it, and an item that is found
by the query of its body has the event and the queries that its own subject gives. -/
def CountsAlike (s : Store) (step : Step) : Prop :=
  ∀ f ∈ step.filing s,
    (∀ event ∈ s.events, s.isPush f.target event = true → zone.day event.ts = zone.day f.ts →
      (localDayBounds zone f.ts).1 ≤ event.ts ∧ event.ts < (localDayBounds zone f.ts).2) ∧
    ∀ row ∈ s.find f.target f.type f.key, notifyEvent f.type row.2.subject = notifyEvent f.type f.key ∧
      ∀ key ∈ itemQueryKeys row.2.subject f.body, key ∈ itemQueryKeys f.key f.body

instance (cap : String → Nat) (s : Store) (step : Step) : Decidable (HasCap cap s step) :=
  inferInstanceAs (Decidable (∀ f ∈ step.filing s, _))

instance (s : Store) (step : Step) : Decidable (CountsAlike zone s step) :=
  inferInstanceAs (Decidable (∀ f ∈ step.filing s, _ ∧ _))

end Budget

section Filing

variable {zone : Zone} {s : Store} {f : Filing}

theorem itemQueryKeys_congr {subject : String} {body other : Body} (key : body.queryKey = other.queryKey)
    (keys : body.queryKeys = other.queryKeys) (episode : body.episodeQueryKeys = other.episodeQueryKeys) :
    itemQueryKeys subject body = itemQueryKeys subject other := by
  unfold itemQueryKeys
  rw [key, keys, episode]

theorem newBody_keys (f : Filing) (subject : String) :
    itemQueryKeys subject f.newBody = itemQueryKeys subject f.body := by
  unfold Filing.newBody
  split <;> exact itemQueryKeys_congr rfl rfl rfl

theorem rowBody_keys (f : Filing) (row : Item) (subject : String) :
    itemQueryKeys subject (f.rowBody row) = itemQueryKeys subject f.body := by
  unfold Filing.rowBody
  split
  · rfl
  · split <;> exact itemQueryKeys_congr rfl rfl rfl

theorem detail_keys (f : Filing) (row : Item) (subject : String) :
    itemQueryKeys subject (f.detail row) = itemQueryKeys subject f.body := by
  rw [← rowBody_keys f row]
  unfold Filing.detail
  split <;> exact itemQueryKeys_congr rfl rfl rfl

/-- A rule that matches fewer queries matches more of them. -/
theorem matchingRule_none_of_subset {target type : String} {keys more : List String} {ts : Int}
    (subset : ∀ key ∈ keys, key ∈ more) (unmatched : s.matchingRule target type more ts = none) :
    s.matchingRule target type keys ts = none := by
  unfold Store.matchingRule at unmatched ⊢
  rw [Option.map_eq_none_iff, List.find?_eq_none] at unmatched ⊢
  intro rule member matches_
  apply unmatched rule member
  unfold ruleMatches at matches_ ⊢
  simp only [Bool.and_eq_true] at matches_ ⊢
  obtain ⟨⟨⟨target, type⟩, query⟩, time⟩ := matches_
  refine ⟨⟨⟨target, type⟩, ?_⟩, time⟩
  cases key : rule.2.queryKey with
  | none => rfl
  | some key' =>
    rw [key] at query
    simpa using subset key' (by simpa using query)

/-- A filing that goes through every check is of an item that may push, and under the cap where the cap counts. -/
theorem skipped_spec (unskipped : s.skipped zone f = none) :
    (s.settings f.target).notifyEvents (notifyEvent f.type f.key) = true ∧
      (notifyEvent f.type f.key ≠ .databaseUnreachable →
        inQuietHours zone (s.settings f.target).quietHours f.ts = false ∧
          s.pushed f.target (localDayBounds zone f.ts) < f.notifyCap.getD (s.settings f.target).pushCap) := by
  unfold Store.skipped at unskipped
  simp only [] at unskipped
  split at unskipped
  · cases unskipped
  case isFalse off =>
    split at unskipped
    · cases unskipped
    case isFalse quiet =>
      split at unskipped
      case isTrue under =>
        refine ⟨by simpa using off, fun other => ⟨?_, under.resolve_left other⟩⟩
        by_contra hours
        exact quiet ⟨other, by simpa using hours⟩
      case isFalse => cases unskipped

/-- What a filing adds: no push, or one of its item as the last of its events. -/
structure Notifies (zone : Zone) (s : Store) (f : Filing) (id : Nat) (item : Item) (added : List Event) : Prop where
  target : item.target = f.target
  type : item.type = f.type
  kept : ∀ row, s.items.lookup id = some row → row.place = item.place
  once : (added.countP fun event => event.kind = .notified) ≤ 1
  checked : ∀ event ∈ added, event.kind = .notified → s.mutedBy f = none ∧ s.skipped zone f = none
  subject : item.subject = f.key ∨ ∃ row ∈ s.find f.target f.type f.key, item.subject = row.2.subject
  keys : ∀ event ∈ added, event.kind = .notified → itemQueryKeys item.subject item.body = itemQueryKeys item.subject f.body

theorem filingEvents_once {base : Store} {id : Nat} {kind : EventKind} {detail : Body} {wantsPush : Bool}
    {final : Delivery} (loud : kind ≠ .notified) :
    ((filingEvents zone base f id kind detail wantsPush final).countP fun event => event.kind = .notified) ≤ 1 := by
  unfold filingEvents
  rw [List.countP_cons]
  have first : (if decide (kind = .notified) = true then 1 else 0) = 0 := by simp [loud]
  split
  · rw [first]
    exact List.countP_le_length
  · simp [loud]

variable (zone) (f) in
/-- A filing writes one item and adds its events. -/
theorem upsert_notifies (linked : s.Linked) : ∃ id item added, Wrote s f id item added (upsertItem zone s f).1 ∧
    Notifies zone s f id item added := by
  rcases upsert_cases zone s f with ⟨-, wrote⟩ | ⟨id, row, found, -, wrote⟩ | ⟨id, row, base, found, -, written, wrote⟩
  · refine ⟨_, _, _, wrote, rfl, rfl, ?_, filingEvents_once (by simp), ?_, .inl rfl, fun _ _ _ => newBody_keys f _⟩
    · intro row stored
      rw [s.items.lookup_nextId] at stored
      cases stored
    · intro event member push
      obtain ⟨-, -, unmuted, unskipped⟩ := filingEvents_notified (by simp) member push
      rw [skipped_created linked (by simp)] at unskipped
      exact ⟨unmuted, unskipped⟩
  · obtain ⟨stored, matching⟩ := find_lookup found
    simp only [Item.isOf, Bool.and_eq_true, decide_eq_true_eq] at matching
    refine ⟨_, _, _, wrote, matching.1.1, matching.1.2, ?_, by simp, by simp, .inr ⟨_, found, rfl⟩, by simp⟩
    intro other stored'
    cases stored.symm.trans stored'
    rfl
  · obtain ⟨stored, matching⟩ := find_lookup found
    simp only [Item.isOf, Bool.and_eq_true, decide_eq_true_eq] at matching
    refine ⟨_, _, _, wrote, matching.1.1, matching.1.2, ?_, filingEvents_once (outcome_kind f row), ?_,
      .inr ⟨_, found, rfl⟩, fun _ _ _ => detail_keys f row _⟩
    · intro other stored'
      cases stored.symm.trans stored'
      rfl
    · intro event member push
      obtain ⟨-, -, unmuted, unskipped⟩ := filingEvents_notified (outcome_kind f row) member push
      rw [skipped_rewritten stored (outcome_kind f row) written] at unskipped
      have same_mute : base.mutedBy f = s.mutedBy f := mutedBy_congr (by simp [written]) f
      exact ⟨same_mute ▸ unmuted, unskipped⟩

end Filing

section Run

variable {zone : Zone} {s : Store} {f : Filing} {cap : String → Nat}

/-- The invariant of the run. -/
structure Budgeted (zone : Zone) (cap : String → Nat) (s : Store) : Prop where
  linked : s.Linked
  within : ∀ target day, dayPushes zone s target day ≤ cap target

theorem dayPushes_append {t : Store} {added : List Event} (events : t.events = s.events ++ added)
    (items : ∀ event ∈ s.events,
      (t.items.lookup event.itemId).map Item.place = (s.items.lookup event.itemId).map Item.place)
    (target : String) (day : Int) : dayPushes zone t target day = dayPushes zone s target day +
      added.countP fun event => t.isPush target event && decide (zone.day event.ts = day) := by
  unfold dayPushes
  rw [events, List.countP_append]
  congr 1
  apply List.countP_congr
  intro event member
  rw [isPush_congr (items event member)]

theorem Budgeted.quiet (budgeted : Budgeted zone cap s) {t : Store} {added : List Event}
    (events : t.events = s.events ++ added)
    (silent : ∀ event ∈ added, event.kind ≠ .notified ∧ (s.items.lookup event.itemId).isSome = true)
    (items : ∀ id, (t.items.lookup id).map Item.place = (s.items.lookup id).map Item.place) : Budgeted zone cap t := by
  have known : ∀ id, (t.items.lookup id).isSome = (s.items.lookup id).isSome := by
    intro id
    have here := congrArg Option.isSome (items id)
    simpa using here
  constructor
  · intro event member
    rw [events] at member
    rw [known]
    exact (List.mem_append.mp member).elim (budgeted.linked event) fun late => (silent event late).2
  · intro target day
    have none_late : (added.countP fun event => t.isPush target event && decide (zone.day event.ts = day)) = 0 := by
      rw [List.countP_eq_zero]
      intro event member
      simp [isPush_silent (silent event member).1]
    rw [dayPushes_append events (fun event _ => items event.itemId), none_late]
    exact budgeted.within target day

/-- The event of the item is the one of the filing. -/
theorem Notifies.same_event {id : Nat} {item : Item} {added : List Event} (notifies : Notifies zone s f id item added)
    (alike : ∀ row ∈ s.find f.target f.type f.key, notifyEvent f.type row.2.subject = notifyEvent f.type f.key) :
    notifyEvent item.type item.subject = notifyEvent f.type f.key := by
  rw [notifies.type]
  rcases notifies.subject with same | ⟨row, found, same⟩
  · rw [same]
  · rw [same, alike row found]

theorem Budgeted.file (budgeted : Budgeted zone cap s)
    (hasCap : f.notifyCap.getD (s.settings f.target).pushCap = cap f.target)
    (counted : ∀ event ∈ s.events, s.isPush f.target event = true → zone.day event.ts = zone.day f.ts →
      (localDayBounds zone f.ts).1 ≤ event.ts ∧ event.ts < (localDayBounds zone f.ts).2)
    (alike : ∀ row ∈ s.find f.target f.type f.key, notifyEvent f.type row.2.subject = notifyEvent f.type f.key) :
    Budgeted zone cap (upsertItem zone s f).1 := by
  obtain ⟨id, item, added, wrote, notifies⟩ := upsert_notifies zone f budgeted.linked
  have items : ∀ event ∈ s.events, ((upsertItem zone s f).1.items.lookup event.itemId).map Item.place =
      (s.items.lookup event.itemId).map Item.place := by
    intro event member
    rw [wrote.items]
    by_cases same : event.itemId = id
    · obtain ⟨row, stored⟩ := Option.isSome_iff_exists.mp (budgeted.linked event member)
      rw [if_pos same, stored, Option.map_some, Option.map_some, notifies.kept row (same ▸ stored)]
    · rw [if_neg same]
  constructor
  · intro event member
    rw [wrote.items]
    by_cases same : event.itemId = id
    · rw [if_pos same]
      rfl
    · rw [wrote.events] at member
      rcases List.mem_append.mp member with early | late
      · rw [if_neg same]
        exact budgeted.linked event early
      · exact absurd (wrote.own event late).1 same
  · intro target day
    rw [dayPushes_append wrote.events items]
    have few : (added.countP fun event => (upsertItem zone s f).1.isPush target event &&
        decide (zone.day event.ts = day)) ≤ 1 := by
      refine (List.countP_mono_left fun event _ push => ?_).trans notifies.once
      simp only [Store.isPush, Bool.and_eq_true] at push
      exact push.1.1
    rcases Nat.eq_zero_or_pos (added.countP fun event => (upsertItem zone s f).1.isPush target event &&
        decide (zone.day event.ts = day)) with silent | pushed
    · rw [silent]
      exact budgeted.within target day
    · -- A capped push of the filing itself: the count before it was under the cap.
      obtain ⟨event, member, push⟩ := List.countP_pos_iff.mp pushed
      obtain ⟨own, time⟩ := wrote.own event member
      simp only [Store.isPush, Bool.and_eq_true, decide_eq_true_eq] at push
      obtain ⟨⟨notified, counts⟩, today⟩ := push
      rw [wrote.items, if_pos own] at counts
      simp only [Option.any_some, Bool.and_eq_true, decide_eq_true_eq] at counts
      obtain ⟨here, capped⟩ := counts
      have capped_event : notifyEvent f.type f.key ≠ .databaseUnreachable := by
        rw [← notifies.same_event alike]
        intro unreachable
        unfold notifyEvent at unreachable
        unfold Item.countsToCap at capped
        split_ifs at unreachable with issue lost
        simp [issue, lost] at capped
      obtain ⟨-, unskipped⟩ := notifies.checked event member notified
      have under := ((skipped_spec unskipped).2 capped_event).2
      have today_counted : dayPushes zone s target day ≤ s.pushed f.target (localDayBounds zone f.ts) := by
        apply List.countP_mono_left
        intro early inside day_push
        simp only [Bool.and_eq_true, decide_eq_true_eq] at day_push ⊢
        have in_target : s.isPush f.target early = true := by
          rw [← notifies.target, here]
          exact day_push.1
        have same_day : zone.day early.ts = zone.day f.ts := by
          rw [day_push.2, ← today, time]
        exact ⟨in_target, counted early inside in_target same_day⟩
      have same_cap : cap target = cap f.target := by rw [← notifies.target, here]
      omega

/-- The item of a filing that pushes may. -/
theorem file_allowed (linked : s.Linked)
    (alike : ∀ row ∈ s.find f.target f.type f.key, notifyEvent f.type row.2.subject = notifyEvent f.type f.key ∧
      ∀ key ∈ itemQueryKeys row.2.subject f.body, key ∈ itemQueryKeys f.key f.body)
    {id : Nat} {item : Item} (stored : (upsertItem zone s f).1.items.lookup id = some item)
    (more : s.notifications id < (upsertItem zone s f).1.notifications id) : Allowed zone s item f.ts := by
  obtain ⟨other, item', added, wrote, notifies⟩ := upsert_notifies zone f linked
  have pushed : 0 < added.countP fun event => event.kind = .notified && event.itemId = id := by
    unfold Store.notifications at more
    rw [wrote.events, List.countP_append] at more
    omega
  obtain ⟨event, member, push⟩ := List.countP_pos_iff.mp pushed
  simp only [Bool.and_eq_true, decide_eq_true_eq] at push
  obtain ⟨own, -⟩ := wrote.own event member
  have same : id = other := push.2.symm.trans own
  rw [wrote.items, if_pos same] at stored
  cases stored
  obtain ⟨unmuted, unskipped⟩ := notifies.checked event member push.1
  obtain ⟨on, quiet⟩ := skipped_spec unskipped
  have same_event := notifies.same_event fun row found => (alike row found).1
  refine ⟨?_, ?_, ?_⟩
  · rw [notifies.target, notifies.type, notifies.keys event member push.1]
    apply matchingRule_none_of_subset _ unmuted
    rcases notifies.subject with subject | ⟨row, found, subject⟩
    · rw [subject]
      exact fun _ inside => inside
    · rw [subject]
      exact (alike row found).2
  · rw [same_event, notifies.target]
    exact on
  · rw [same_event, notifies.target]
    exact fun other => (quiet other).1

variable (zone) in
/-- A step without a filing adds no push and moves no item. -/
theorem quiet_step {step : Step} (none_filed : step.filing s = none) : ∃ added, (Inbox.step zone s step).events =
    s.events ++ added ∧ (∀ event ∈ added, event.kind ≠ .notified ∧ (s.items.lookup event.itemId).isSome = true) ∧
    ∀ id, ((Inbox.step zone s step).items.lookup id).map Item.place = (s.items.lookup id).map Item.place := by
  have same : ∀ t : Store, t = s → ∃ added, t.events = s.events ++ added ∧
      (∀ event ∈ added, event.kind ≠ .notified ∧ (s.items.lookup event.itemId).isSome = true) ∧
      ∀ id, (t.items.lookup id).map Item.place = (s.items.lookup id).map Item.place := by
    rintro t rfl
    exact ⟨[], by simp, by simp, fun _ => rfl⟩
  have remuted : ∀ t, Remuted s t → ∃ added, t.events = s.events ++ added ∧
      (∀ event ∈ added, event.kind ≠ .notified ∧ (s.items.lookup event.itemId).isSome = true) ∧
      ∀ id, (t.items.lookup id).map Item.place = (s.items.lookup id).map Item.place := by
    intro t remuted
    refine ⟨[], by simp [remuted.events], by simp, fun id => ?_⟩
    have here := congrArg (Option.map Item.place) (remuted.items id)
    rw [Option.map_map, Option.map_map] at here
    exact here
  cases step with
  | file f => cases none_filed
  | promote id delivery ts =>
    apply same
    show promoteItem zone s id delivery ts = s
    unfold promoteItem
    cases stored : s.items.lookup id with
    | none => rfl
    | some row =>
      by_cases level : row.delivery = delivery
      · simp [level]
      · simp [Step.filing, stored, level] at none_filed
  | act id action ts snoozeUntil =>
    have acted := action_acted s id action ts snoozeUntil .user false
    obtain ⟨added, events, own⟩ := acted.events
    refine ⟨added, events, ?_, ?_⟩
    · intro event member
      obtain ⟨here, silent, known⟩ := own event member
      exact ⟨silent, here ▸ known⟩
    · intro other
      by_cases here : other = id
      · rw [here]
        exact acted.place
      · exact congrArg (Option.map Item.place) (acted.others other here)
  | mute rule now => exact remuted _ (createMuteRule_remuted s rule now)
  | unmute rule => exact remuted _ (deleteMuteRule_remuted s rule)
  | configure target settings => exact ⟨[], by simp [Inbox.step], by simp, fun _ => rfl⟩

variable (zone) in
theorem step_of_filing {step : Step} {f : Filing} (filed : step.filing s = some f) :
    Inbox.step zone s step = (upsertItem zone s f).1 ∧ f.ts ∈ step.time := by
  cases step with
  | file g =>
    cases filed
    exact ⟨rfl, rfl⟩
  | promote id delivery ts =>
    unfold Step.filing at filed
    obtain ⟨row, stored, filed⟩ := Option.bind_eq_some_iff.mp filed
    split at filed
    case isTrue => cases filed
    case isFalse other =>
      cases filed
      refine ⟨?_, rfl⟩
      show promoteItem zone s id delivery ts = _
      unfold promoteItem
      simp [stored, other]
  | act id action ts snoozeUntil => cases filed
  | mute rule now => cases filed
  | unmute rule => cases filed
  | configure target settings => cases filed

theorem Budgeted.step {step : Step} (budgeted : Budgeted zone cap s) (hasCap : HasCap cap s step)
    (alike : CountsAlike zone s step) : Budgeted zone cap (Inbox.step zone s step) ∧ OnlyAllowed zone s step := by
  cases filed : step.filing s with
  | none =>
    obtain ⟨added, events, silent, items⟩ := quiet_step zone filed
    refine ⟨budgeted.quiet events silent items, fun id item _ more => ?_⟩
    rw [notifications_append events fun event member loud => absurd loud (silent event member).1] at more
    exact absurd more (Nat.lt_irrefl _)
  | some f =>
    obtain ⟨result, time⟩ := step_of_filing zone filed
    obtain ⟨counted, same⟩ := alike f filed
    constructor
    · rw [result]
      exact budgeted.file (hasCap f filed) counted fun row found => (same row found).1
    · intro id item stored more
      rw [result] at stored more
      exact ⟨f.ts, time, file_allowed budgeted.linked same stored more⟩

/-- With fixed caps, no local day of a target has more capped pushes than its cap, and no item pushes that may not, in
every run whose filings count alike. -/
theorem pushes_within_budget (zone : Zone) (cap : String → Nat) (steps : List Step)
    (fixed : EveryTurn (step zone) (HasCap cap) Store.new steps)
    (alike : EveryTurn (step zone) (CountsAlike zone) Store.new steps) :
    (∀ target day, dayPushes zone (steps.foldl (step zone) Store.new) target day ≤ cap target) ∧
      EveryTurn (step zone) (OnlyAllowed zone) Store.new steps := by
  have start : Budgeted zone cap Store.new := by
    constructor
    · intro event member
      cases member
    · intro target day
      exact Nat.zero_le _
  have both := fixed.and alike
  constructor
  · have final : Budgeted zone cap (steps.foldl (step zone) Store.new) :=
      foldl_invariant (Budgeted zone cap) (fun s step _ ok budgeted => (budgeted.step ok.1 ok.2).1) both start
    exact final.within
  · exact everyTurn_of_invariant (Budgeted zone cap) (fun s step ok budgeted => (budgeted.step ok.1 ok.2).1)
      (fun s step ok budgeted => (budgeted.step ok.1 ok.2).2) both start

/-- One push at most on a day. -/
def onePush : String → Nat := fun _ => 1

def cappedFiling (subject : String) (ts : Int) : Filing where
  target := "db"
  type := "slow_query"
  subject := subject
  severity := 1
  title := "slow"
  body := {}
  ts := ts
  notifyCap := some 1

/-- No quiet hours. -/
def loudSettings : Settings := { Settings.default with quietHours := (0, 0) }

theorem pushes_within_budget_noon :
    let steps := [.file (cappedFiling "one" 43200), .file (cappedFiling "two" 43300)]
    (∀ target day, dayPushes (Zone.fixed 0) (steps.foldl (step (Zone.fixed 0)) Store.new) target day ≤ onePush target) ∧
      EveryTurn (step (Zone.fixed 0)) (OnlyAllowed (Zone.fixed 0)) Store.new steps :=
  pushes_within_budget (Zone.fixed 0) onePush [.file (cappedFiling "one" 43200), .file (cappedFiling "two" 43300)]
    (by decide +kernel) (by decide +kernel)

/-- The Azores on the night of 27 October 2024: at one o'clock the clock goes back to midnight. -/
def azores : Zone := ⟨fun t => if t < 1729990800 then t else t - 3600⟩

def subjectOfSetup (subject : String) (body : Body) (delivery : Delivery) (ts : Int) : Filing where
  target := "db"
  type := monitoringIssue
  subject := subject
  severity := 1
  title := "setup"
  body := body
  ts := ts
  notifyCap := some 1
  delivery := some delivery

/-- The first midnight's pushes are not counted after the second one; and an item that is found as the lost connection
pushes in its quiet hours. -/
theorem midnight_comes_twice :
    dayPushes azores ([.configure "db" loudSettings, .file (cappedFiling "one" 1729989000),
      .file (cappedFiling "two" 1729992600)].foldl (step azores) Store.new) "db" 20023 = 2 ∧
    ¬ EveryTurn (step (Zone.fixed 0)) (OnlyAllowed (Zone.fixed 0)) Store.new
      [.file (subjectOfSetup "setup" { queryKey := some lostConnection, queryKeys := ["setup"] } .inbox 43200),
        .file (subjectOfSetup lostConnection {} .notify 84600)] := by
  constructor
  · decide +kernel
  · rintro ⟨-, allowed, -⟩
    obtain ⟨ts, time, -, -, quiet⟩ := allowed 1 _ rfl (by decide +kernel)
    cases time
    have hours := quiet (by decide +kernel)
    revert hours
    decide +kernel

end Run

end Rdst.Inbox
