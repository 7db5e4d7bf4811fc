import Rdst.Lib.Run
import Rdst.Inbox.Connection

namespace Rdst.Inbox

open RowTable LocalTime Assoc Machine

/-- An open item of the outage. -/
def Alerts (s : Store) (target : String) : Prop :=
  ∃ row ∈ s.items.rows, row.2.isLost target = true ∧ row.2.state.isOpen = true

/-- No item of an outage stands in the way of a filing: it is open, or the code has resolved it. -/
def Fileable (s : Store) (target : String) : Prop :=
  ∀ row ∈ s.items.rows, row.2.isLost target = true →
    row.2.state.isOpen = true ∨ row.2.state = .resolved ∧ row.2.resolvedBy = some .code

instance (s : Store) (target : String) : Decidable (Alerts s target) :=
  inferInstanceAs (Decidable (∃ row ∈ s.items.rows, _ ∧ _))

instance (s : Store) (target : String) : Decidable (Fileable s target) :=
  inferInstanceAs (Decidable (∀ row ∈ s.items.rows, _ → _))

/-- No item is about a query. -/
def Plain (s : Store) : Prop := ∀ row ∈ s.items.rows, row.2.body.queryKey = none

/-- What filings and updates of bodies leave to the outages. -/
structure Keeps (s after : Store) : Prop where
  alerts : ∀ target, Alerts s target → Alerts after target
  fileable : ∀ target, Fileable s target → Fileable after target
  plain : Plain s → Plain after

theorem Keeps.refl (s : Store) : Keeps s s := ⟨fun _ same => same, fun _ same => same, fun same => same⟩

theorem Keeps.trans {s t u : Store} (first : Keeps s t) (second : Keeps t u) : Keeps s u where
  alerts target here := second.alerts target (first.alerts target here)
  fileable target here := second.fileable target (first.fileable target here)
  plain here := second.plain (first.plain here)

/-- A row of the table after every item is itself or the one that was written. -/
theorem rows_of_written {s after : Store} {id : Nat} {item : Item}
    (items : ∀ other, after.items.lookup other = if other = id then some item else s.items.lookup other)
    {row : Nat × Item} (member : row ∈ after.items.rows) : row = (id, item) ∨ row.1 ≠ id ∧ row ∈ s.items.rows := by
  have here := after.items.mem_rows_iff.mp member
  rw [items] at here
  by_cases same : row.1 = id
  · rw [if_pos same, Option.some.injEq] at here
    exact .inl (Prod.ext same here.symm)
  · rw [if_neg same] at here
    exact .inr ⟨same, s.items.mem_rows_iff.mpr here⟩

theorem keeps_of_written {s after : Store} {id : Nat} {item : Item}
    (items : ∀ other, after.items.lookup other = if other = id then some item else s.items.lookup other)
    (kept : ∀ row, s.items.lookup id = some row → row.state.isOpen = true →
      item.state.isOpen = true ∧ ∀ target, row.isLost target = true → item.isLost target = true)
    (fileable : ∀ target, item.isLost target = true → Fileable s target →
      item.state.isOpen = true ∨ item.state = .resolved ∧ item.resolvedBy = some .code)
    (plain : Plain s → item.body.queryKey = none) : Keeps s after where
  alerts := by
    rintro target ⟨row, member, lost, isOpen⟩
    by_cases same : row.1 = id
    · obtain ⟨still, place⟩ := kept row.2 (same ▸ s.items.mem_rows_iff.mp member) isOpen
      exact ⟨(id, item), after.items.mem_rows_iff.mpr ((items id).trans (if_pos rfl)), place target lost, still⟩
    · have there := s.items.mem_rows_iff.mp member
      exact ⟨row, after.items.mem_rows_iff.mpr ((items row.1).trans ((if_neg same).trans there)), lost, isOpen⟩
  fileable := by
    intro target free row member lost
    rcases rows_of_written items member with rfl | ⟨-, early⟩
    · exact fileable target lost free
    · exact free row early lost
  plain := by
    intro none_query row member
    rcases rows_of_written items member with rfl | ⟨-, early⟩
    · exact plain none_query
    · exact none_query row early

section Filing

variable {zone : Zone} {s : Store} {f : Filing}

theorem rewrite_open {row : Item} (isOpen : row.state.isOpen = true) : (f.rewrite row row).state.isOpen = true := by
  unfold Filing.rewrite
  simp only []
  split
  · rfl
  · exact isOpen

/-- A filing of no query leaves open items open, and makes what it comes upon open where it may. -/
theorem upsert_keeps (no_query : f.body.queryKey = none) : Keeps s (upsertItem zone s f).1 := by
  rcases upsert_cases zone s f with ⟨-, wrote⟩ | ⟨id, row, found, -, wrote⟩ | ⟨id, row, base, found, leaves, -, wrote⟩
  · apply keeps_of_written wrote.items
    · intro row stored
      rw [s.items.lookup_nextId] at stored
      cases stored
    · exact fun _ _ _ => .inl rfl
    · intro _
      show f.newBody.queryKey = none
      unfold Filing.newBody
      split <;> exact no_query
  · obtain ⟨stored, -⟩ := find_lookup found
    apply keeps_of_written wrote.items
    · intro row' stored' isOpen
      cases stored.symm.trans stored'
      exact ⟨isOpen, fun _ lost => lost⟩
    · exact fun target lost free => free (id, row) (s.items.mem_rows_iff.mpr stored) lost
    · exact fun plain => plain (id, row) (s.items.mem_rows_iff.mpr stored)
  · obtain ⟨stored, -⟩ := find_lookup found
    apply keeps_of_written wrote.items
    · intro row' stored' isOpen
      cases stored.symm.trans stored'
      exact ⟨rewrite_open isOpen, fun _ lost => lost⟩
    · intro target lost free
      left
      rcases free (id, row) (s.items.mem_rows_iff.mpr stored) lost with isOpen | ⟨resolved, byCode⟩
      · exact rewrite_open isOpen
      · have reopens : f.reopens row := .inl ⟨resolved, .inl byCode⟩
        show (f.rewrite row row).state.isOpen = true
        unfold Filing.rewrite
        simp only [reopens, true_or, if_true]
        rfl
    · intro _
      show (f.detail row).queryKey = none
      unfold Filing.detail Filing.rowBody
      split_ifs <;> exact no_query

/-- A filing of an outage that nothing stands in the way of leaves an open item. -/
theorem upsert_alerts (plain : Plain s) {target : String} (place : f.target = target ∧ f.type = monitoringIssue ∧
    f.subject = lostConnection ∧ f.body.queryKey = none) (free : Fileable s target) :
    Alerts (upsertItem zone s f).1 target := by
  obtain ⟨where_, type, subject, no_query⟩ := place
  have key : f.key = lostConnection := by simp [Filing.key, no_query, subject]
  have written : ∀ {id : Nat} {item : Item} {added : List Event}, Wrote s f id item added (upsertItem zone s f).1 →
      item.isLost target = true → item.state.isOpen = true → Alerts (upsertItem zone s f).1 target := by
    intro id item added wrote lost isOpen
    exact ⟨(id, item), (Table.mem_rows_iff _).mpr ((wrote.items id).trans (if_pos rfl)), lost, isOpen⟩
  have found_lost : ∀ {id : Nat} {row : Item}, s.find f.target f.type f.key = some (id, row) →
      (id, row) ∈ s.items.rows ∧ row.isLost target = true := by
    intro id row found
    obtain ⟨stored, matching⟩ := find_lookup found
    have member := s.items.mem_rows_iff.mpr stored
    have none_query : row.body.queryKey = none := plain (id, row) member
    simp [Item.isOf, none_query, where_, type, key] at matching
    exact ⟨member, by simp [Item.isLost, matching]⟩
  rcases upsert_cases zone s f with ⟨-, wrote⟩ | ⟨id, row, found, leaves, wrote⟩ | ⟨id, row, base, found, -, -, wrote⟩
  · exact written wrote (by simp [Item.isLost, Filing.newItem, where_, type, key]) rfl
  · obtain ⟨member, lost⟩ := found_lost found
    apply written wrote lost
    rcases free (id, row) member lost with isOpen | ⟨resolved, byCode⟩
    · exact isOpen
    · have reopens : f.reopens row := .inl ⟨resolved, .inl byCode⟩
      have other : f.type ≠ queryStoppedRunning := by
        rw [type]
        decide
      rcases leaves with ⟨stopped, -⟩ | ⟨-, stays⟩ | ⟨-, -, -, stays, -⟩
      · exact absurd stopped other
      · exact absurd reopens stays
      · exact absurd reopens stays
  · obtain ⟨member, lost⟩ := found_lost found
    apply written wrote lost
    rcases free (id, row) member lost with isOpen | ⟨resolved, byCode⟩
    · exact rewrite_open isOpen
    · have reopens : f.reopens row := .inl ⟨resolved, .inl byCode⟩
      show (f.rewrite row row).state.isOpen = true
      unfold Filing.rewrite
      simp only [reopens, true_or, if_true]
      rfl

theorem updateItemBody_keeps {id : Nat} {body : Body} {includeResolved : Bool} (no_query : body.queryKey = none) :
    Keeps s (updateItemBody s id body includeResolved) := by
  cases stored : s.items.lookup id with
  | none =>
    have same : (updateItemBody s id body includeResolved).items = s.items := by
      show s.items.update (fun other item => if other = id then
        if includeResolved = true ∨ item.state ≠ .resolved then { item with body := body } else item else item) = s.items
      exact Table.update_same fun row member => if_neg (s.items.lookup_none.mp stored row member)
    exact ⟨fun _ here => by unfold Alerts; rwa [same], fun _ here => by unfold Fileable; rwa [same],
      fun here => by unfold Plain; rwa [same]⟩
  | some row =>
    have items : ∀ other, (updateItemBody s id body includeResolved).items.lookup other = if other = id then
        some (if includeResolved = true ∨ row.state ≠ .resolved then { row with body := body } else row)
        else s.items.lookup other := by
      intro other
      unfold updateItemBody
      rw [setItem_lookup]
      by_cases same : other = id
      · simp [same, stored]
      · simp [same]
    have member := s.items.mem_rows_iff.mpr stored
    apply keeps_of_written items
    · intro row' stored' isOpen
      cases stored.symm.trans stored'
      split <;> exact ⟨isOpen, fun _ lost => lost⟩
    · intro target lost free
      split at lost <;> split <;> exact free (id, row) member lost
    · intro plain
      split
      · exact no_query
      · exact plain (id, row) member

theorem openItem_spec {target : String} {id : Nat} {item : Item} (found : openItem s target = some (id, item)) :
    (id, item) ∈ s.items.rows ∧ item.isLost target = true ∧ item.state.isOpen = true := by
  unfold openItem at found
  obtain ⟨here, isOpen⟩ := Option.filter_eq_some_iff.mp found
  exact ⟨List.mem_of_find?_eq_some here, by simpa using List.find?_some here, isOpen⟩

variable (zone) in
theorem pushIfDue_keeps (plain : Plain s) (target : String) (now : Int) : Keeps s (pushIfDue zone s target now) := by
  unfold pushIfDue
  cases found : openItem s target with
  | none => exact Keeps.refl s
  | some placed =>
    obtain ⟨id, item⟩ := placed
    have member := (openItem_spec found).1
    simp only []
    split
    · unfold promoteItem
      rw [s.items.mem_rows_iff.mp member]
      simp only []
      split
      · exact Keeps.refl s
      · exact upsert_keeps (plain (id, item) member)
    · exact Keeps.refl s

variable {env : Surroundings}

variable (zone) (env) in
/-- The filing of an outage keeps the others and, where nothing stands in its way, leaves an open item. -/
theorem fileCurrent_spec (plain : Plain s) (target : String) (now since : Int) (error : Option String) :
    Keeps s (fileCurrent zone env s target now since error) ∧
      (Fileable s target → Alerts (fileCurrent zone env s target now since error) target) := by
  have refile : Keeps s (pushIfDue zone (upsertItem zone s (outageFiling zone env target now since error)).1 target now) ∧
      (Fileable s target → Alerts
        (pushIfDue zone (upsertItem zone s (outageFiling zone env target now since error)).1 target now) target) := by
    have filed : Keeps s (upsertItem zone s (outageFiling zone env target now since error)).1 := upsert_keeps rfl
    have pushed := pushIfDue_keeps zone (filed.plain plain) target now
    exact ⟨filed.trans pushed, fun free => pushed.alerts target (upsert_alerts plain ⟨rfl, rfl, rfl, rfl⟩ free)⟩
  unfold fileCurrent
  cases found : openItem s target with
  | none => exact refile
  | some placed =>
    obtain ⟨id, item⟩ := placed
    obtain ⟨member, lost, isOpen⟩ := openItem_spec found
    have alerts : Alerts s target := ⟨(id, item), member, lost, isOpen⟩
    have stays : Keeps s s ∧ (Fileable s target → Alerts s target) := ⟨Keeps.refl s, fun _ => alerts⟩
    simp only []
    split
    · exact refile
    · split
      · exact stays
      · split
        · exact stays
        · have no_query : ∀ failedSince text, (errorBody zone target item failedSince error text).queryKey = none :=
            fun _ _ => plain (id, item) member
          have updated : ∀ failedSince text,
              Keeps s (updateItemBody s id (errorBody zone target item failedSince error text) false) :=
            fun failedSince text => updateItemBody_keeps (no_query failedSince text)
          exact ⟨updated _ _, fun _ => (updated _ _).alerts target alerts⟩

end Filing

section Closing

variable {zone : Zone} {s : Store}

theorem act_queryKey (item : Item) (action : UserAction) (ts : Int) (snoozeUntil : Option Int) (resolvedBy : ResolvedBy) :
    (item.act action ts snoozeUntil resolvedBy).body.queryKey = item.body.queryKey := by
  cases action <;> cases resolvedBy <;> rfl

theorem actionItem_lookup (s : Store) (id : Nat) (action : UserAction) (ts : Int) (snoozeUntil : Option Int)
    (resolvedBy : ResolvedBy) (measured : Bool) {row : Item} (stored : s.items.lookup id = some row) :
    ∃ item, (actionItem s id action ts snoozeUntil resolvedBy measured).items.lookup id = some item ∧
      item.body.queryKey = row.body.queryKey ∧ (∀ target, item.isLost target = row.isLost target) ∧
      (item.state = row.state ∨ item.state = action.state) := by
  unfold actionItem
  simp only [stored]
  split
  · exact ⟨row, stored, rfl, fun _ => rfl, .inl rfl⟩
  · split
    · split
      · exact ⟨row, stored, rfl, fun _ => rfl, .inl rfl⟩
      · exact ⟨row.acknowledge ts, by simp [stored], rfl, fun _ => rfl, .inl rfl⟩
    · split
      · exact ⟨row, stored, rfl, fun _ => rfl, .inl rfl⟩
      · exact ⟨row.act action ts snoozeUntil resolvedBy, by simp [stored], act_queryKey row action ts snoozeUntil resolvedBy,
          fun _ => rfl, .inr rfl⟩

/-- A verb leaves the open items of the outages that it does not close. -/
theorem action_keeps (plain : Plain s) (id : Nat) (action : UserAction) (ts : Int) (snoozeUntil : Option Int)
    (resolvedBy : ResolvedBy) (measured : Bool) :
    Plain (actionItem s id action ts snoozeUntil resolvedBy measured) ∧ ∀ target,
      (action.state.isOpen = true ∨ ∀ row ∈ s.items.lookup id, row.isLost target = false) → Alerts s target →
        Alerts (actionItem s id action ts snoozeUntil resolvedBy measured) target := by
  have acted := action_acted s id action ts snoozeUntil resolvedBy measured
  have others : ∀ row ∈ s.items.rows, row.1 ≠ id →
      row ∈ (actionItem s id action ts snoozeUntil resolvedBy measured).items.rows := by
    intro row member other
    exact (Table.mem_rows_iff _).mpr ((acted.others row.1 other).trans (s.items.mem_rows_iff.mp member))
  constructor
  · intro row member
    have here := (Table.mem_rows_iff _).mp member
    by_cases same : row.1 = id
    · rw [same] at here
      cases stored : s.items.lookup id with
      | none =>
        have unchanged : actionItem s id action ts snoozeUntil resolvedBy measured = s := by
          unfold actionItem
          rw [stored]
        rw [unchanged, stored] at here
        cases here
      | some old =>
        obtain ⟨item, stored', key, -⟩ := actionItem_lookup s id action ts snoozeUntil resolvedBy measured stored
        cases here.symm.trans stored'
        exact key.trans (plain (id, old) (s.items.mem_rows_iff.mpr stored))
    · rw [acted.others row.1 same] at here
      exact plain row (s.items.mem_rows_iff.mpr here)
  · rintro target leaves ⟨row, member, lost, isOpen⟩
    by_cases same : row.1 = id
    · have stored : s.items.lookup id = some row.2 := same ▸ s.items.mem_rows_iff.mp member
      obtain ⟨item, stored', -, place, state⟩ :=
        actionItem_lookup s id action ts snoozeUntil resolvedBy measured stored
      refine ⟨(id, item), (Table.mem_rows_iff _).mpr stored', (place target).trans lost, ?_⟩
      rcases leaves with opens | elsewhere
      · rcases state with same_state | new_state
        · rw [same_state]
          exact isOpen
        · rw [new_state]
          exact opens
      · rw [elsewhere row.2 stored] at lost
        cases lost
    · exact ⟨row, others row member same, lost, isOpen⟩

variable (zone) in
/-- A recovery closes the item of its own database only. -/
theorem recovered_keeps (plain : Plain s) (target : String) (now : Int) : Plain (recovered zone s target now) ∧
    ∀ other, other ≠ target → Alerts s other → Alerts (recovered zone s target now) other := by
  unfold recovered
  cases found : openItem s target with
  | none => exact ⟨plain, fun _ _ here => here⟩
  | some placed =>
    obtain ⟨id, item⟩ := placed
    obtain ⟨member, lost, -⟩ := openItem_spec found
    simp only []
    have no_query : (recoveredBody zone item now).queryKey = none := plain (id, item) member
    have updated : Keeps s (updateItemBody s id (recoveredBody zone item now) false) := updateItemBody_keeps no_query
    obtain ⟨still, closes⟩ := action_keeps (updated.plain plain) id .resolve now none .code false
    have notified : ∀ t : Store, (notifyRecovery t id now).items = t.items := by
      intro t
      unfold notifyRecovery
      split
      · rfl
      · split <;> rfl
    constructor
    · unfold Plain
      rw [notified]
      exact still
    · intro other different here
      unfold Alerts
      rw [notified]
      apply closes other (.inr _) (updated.alerts other here)
      intro row stored
      unfold updateItemBody at stored
      rw [setItem_lookup, s.items.mem_rows_iff.mp member, Option.map_some, if_pos rfl] at stored
      have same_place : row.target = item.target := by
        have := Option.some.inj stored
        rw [← this]
        split <;> rfl
      simp only [Item.isLost, Bool.and_eq_true, decide_eq_true_eq] at lost
      simp [Item.isLost, same_place, lost.1.1, Ne.symm different]

end Closing

end Rdst.Inbox
