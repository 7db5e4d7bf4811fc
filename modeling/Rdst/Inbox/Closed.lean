import Rdst.Lib.Run
import Rdst.Inbox.Snooze

namespace Rdst.Inbox

open RowTable LocalTime Machine

/-- A call that files an item or acts on one. -/
inductive ItemCall
  | upsert (f : Filing)
  | action (id : Nat) (action : UserAction) (ts : Int) (snoozeUntil : Option Int) (resolvedBy : ResolvedBy)
      (measuredRecovery : Bool)

def ItemCall.run (zone : Zone) (s : Store) : ItemCall → Store
  | .upsert f => (upsertItem zone s f).1
  | .action id verb ts snoozeUntil resolvedBy measuredRecovery =>
    actionItem s id verb ts snoozeUntil resolvedBy measuredRecovery

/-- A filing that is not to bring a closed item back. -/
def Filing.Ignored (f : Filing) (row : Item) : Prop :=
  (row.state = .dismissed ∧ f.materiallyWorse = false) ∨
    (row.state = .resolved ∧ (row.resolvedBy = some .user ∨ row.resolvedBy = some .jev) ∧
      f.materiallyWorse = false ∧ f.reopenResolved = false)

instance (f : Filing) (row : Item) : Decidable (f.Ignored row) := inferInstanceAs (Decidable (_ ∧ _ ∨ _ ∧ (_ ∨ _) ∧ _))

/-- The state says that the item is resolved where its time and its resolver do. -/
def Item.Resolved (row : Item) : Prop :=
  (row.state = .resolved → row.resolvedAt.isSome = true ∧ row.resolvedBy.isSome = true) ∧
    (row.state ≠ .resolved → row.resolvedAt = none ∧ row.resolvedBy = none)

/-- The level does not go down but where the item is reopened. -/
def Item.Rises (row row' : Item) : Prop :=
  row.delivery.rank ≤ row'.delivery.rank ∨ row'.state = .new ∧ row'.reopenedCount = row.reopenedCount + 1

variable {zone : Zone} {s : Store} {f : Filing} {row : Item}

theorem Filing.Ignored.leaves (ignored : f.Ignored row) : f.leaves row := by
  refine .inr (.inl ⟨?_, ?_⟩)
  · rcases ignored with ⟨dismissed, -⟩ | ⟨resolved, -⟩
    · rw [dismissed]
      rfl
    · rw [resolved]
      rfl
  · rintro (⟨resolved, why⟩ | ⟨snoozed, -⟩ | ⟨dismissed, worse⟩)
    · rcases ignored with ⟨dismissed, -⟩ | ⟨-, who, notWorse, notAsked⟩
      · rw [resolved] at dismissed
        cases dismissed
      · rcases why with code | asked | worse
        · rcases who with user | jev
          · rw [user] at code
            cases code
          · rw [jev] at code
            cases code
        · rw [notAsked] at asked
          cases asked
        · rw [notWorse] at worse
          cases worse
    · rcases ignored with ⟨dismissed, -⟩ | ⟨resolved, -⟩
      · rw [snoozed] at dismissed
        cases dismissed
      · rw [snoozed] at resolved
        cases resolved
    · rcases ignored with ⟨-, notWorse⟩ | ⟨resolved, -⟩
      · rw [notWorse] at worse
        cases worse
      · rw [dismissed] at resolved
        cases resolved

/-- A filing that leaves its row marks its mute alone. -/
theorem upsert_leaves (zone : Zone) {id : Nat} (found : s.find f.target f.type f.key = some (id, row))
    (leaves : f.leaves row) :
    (upsertItem zone s f).1 = s.setItem id fun item => { item with mutedBy := s.mutedBy f } := by
  unfold upsertItem
  simp only [found, if_pos leaves]

theorem rank_le_max (stored level : Delivery) : stored.rank ≤ (stored.max level).rank := by
  unfold Delivery.max
  split <;> omega

/-- A rewritten row rises. -/
theorem rewrite_rises (f : Filing) (row : Item) (muted : Option Nat) :
    row.Rises (f.rewrite row { row with mutedBy := muted }) := by
  unfold Item.Rises Filing.rewrite
  by_cases reopens : f.reopens row
  · right
    simp [reopens]
  · left
    show row.delivery.rank ≤ (f.final row).rank
    unfold Filing.final
    rw [if_neg reopens]
    exact rank_le_max row.delivery f.level

/-- What a call makes of the row of an item, if anything. -/
inductive Becomes (zone : Zone) (s : Store) (row : Item) : Item → Prop
  | same : Becomes zone s row row
  | muted (muted : Option Nat) : Becomes zone s row { row with mutedBy := muted }
  | rewritten (f : Filing) (muted : Option Nat) (written : ¬ f.leaves row) :
      Becomes zone s row (f.rewrite row { row with mutedBy := muted })
  | acknowledged (ts : Int) : Becomes zone s row (row.acknowledge ts)
  | acted (action : UserAction) (ts : Int) (snoozeUntil : Option Int) (resolvedBy : ResolvedBy) :
      Becomes zone s row (row.act action ts snoozeUntil resolvedBy)

/-- An item that is there stays there. -/
theorem run_keeps (zone : Zone) (s : Store) (call : ItemCall) {id : Nat} {row : Item}
    (stored : s.items.lookup id = some row) : ∃ row', (call.run zone s).items.lookup id = some row' ∧
      Becomes zone s row row' := by
  cases call with
  | upsert f =>
    show ∃ row', (upsertItem zone s f).1.items.lookup id = some row' ∧ _
    have own : ∀ {placed old}, s.find f.target f.type f.key = some (placed, old) → id = placed → old = row := by
      intro placed old found here
      have same := (find_lookup found).1
      rw [← here, stored] at same
      exact (Option.some.inj same).symm
    rcases upsert_cases zone s f with ⟨-, wrote⟩ | ⟨placed, old, found, -, wrote⟩ |
      ⟨placed, old, base, found, writes, _, wrote⟩
    · have apart : id ≠ s.items.nextId := by
        rintro rfl
        rw [s.items.lookup_nextId] at stored
        cases stored
      rw [wrote.items, if_neg apart]
      exact ⟨row, stored, .same⟩
    · rw [wrote.items]
      split
      · rename_i here
        have same := own found here
        subst same
        exact ⟨_, rfl, .muted _⟩
      · exact ⟨row, stored, .same⟩
    · rw [wrote.items]
      split
      · rename_i here
        have same := own found here
        subst same
        exact ⟨_, rfl, .rewritten f _ writes⟩
      · exact ⟨row, stored, .same⟩
  | action acted verb ts snoozeUntil resolvedBy measuredRecovery =>
    show ∃ row', (actionItem s acted verb ts snoozeUntil resolvedBy measuredRecovery).items.lookup id = some row' ∧ _
    have changes : ∀ {change : Item → Item}, Becomes zone s row (change row) →
        ∃ row', (s.setItem acted change).items.lookup id = some row' ∧ Becomes zone s row row' := by
      intro change becomes
      rw [setItem_lookup, stored, Option.map_some]
      split
      · exact ⟨_, rfl, becomes⟩
      · exact ⟨row, rfl, .same⟩
    unfold actionItem
    cases s.items.lookup acted with
    | none => exact ⟨row, stored, .same⟩
    | some there =>
      simp only
      split
      · exact ⟨row, stored, .same⟩
      · split
        · split
          · exact ⟨row, stored, .same⟩
          · exact changes (.acknowledged ts)
        · split
          · exact ⟨row, stored, .same⟩
          · exact changes (.acted verb ts snoozeUntil resolvedBy)

/-- An item that was not there is one just filed. -/
theorem run_new (zone : Zone) (s : Store) (call : ItemCall) {id : Nat} {row' : Item} (absent : s.items.lookup id = none)
    (stored : (call.run zone s).items.lookup id = some row') :
    ∃ f muted, row' = { Filing.newItem f with mutedBy := muted } := by
  cases call with
  | upsert f =>
    have placed : ∀ {at_ old}, s.find f.target f.type f.key = some (at_, old) → id ≠ at_ := by
      rintro at_ old found rfl
      rw [(find_lookup found).1] at absent
      cases absent
    have after : (ItemCall.upsert f).run zone s = (upsertItem zone s f).1 := rfl
    rcases upsert_cases zone s f with ⟨-, wrote⟩ | ⟨at_, old, found, -, wrote⟩ | ⟨at_, old, base, found, -, _, wrote⟩
    · rw [after, wrote.items] at stored
      split at stored
      · cases stored
        exact ⟨f, _, rfl⟩
      · rw [absent] at stored
        cases stored
    · rw [after, wrote.items, if_neg (placed found), absent] at stored
      cases stored
    · rw [after, wrote.items, if_neg (placed found), absent] at stored
      cases stored
  | action acted verb ts snoozeUntil resolvedBy measuredRecovery =>
    have acts := action_acted s acted verb ts snoozeUntil resolvedBy measuredRecovery
    by_cases here : id = acted
    · subst here
      have place := acts.place
      rw [absent, show actionItem s id verb ts snoozeUntil resolvedBy measuredRecovery =
        (ItemCall.action id verb ts snoozeUntil resolvedBy measuredRecovery).run zone s from rfl, stored] at place
      cases place
    · rw [show (ItemCall.action acted verb ts snoozeUntil resolvedBy measuredRecovery).run zone s =
        actionItem s acted verb ts snoozeUntil resolvedBy measuredRecovery from rfl, acts.others id here, absent] at stored
      cases stored

theorem Becomes.rises {row' : Item} (becomes : Becomes zone s row row') : row.Rises row' := by
  cases becomes with
  | rewritten f muted => exact rewrite_rises f row muted
  | same | muted | acknowledged | acted => exact .inl (le_refl _)

/-- A filing that writes comes upon an open row, or reopens it. -/
theorem Becomes.resolved {row' : Item} (becomes : Becomes zone s row row') (resolved : row.Resolved) : row'.Resolved := by
  cases becomes with
  | same => exact resolved
  | muted muted => exact resolved
  | acknowledged ts => exact resolved
  | rewritten f muted written =>
    unfold Item.Resolved Filing.rewrite
    simp only
    by_cases reopens : f.reopens row
    · simp [reopens]
    · have opened : row.state.isOpen = true := by
        cases closed : row.state.isOpen with
        | true => rfl
        | false => exact absurd (.inr (.inl ⟨closed, reopens⟩)) written
      have unresolved : row.state ≠ .resolved := by
        intro is
        rw [is] at opened
        cases opened
      simp only [reopens, false_or]
      refine ⟨?_, fun _ => resolved.2 unresolved⟩
      split
      · nofun
      · exact fun is => absurd is unresolved
  | acted action ts snoozeUntil resolvedBy => cases action <;> simp [Item.Resolved, Item.act, UserAction.state]

theorem run_resolved (zone : Zone) (s : Store) (calls : List ItemCall)
    (start : ∀ id row, s.items.lookup id = some row → row.Resolved) {id : Nat} {row : Item}
    (stored : (calls.foldl (ItemCall.run zone) s).items.lookup id = some row) : row.Resolved := by
  have turns : EveryTurn (ItemCall.run zone) (fun _ _ => True) s calls := everyTurn_trivial _ s calls
  have kept := foldl_invariant (fun s : Store => ∀ id row, s.items.lookup id = some row → row.Resolved)
    (fun s call _ _ before id row' after => by
      cases there : s.items.lookup id with
      | some row =>
        obtain ⟨other, found, becomes⟩ := run_keeps zone s call there
        rw [after] at found
        cases found
        exact becomes.resolved (before id row there)
      | none =>
        obtain ⟨f, muted, rfl⟩ := run_new zone s call there after
        exact ⟨nofun, fun _ => ⟨rfl, rfl⟩⟩)
    turns start
  exact kept id row stored

/-- A filing that is not to bring a closed item back marks its mute alone; the level of an open item does not go down but
where it is reopened; and an item's state is resolved where its time and its resolver are set. -/
theorem closed_items (zone : Zone) :
    (∀ s f id row, s.find f.target f.type f.key = some (id, row) → f.Ignored row →
      (upsertItem zone s f).1 = s.setItem id fun item => { item with mutedBy := s.mutedBy f }) ∧
    (∀ s (call : ItemCall) id row, s.items.lookup id = some row → row.state.isOpen = true →
      ∃ row', (call.run zone s).items.lookup id = some row' ∧ row.Rises row') ∧
    ∀ rules settings (calls : List ItemCall) id (row : Item),
      (calls.foldl (ItemCall.run zone) { Store.new with rules := rules, settings := settings }).items.lookup id = some row →
        (row.state = .resolved ↔ row.resolvedAt.isSome = true ∧ row.resolvedBy.isSome = true) := by
  refine ⟨?_, ?_, ?_⟩
  · intro s f id row found ignored
    exact upsert_leaves zone found ignored.leaves
  · intro s call id row stored _
    obtain ⟨row', found, becomes⟩ := run_keeps zone s call stored
    exact ⟨row', found, becomes.rises⟩
  · intro rules settings calls id row stored
    have resolved := run_resolved zone _ calls (fun id row there => by cases there) stored
    refine ⟨resolved.1, ?_⟩
    intro set
    by_contra other
    rw [(resolved.2 other).1] at set
    exact absurd set.1 (by decide)

/-- The item of a slow query in the inbox. -/
def slowItem : Item := (slowQuery "slow" .inbox 43200).newItem

def dismissedStore : Store :=
  (ItemCall.action 1 .dismiss 43300 none .user false).run (Zone.fixed 0) (filedStore .inbox)

def resolvedItem : Item := slowItem.act .resolve 43300 none .user

theorem closed_items_slow :
    (upsertItem (Zone.fixed 0) dismissedStore (slowQuery "slower" .notify 43400)).1 = (dismissedStore.setItem 1 fun item =>
      { item with mutedBy := dismissedStore.mutedBy (slowQuery "slower" .notify 43400) }) ∧
    (∃ row', ((ItemCall.upsert (slowQuery "slower" .digest 43400)).run (Zone.fixed 0) (filedStore .inbox)).items.lookup 1 =
      some row' ∧ slowItem.Rises row') ∧
    (resolvedItem.state = .resolved ↔ resolvedItem.resolvedAt.isSome = true ∧ resolvedItem.resolvedBy.isSome = true) :=
  ⟨(closed_items (Zone.fixed 0)).1 dismissedStore (slowQuery "slower" .notify 43400) 1
      (slowItem.act .dismiss 43300 none .user) (by decide +kernel) (by decide +kernel),
    (closed_items (Zone.fixed 0)).2.1 (filedStore .inbox) (.upsert (slowQuery "slower" .digest 43400)) 1 slowItem
      (by decide +kernel) rfl,
    (closed_items (Zone.fixed 0)).2.2 Table.empty (fun _ => Settings.default)
      [.upsert (slowQuery "slow" .inbox 43200), .action 1 .resolve 43300 none .user false] 1 resolvedItem
      (by decide +kernel)⟩

end Rdst.Inbox
