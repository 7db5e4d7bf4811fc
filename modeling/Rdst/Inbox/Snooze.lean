import Rdst.Lib.Run
import Rdst.Inbox.Filing

namespace Rdst.Inbox

open RowTable LocalTime Machine

/-- The pushes of an item so far. -/
def Store.notifications (s : Store) (id : Nat) : Nat :=
  s.events.countP fun event => event.kind = .notified && event.itemId = id

def Step.time : Step → Option Int
  | .file f => some f.ts
  | .promote _ _ ts | .act _ _ ts _ => some ts
  | .mute _ now => some now
  | .unmute _ | .configure .. => none

def Step.actsOn (id : Nat) : Step → Prop
  | .act other .. => other = id
  | _ => False

instance (id : Nat) : (step : Step) → Decidable (step.actsOn id)
  | .act other _ _ _ => inferInstanceAs (Decidable (other = id))
  | .file _ | .promote _ _ _ | .mute _ _ | .unmute _ | .configure _ _ => inferInstanceAs (Decidable False)

section Condition

variable (zone : Zone) (s : Store)

/-- A filing that comes upon a snoozed item does not lift it out of the digest, and what it raises to notify does
not push. -/
def LeavesSnoozed (f : Filing) : Prop :=
  ∀ row ∈ s.find f.target f.type f.key, row.2.state = .snoozed → ¬ row.2.snoozeExpired f.ts →
    (row.2.delivery = .digest → f.level = .digest) ∧
      (row.2.delivery = .inbox → f.level = .notify → s.mutedBy f ≠ none ∨ s.skipped zone f ≠ none)

instance (f : Filing) : Decidable (LeavesSnoozed zone s f) :=
  inferInstanceAs (Decidable (∀ row ∈ s.find f.target f.type f.key, _))

/-- And an item that is snoozed is not snoozed again for another time. -/
def KeepsSnoozed : Step → Prop
  | .file f => LeavesSnoozed zone s f
  | .promote id delivery ts =>
    ∀ row ∈ s.items.lookup id, row.delivery ≠ delivery → LeavesSnoozed zone s (row.promotion delivery ts)
  | .act id .snooze _ snoozeUntil =>
    ∀ row ∈ s.items.lookup id, row.state = .snoozed → row.snoozedUntil = snoozeUntil
  | _ => True

instance : (step : Step) → Decidable (KeepsSnoozed zone s step)
  | .file f => inferInstanceAs (Decidable (LeavesSnoozed zone s f))
  | .promote id delivery ts => inferInstanceAs (Decidable (∀ row ∈ s.items.lookup id, row.delivery ≠ delivery →
      LeavesSnoozed zone s (row.promotion delivery ts)))
  | .act id .snooze _ snoozeUntil => inferInstanceAs (Decidable (∀ row ∈ s.items.lookup id, row.state = .snoozed →
      row.snoozedUntil = snoozeUntil))
  | .act _ .seen _ _ | .act _ .dismiss _ _ | .act _ .resolve _ _ | .act _ .reopen _ _ | .mute _ _ | .unmute _
  | .configure _ _ => inferInstanceAs (Decidable True)

end Condition

/-- The item is snoozed until then, with so many pushes. -/
def Hushed (s : Store) (id : Nat) (snoozedUntil : Int) (pushes : Nat) : Prop :=
  ∃ item, s.items.lookup id = some item ∧ item.state = .snoozed ∧ item.snoozedUntil = some snoozedUntil ∧
    s.notifications id = pushes

section Steps

variable {zone : Zone} {s : Store} {f : Filing} {id pushes : Nat} {snoozedUntil : Int}

/-- A filing of a snoozed item that its rules let be does not push. -/
theorem rewrite_snoozed {row : Item} (snoozed : row.state = .snoozed) (waits : ¬ row.snoozeExpired f.ts)
    (leaves : row.delivery = .digest → f.level = .digest) :
    (f.rewrite row row).state = .snoozed ∧ (f.rewrite row row).snoozedUntil = row.snoozedUntil ∧
      ((f.outcome row).2 = true → f.final row = .notify → row.delivery = .inbox ∧ f.level = .notify) := by
  have stays : ¬ f.reopens row := by
    simp [Filing.reopens, Filing.dismissedReturn, snoozed, waits]
  have final : f.final row = row.delivery.max f.level := if_neg stays
  have digest : ¬ (f.promotes row ∧ row.delivery = .digest) := by
    rintro ⟨promotes, digest⟩
    apply promotes.1
    rw [final, digest, leaves digest]
    rfl
  refine ⟨?_, ?_, ?_⟩
  · unfold Filing.rewrite
    simp only [stays, digest, or_self, if_false, snoozed]
  · unfold Filing.rewrite
    simp only [stays, if_false]
  · intro wants notifies
    by_cases promotes : f.promotes row
    · have higher : row.delivery.max f.level ≠ row.delivery := final ▸ promotes.1
      have lower : row.delivery.rank < f.level.rank := by
        by_contra low
        exact higher (if_neg low)
      have level : f.level = .notify := by
        rw [final] at notifies
        simpa [Delivery.max, lower] using notifies
      refine ⟨?_, level⟩
      cases stored : row.delivery with
      | digest => exact absurd ⟨promotes, stored⟩ digest
      | inbox => rfl
      | notify => simp [stored, level] at lower
    · simp [Filing.outcome, stays, promotes, snoozed] at wants

theorem notifications_append {t : Store} {added : List Event} (events : t.events = s.events ++ added)
    (silent : ∀ event ∈ added, event.kind = .notified → event.itemId ≠ id) : t.notifications id = s.notifications id := by
  have none_late : added.countP (fun event => event.kind = .notified && event.itemId = id) = 0 := by
    rw [List.countP_eq_zero]
    intro event member
    by_cases loud : event.kind = .notified
    · simp [silent event member loud]
    · simp [loud]
  unfold Store.notifications
  rw [events, List.countP_append, none_late, Nat.add_zero]

theorem Hushed.of_same {t : Store} (hushed : Hushed s id snoozedUntil pushes)
    (items : t.items.lookup id = s.items.lookup id) (count : t.notifications id = s.notifications id) :
    Hushed t id snoozedUntil pushes := by
  unfold Hushed
  rw [items, count]
  exact hushed

/-- What one filing does to a snoozed item. -/
theorem Hushed.file (hushed : Hushed s id snoozedUntil pushes) (early : f.ts < snoozedUntil)
    (leaves : LeavesSnoozed zone s f) : Hushed (upsertItem zone s f).1 id snoozedUntil pushes := by
  obtain ⟨item, stored, snoozed, until_, count⟩ := hushed
  have elsewhere : ∀ {other : Nat} {item' : Item} {added : List Event}, other ≠ id →
      Wrote s f other item' added (upsertItem zone s f).1 → Hushed (upsertItem zone s f).1 id snoozedUntil pushes := by
    intro other item' added different wrote
    refine Hushed.of_same ⟨item, stored, snoozed, until_, count⟩ ?_ ?_
    · rw [wrote.items id, if_neg (Ne.symm different)]
    · exact notifications_append wrote.events fun event member _ => (wrote.own event member).1 ▸ different
  rcases upsert_cases zone s f with ⟨-, wrote⟩ | ⟨other, row, found, -, wrote⟩ | ⟨other, row, base, found, -, written, wrote⟩
  · have fresh : s.items.nextId ≠ id := by
      rintro rfl
      rw [s.items.lookup_nextId] at stored
      cases stored
    exact elsewhere fresh wrote
  · by_cases same : other = id
    · subst same
      cases (find_lookup found).1.symm.trans stored
      refine ⟨_, (wrote.items other).trans (if_pos rfl), snoozed, until_, ?_⟩
      rw [notifications_append wrote.events (by simp), count]
    · exact elsewhere same wrote
  · by_cases same : other = id
    · subst same
      cases (find_lookup found).1.symm.trans stored
      have waits : ¬ item.snoozeExpired f.ts := by
        rintro ⟨-, expired⟩
        simp [until_] at expired
        omega
      obtain ⟨digest, inbox⟩ := leaves _ found snoozed waits
      obtain ⟨state, stays, push⟩ := rewrite_snoozed snoozed waits digest
      have silent : ∀ event ∈ filingEvents zone base f other (f.outcome item).1 (f.detail item) (f.outcome item).2
          (f.final item), event.kind ≠ .notified := by
        intro event member loud
        obtain ⟨wants, notifies, unmuted, unskipped⟩ := filingEvents_notified (outcome_kind f item) member loud
        obtain ⟨stored_inbox, level⟩ := push wants notifies
        rw [skipped_rewritten stored (outcome_kind f item) written] at unskipped
        have same_mute : base.mutedBy f = s.mutedBy f := mutedBy_congr (by simp [written]) f
        rw [same_mute] at unmuted
        exact (inbox stored_inbox level).elim (absurd unmuted) (absurd unskipped)
      refine ⟨_, (wrote.items other).trans (if_pos rfl), state, stays.trans until_, ?_⟩
      rw [notifications_append wrote.events fun event member loud => absurd loud (silent event member), count]
    · exact elsewhere same wrote

theorem Hushed.remuted {t : Store} (hushed : Hushed s id snoozedUntil pushes) (remuted : Remuted s t) :
    Hushed t id snoozedUntil pushes := by
  obtain ⟨item, stored, snoozed, until_, count⟩ := hushed
  have items := remuted.items id
  rw [stored, Option.map_some, Option.map_eq_some_iff] at items
  obtain ⟨item', stored', same⟩ := items
  refine ⟨item', stored', (congrArg Item.state same).trans snoozed, (congrArg Item.snoozedUntil same).trans until_, ?_⟩
  rw [← count, Store.notifications, remuted.events, Store.notifications]

theorem snooze_hushed {row : Item} (stored : s.items.lookup id = some row) {ts : Int}
    (new : row.state = .snoozed → row.snoozedUntil = some snoozedUntil) :
    let after := actionItem s id .snooze ts (some snoozedUntil) .user false
    Hushed after id snoozedUntil (after.notifications id) := by
  intro after
  by_cases already : row.state = .snoozed
  · have unchanged : after = s := by
      show actionItem s id .snooze ts (some snoozedUntil) .user false = s
      unfold actionItem
      simp [stored, already, UserAction.state]
    rw [unchanged]
    exact ⟨row, stored, already, new already, rfl⟩
  · have written : after = (s.setItem id fun item => item.act .snooze ts (some snoozedUntil) .user).log id ts .updated
        (.action .snooze (some snoozedUntil) none) := by
      show actionItem s id .snooze ts (some snoozedUntil) .user false = _
      unfold actionItem
      simp [stored, Ne.symm already, UserAction.state, UserAction.kind]
    have lookup : after.items.lookup id = some (row.act .snooze ts (some snoozedUntil) .user) := by
      simp [written, stored]
    exact ⟨_, lookup, rfl, rfl, rfl⟩

theorem Hushed.step (step : Step) (untouched : ¬ step.actsOn id) (early : ∀ t ∈ step.time, t < snoozedUntil)
    (keeps : KeepsSnoozed zone s step) (hushed : Hushed s id snoozedUntil pushes) :
    Hushed (Inbox.step zone s step) id snoozedUntil pushes := by
  obtain ⟨item, stored, snoozed, until_, count⟩ := hushed
  have hushed : Hushed s id snoozedUntil pushes := ⟨item, stored, snoozed, until_, count⟩
  cases step with
  | file f => exact hushed.file (early f.ts rfl) keeps
  | promote other delivery ts =>
    show Hushed (promoteItem zone s other delivery ts) id snoozedUntil pushes
    unfold promoteItem
    cases found : s.items.lookup other with
    | none => exact hushed
    | some row =>
      by_cases same : row.delivery = delivery
      · simpa [same] using hushed
      · simpa [same] using hushed.file (early ts rfl) (keeps row found same)
  | act other action ts snoozeUntil =>
    have acted := action_acted s other action ts snoozeUntil .user false
    obtain ⟨added, events, own⟩ := acted.events
    have different : id ≠ other := fun same => untouched same.symm
    apply hushed.of_same (acted.others id different)
    exact notifications_append events fun event member _ => (own event member).1 ▸ different.symm
  | mute rule now => exact hushed.remuted (createMuteRule_remuted s rule now)
  | unmute rule => exact hushed.remuted (deleteMuteRule_remuted s rule)
  | configure target settings => exact hushed

/-- An item that a user snoozed stays snoozed and silent until then, in every run without another verb on it whose
filings leave snoozed items where they are. -/
theorem snoozed_stays (zone : Zone) (s : Store) (id : Nat) (ts snoozedUntil : Int) (steps : List Step)
    (there : (s.items.lookup id).isSome = true) (untouched : ∀ step ∈ steps, ¬ step.actsOn id)
    (early : ∀ step ∈ steps, ∀ t ∈ step.time, t < snoozedUntil)
    (keeps : EveryTurn (step zone) (KeepsSnoozed zone) s (.act id .snooze ts (some snoozedUntil) :: steps)) :
    let snoozed := step zone s (.act id .snooze ts (some snoozedUntil))
    let after := steps.foldl (step zone) snoozed
    (∃ item, after.items.lookup id = some item ∧ item.state = .snoozed) ∧
      after.notifications id = snoozed.notifications id := by
  intro snoozed after
  obtain ⟨row, stored⟩ := Option.isSome_iff_exists.mp there
  have start : Hushed snoozed id snoozedUntil (snoozed.notifications id) := snooze_hushed stored (keeps.1 row stored)
  have final : Hushed after id snoozedUntil (snoozed.notifications id) :=
    foldl_invariant (fun t => Hushed t id snoozedUntil (snoozed.notifications id))
      (fun t step member keeps hushed => hushed.step step (untouched step member) (early step member) keeps) keeps.2 start
  obtain ⟨item, lookup, state, -, count⟩ := final
  exact ⟨⟨item, lookup, state⟩, count⟩

def slowQuery (title : String) (delivery : Delivery) (ts : Int) : Filing where
  target := "db"
  type := "slow_query"
  subject := "abc"
  severity := 1
  title := title
  body := {}
  ts := ts
  delivery := some delivery

/-- A store at noon with one item of a level. -/
def filedStore (delivery : Delivery) : Store := step (Zone.fixed 0) Store.new (.file (slowQuery "slow" delivery 43200))

theorem snoozed_stays_updated :
    let snoozed := step (Zone.fixed 0) (filedStore .inbox) (.act 1 .snooze 43300 (some 50000))
    let after := [Step.file (slowQuery "slower" .inbox 43400)].foldl (step (Zone.fixed 0)) snoozed
    (∃ item, after.items.lookup 1 = some item ∧ item.state = .snoozed) ∧
      after.notifications 1 = snoozed.notifications 1 :=
  snoozed_stays (Zone.fixed 0) (filedStore .inbox) 1 43300 50000 [.file (slowQuery "slower" .inbox 43400)]
    (by decide +kernel) (by decide +kernel) (by decide +kernel) (by decide +kernel)

/-- A snoozed item of the digest comes back as new when a filing asks for the inbox; one of the inbox pushes when it is
promoted; and a second snooze for a longer time is lost. -/
theorem snoozed_item_returns :
    ((([.act 1 .snooze 43300 (some 50000), .file (slowQuery "slow" .inbox 43400)].foldl (step (Zone.fixed 0))
      (filedStore .digest)).items.lookup 1).map Item.state = some .new) ∧
    ([Step.act 1 .snooze 43300 (some 50000), .promote 1 .notify 43400].foldl (step (Zone.fixed 0))
      (filedStore .inbox)).notifications 1 = 1 ∧
    ((([.act 1 .snooze 43300 (some 50000), .act 1 .snooze 43400 (some 60000),
      .file (slowQuery "slow" .inbox 50000)].foldl (step (Zone.fixed 0)) (filedStore .inbox)).items.lookup 1).map
      Item.state = some .new) := by
  decide +kernel

end Steps

end Rdst.Inbox
