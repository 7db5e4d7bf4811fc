import Rdst.Inbox.Outage

namespace Rdst.Inbox

open RowTable LocalTime Assoc Machine

/-- The inbox and the watch, and of each database whether a check of it has succeeded and whether it is unreachable
past the debounce rule by now. -/
structure World where
  store : Store
  watch : Watch
  recovered : String → Bool
  past : String → Bool

def World.new : World := ⟨Store.new, Watch.new, fun _ => false, fun _ => false⟩

inductive OutageStep
  | collection (target : String) (ok : Bool) (now : Int) (error : Option String) (env : Surroundings)
  | observe (target : String) (ok : Bool) (now : Int) (error : Option String) (env : Surroundings)
  | tick (now : Int) (env : Surroundings)
  | settingsChanged (target : String)
  | act (id : Nat) (action : UserAction) (ts : Int) (snoozeUntil : Option Int)

section Step

variable (zone : Zone) (w : World)

/-- A database stays unreachable for as long as its checks fail, and is past the rule once one of them is; a check
that the watch drops as older says nothing. -/
def World.checked (target : String) (ok : Bool) (now : Int) (result : Store × Watch) : World where
  store := result.1
  watch := result.2
  recovered other := w.recovered other || (other = target && ok && decide (¬ w.watch.stale target ok now))
  past other := (result.2.failing.lookup other).any fun failure => w.past other ||
    (other = target && !ok && decide (¬ w.watch.stale target ok now) &&
      decide (failure.debounced now (target ∈ w.watch.changed)))

/-- Time alone takes it past the rule at a tick. -/
def World.ticked (now : Int) (result : Store × Watch) : World where
  store := result.1
  watch := result.2
  recovered := w.recovered
  past other := (result.2.failing.lookup other).any fun failure => w.past other ||
    decide (lostAfterSeconds ≤ now - failure.since)

def OutageStep.apply : OutageStep → World
  | .collection target ok now error env =>
    w.checked target ok now (Inbox.collection zone env w.store w.watch target ok now error)
  | .observe target ok now error env => w.checked target ok now (Inbox.observe zone env w.store w.watch target ok now error)
  | .tick now env => w.ticked now (Inbox.tick zone env w.store w.watch now)
  | .settingsChanged target =>
    { w with
      watch := Inbox.settingsChanged w.watch target
      past := fun other => w.past other && other ≠ target }
  | .act id action ts snoozeUntil => { w with store := actionItem w.store id action ts snoozeUntil .user false }

def applyStep (w : World) (step : OutageStep) : World := step.apply zone w

/-- Every database that had recovered and is unreachable past the rule has an open item. -/
def Alerted : Prop := ∀ target, w.recovered target = true → w.past target = true → Alerts w.store target

/-- The check of a database that had recovered is one that files. -/
def FilesAt (target : String) (ok : Bool) (now : Int) (error : Option String) (env : Surroundings) : Prop :=
  w.recovered target = true ∧ ok = false ∧ ¬ w.watch.stale target ok now ∧ env.passwordMissing target = false ∧
    (w.watch.failed env target now error).debounced now (target ∈ w.watch.changed)

/-- An item comes upon no closed one when it is filed but one that the code resolved, and no user closes the item of an
outage that goes on. -/
def LeavesOpen (w : World) : OutageStep → Prop
  | .collection target ok now error env =>
    env.enabled target = true →
      FilesAt w target ok now (if ok = false then orText (env.failureReason target) error else error) env →
        Fileable w.store target
  | .observe target ok now error env => FilesAt w target ok now error env → Fileable w.store target
  | .tick now env =>
    ∀ entry ∈ w.watch.failing.entries, w.recovered entry.1 = true → env.enabled entry.1 = true →
      lostAfterSeconds ≤ now - entry.2.since → Fileable w.store entry.1
  | .settingsChanged _ => True
  | .act id action _ _ =>
    ∀ row ∈ w.store.items.lookup id, action.state.isOpen = false → row.isLost row.target = true →
      ¬ (w.recovered row.target = true ∧ w.past row.target = true)

end Step

instance (w : World) (target : String) (ok : Bool) (now : Int) (error : Option String) (env : Surroundings) :
    Decidable (FilesAt w target ok now error env) :=
  inferInstanceAs (Decidable (_ ∧ _ ∧ _ ∧ _ ∧ _))

instance (w : World) : (step : OutageStep) → Decidable (LeavesOpen w step)
  | .collection _ _ _ _ _ => inferInstanceAs (Decidable (_ → _ → _))
  | .observe _ _ _ _ _ => inferInstanceAs (Decidable (_ → _))
  | .tick _ _ => inferInstanceAs (Decidable (∀ entry ∈ _, _ → _ → _ → _))
  | .settingsChanged _ => inferInstanceAs (Decidable True)
  | .act _ _ _ _ => inferInstanceAs (Decidable (∀ row ∈ _, _ → _ → _))

/-- The invariant of the run. -/
structure Watched (w : World) : Prop where
  plain : Plain w.store
  alerted : Alerted w

section Steps

variable {zone : Zone} {w : World} {env : Surroundings}

theorem checked_past {target other : String} {ok : Bool} {now : Int} {result : Store × Watch}
    (past : (w.checked target ok now result).past other = true) : ∃ failure,
      result.2.failing.lookup other = some failure ∧ (w.past other = true ∨
        (other = target ∧ ok = false) ∧ ¬ w.watch.stale target ok now ∧
          failure.debounced now (target ∈ w.watch.changed)) := by
  simp only [World.checked, Option.any_eq_true] at past
  obtain ⟨failure, stored, past⟩ := past
  refine ⟨failure, stored, ?_⟩
  simpa [and_assoc] using past

theorem checked_recovered {target other : String} {ok : Bool} {now : Int} {result : Store × Watch}
    (recovered : (w.checked target ok now result).recovered other = true) :
    w.recovered other = true ∨ other = target ∧ ok = true ∧ ¬ w.watch.stale target ok now := by
  simpa [World.checked, and_assoc] using recovered

/-- A check whose result no longer counts the database as failing. -/
theorem Watched.forgotten (watched : Watched w) (target : String) (ok : Bool) (now : Int) {store : Store} {watch : Watch}
    (failing : watch.failing = w.watch.failing.erase target) (plain : Plain store)
    (kept : ∀ other, other ≠ target → Alerts w.store other → Alerts store other) :
    Watched (w.checked target ok now (store, watch)) := by
  refine ⟨plain, fun other recovered past => ?_⟩
  obtain ⟨failure, stored, past⟩ := checked_past past
  have different : other ≠ target := by
    rintro rfl
    simp [failing] at stored
  have before := (checked_recovered recovered).resolve_right fun now_ok => different now_ok.1
  exact kept other different (watched.alerted other before (past.resolve_right fun here => different here.1.1))

/-- One check, of a collection or of the monitor's own scan. -/
theorem Watched.observed (watched : Watched w) (target : String) (ok : Bool) (now : Int) (error : Option String)
    (free : FilesAt w target ok now error env → Fileable w.store target) :
    Watched (w.checked target ok now (Inbox.observe zone env w.store w.watch target ok now error)) := by
  unfold Inbox.observe
  by_cases stale : w.watch.stale target ok now
  · rw [if_pos stale]
    refine ⟨watched.plain, fun other recovered past => ?_⟩
    obtain ⟨failure, -, past⟩ := checked_past past
    have before := (checked_recovered recovered).resolve_right fun now_ok => now_ok.2.2 stale
    exact watched.alerted other before (past.resolve_right fun here => here.2.1 stale)
  · rw [if_neg stale]
    by_cases missing : ok = false ∧ env.passwordMissing target = true
    · rw [if_pos missing]
      exact watched.forgotten target ok now rfl watched.plain fun _ _ here => here
    · rw [if_neg missing]
      cases ok with
      | true =>
        obtain ⟨plain, kept⟩ := recovered_keeps zone watched.plain target now
        exact watched.forgotten target true now rfl plain kept
      | false =>
        have present : env.passwordMissing target = false := by simpa using missing
        obtain ⟨keeps, alerts⟩ := fileCurrent_spec zone env watched.plain target now
          (w.watch.failed env target now error).since (w.watch.failed env target now error).error
        have only_target : ∀ {other : String} {result : Store × Watch},
            (w.checked target false now result).recovered other = true → w.recovered other = true := fun recovered =>
          (checked_recovered recovered).resolve_right fun now_ok => Bool.noConfusion now_ok.2.1
        simp only [Bool.false_eq_true, if_false]
        by_cases debounced : (w.watch.failed env target now error).debounced now (target ∈ w.watch.changed)
        · rw [if_pos debounced]
          refine ⟨keeps.plain watched.plain, fun other recovered past => ?_⟩
          have before := only_target recovered
          by_cases same : other = target
          · subst same
            exact alerts (free ⟨before, rfl, stale, present, debounced⟩)
          · obtain ⟨failure, -, past⟩ := checked_past past
            exact keeps.alerts other (watched.alerted other before (past.resolve_right fun here => same here.1.1))
        · rw [if_neg debounced]
          refine ⟨watched.plain, fun other recovered past => ?_⟩
          obtain ⟨failure, stored, past⟩ := checked_past past
          refine watched.alerted other (only_target recovered) (past.resolve_right fun here => ?_)
          obtain ⟨⟨rfl, -⟩, -, met⟩ := here
          rw [AList.lookup_insert] at stored
          exact debounced (Option.some.inj stored ▸ met)

theorem Watched.collected (watched : Watched w) (target : String) (ok : Bool) (now : Int) (error : Option String)
    (free : env.enabled target = true →
      FilesAt w target ok now (if ok = false then orText (env.failureReason target) error else error) env →
        Fileable w.store target) :
    Watched (w.checked target ok now (Inbox.collection zone env w.store w.watch target ok now error)) := by
  unfold Inbox.collection
  by_cases off : env.enabled target = false
  · rw [if_pos off]
    exact watched.forgotten target ok now rfl watched.plain fun _ _ here => here
  · rw [if_neg off]
    exact watched.observed target ok now _ (free (by simpa using off))

variable (zone) (env) in
/-- The loop of a tick over some of the failing databases. -/
theorem tick_spec (now : Int) (entries : List (Sigma fun _ : String => Failure)) (state : Store × Watch)
    (plain : Plain state.1) :
    Keeps state.1 (entries.foldl (fun state entry => tickTurn zone env now state entry.1 entry.2) state).1 ∧
      (∀ entry ∈ entries, env.enabled entry.1 = true → lostAfterSeconds ≤ now - entry.2.since → Fileable state.1 entry.1 →
        Alerts (entries.foldl (fun state entry => tickTurn zone env now state entry.1 entry.2) state).1 entry.1) ∧
      ∀ target failure,
        (entries.foldl (fun state entry => tickTurn zone env now state entry.1 entry.2) state).2.failing.lookup target =
          some failure → state.2.failing.lookup target = some failure ∧
            ∀ entry ∈ entries, entry.1 = target → env.enabled target = true := by
  induction entries generalizing state with
  | nil => exact ⟨Keeps.refl _, by simp, fun _ _ stored => ⟨stored, by simp⟩⟩
  | cons entry rest ih =>
    have turn : Keeps state.1 (tickTurn zone env now state entry.1 entry.2).1 ∧
        (env.enabled entry.1 = true → lostAfterSeconds ≤ now - entry.2.since → Fileable state.1 entry.1 →
          Alerts (tickTurn zone env now state entry.1 entry.2).1 entry.1) ∧
        ∀ target failure, (tickTurn zone env now state entry.1 entry.2).2.failing.lookup target = some failure →
          state.2.failing.lookup target = some failure ∧ (entry.1 = target → env.enabled target = true) := by
      unfold tickTurn
      split
      case isTrue off =>
        refine ⟨Keeps.refl _, fun on => absurd on (by simp [off]), fun target failure stored => ?_⟩
        by_cases same : target = entry.1
        · rw [same, AList.lookup_erase] at stored
          cases stored
        · rw [AList.lookup_erase_ne same] at stored
          exact ⟨stored, fun here => absurd here.symm same⟩
      case isFalse on =>
        have enabled : env.enabled entry.1 = true := by simpa using on
        split
        case isTrue due =>
          obtain ⟨filed, alerts⟩ := fileCurrent_spec zone env plain entry.1 now entry.2.since entry.2.error
          have pushed := pushIfDue_keeps zone (filed.plain plain) entry.1 now
          exact ⟨filed.trans pushed, fun _ _ free => pushed.alerts _ (alerts free),
            fun target failure stored => ⟨stored, fun here => here ▸ enabled⟩⟩
        case isFalse early =>
          exact ⟨Keeps.refl _, fun _ due => absurd due early, fun target failure stored => ⟨stored, fun here => here ▸ enabled⟩⟩
    obtain ⟨first, opens, watch⟩ := turn
    obtain ⟨later, later_opens, later_watch⟩ := ih (tickTurn zone env now state entry.1 entry.2) (first.plain plain)
    rw [List.foldl_cons]
    refine ⟨first.trans later, ?_, ?_⟩
    · intro other member enabled due free
      rcases List.mem_cons.mp member with rfl | after
      · exact later.alerts _ (opens enabled due free)
      · exact later_opens other after enabled due (first.fileable _ free)
    · intro target failure stored
      obtain ⟨stored, others⟩ := later_watch target failure stored
      obtain ⟨stored, here⟩ := watch target failure stored
      exact ⟨stored, fun other member same => (List.mem_cons.mp member).elim (fun equal => here (equal ▸ same))
        fun after => others other after same⟩

theorem Watched.ticked (watched : Watched w) (now : Int) (free : ∀ entry ∈ w.watch.failing.entries,
    w.recovered entry.1 = true → env.enabled entry.1 = true → lostAfterSeconds ≤ now - entry.2.since →
      Fileable w.store entry.1) : Watched (w.ticked now (Inbox.tick zone env w.store w.watch now)) := by
  obtain ⟨keeps, opens, watch⟩ := tick_spec zone env now w.watch.failing.entries (w.store, w.watch)
    watched.plain
  refine ⟨keeps.plain watched.plain, fun target recovered past => ?_⟩
  simp only [World.ticked, Option.any_eq_true, Bool.or_eq_true, decide_eq_true_eq] at past
  obtain ⟨failure, stored, past⟩ := past
  obtain ⟨before, enabled⟩ := watch target failure stored
  have member : (⟨target, failure⟩ : Sigma fun _ : String => Failure) ∈ w.watch.failing.entries :=
    AList.mem_lookup_iff.mp before
  rcases past with already | due
  · exact keeps.alerts target (watched.alerted target recovered already)
  · have on := enabled _ member rfl
    exact opens _ member on due (free _ member recovered on due)

theorem Watched.step (watched : Watched w) (step : OutageStep) (leaves : LeavesOpen w step) :
    Watched (applyStep zone w step) := by
  cases step with
  | collection target ok now error env => exact watched.collected target ok now error leaves
  | observe target ok now error env => exact watched.observed target ok now error leaves
  | tick now env => exact watched.ticked now leaves
  | settingsChanged target =>
    refine ⟨watched.plain, fun other recovered past => ?_⟩
    simp only [applyStep, OutageStep.apply, Bool.and_eq_true] at past
    exact watched.alerted other recovered past.1
  | act id action ts snoozeUntil =>
    obtain ⟨plain, kept⟩ := action_keeps watched.plain id action ts snoozeUntil .user false
    refine ⟨plain, fun target recovered past => kept target ?_ (watched.alerted target recovered past)⟩
    by_cases closes : action.state.isOpen = true
    · exact .inl closes
    · right
      intro row stored
      by_contra lost
      have lost : row.isLost target = true := by simpa using lost
      have here : row.target = target := by
        simp only [Item.isLost, Bool.and_eq_true, decide_eq_true_eq] at lost
        exact lost.1.1
      exact leaves row stored (by simpa using closes) (here ▸ lost) (here ▸ ⟨recovered, past⟩)

/-- Whenever a database that had recovered is unreachable past the debounce rule, it has an open item, in every run in
which what is filed comes upon no closed item but one that the code resolved and no user closes the item of an outage
that goes on. -/
theorem outages_alert (zone : Zone) (steps : List OutageStep)
    (leaves : EveryTurn (applyStep zone) LeavesOpen World.new steps) :
    Alerted (steps.foldl (applyStep zone) World.new) := by
  have start : Watched World.new := by
    constructor
    · intro row member
      cases member
    · intro target recovered
      cases recovered
  have final : Watched (steps.foldl (applyStep zone) World.new) :=
    foldl_invariant Watched (fun w step _ leaves watched => watched.step step leaves) leaves start
  exact final.alerted

end Steps

/-- Monitoring is on, and nothing else is known. -/
def plainSurroundings : Surroundings := ⟨fun _ => true, fun _ => false, fun _ => none, fun _ _ => none⟩

def checkAt (ok : Bool) (now : Int) : OutageStep := .observe "db" ok now none plainSurroundings

/-- Two outages with a recovery between them. -/
theorem outages_alert_twice : Alerted ([checkAt false 60, checkAt false 120, checkAt false 180, checkAt true 240,
    checkAt false 300, checkAt false 360, .tick 500 plainSurroundings].foldl (applyStep (Zone.fixed 0)) World.new) :=
  outages_alert (Zone.fixed 0) [checkAt false 60, checkAt false 120, checkAt false 180, checkAt true 240,
    checkAt false 300, checkAt false 360, .tick 500 plainSurroundings] (by decide +kernel)

/-- After the item of one outage is dismissed, the next outage has none. -/
theorem dismissal_silences_next :
    ¬ Alerted ([checkAt false 60, checkAt false 120, checkAt false 180, .act 1 .dismiss 200 none, checkAt true 240,
      checkAt false 300, checkAt false 360, checkAt false 420].foldl (applyStep (Zone.fixed 0)) World.new) := by
  intro alerted
  have alerts := alerted "db" (by decide +kernel) (by decide +kernel)
  revert alerts
  decide +kernel

end Rdst.Inbox
