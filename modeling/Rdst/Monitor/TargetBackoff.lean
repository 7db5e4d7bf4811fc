import Mathlib.Algebra.Order.Ring.Rat
import Mathlib.Tactic.Linarith
import Rdst.Lib.Assoc
import Rdst.Lib.Run

/-! Admission and retry timing for background access to a database. -/

namespace Rdst.Monitor.Backoff

open Assoc Machine

set_option linter.unusedSectionVars false

structure State where
  failures : ℕ := 0
  due : ℚ := 0
  active : Bool := false
deriving DecidableEq

variable {Target Caller : Type} [DecidableEq Target] [DecidableEq Caller]

/-- `_states`. -/
abbrev States (Target : Type) := Dict Target State

def full (states : States Target) : Bool := 1024 ≤ states.keys.length

/-- `_fail`, which reads the clock twice. -/
def fail (state : State) (first second : ℚ) : State :=
  if first < state.due then state
  else
    let failures := min (state.failures + 1) 6
    { state with failures := failures, due := second + min (30 * 2 ^ (failures - 1)) 900 }

def acquire (states : States Target) (target : Target) (now : ℚ) : Bool × States Target :=
  if states.lookup target = none ∧ full states = true then (false, states)
  else
    let state := (states.lookup target).getD {}
    let states := states.insert target state
    if state.active = true ∨ now < state.due then (false, states)
    else (true, states.insert target { state with active := true })

def finish (states : States Target) (target : Target) (success : Bool) (first second : ℚ) : States Target :=
  match states.lookup target with
  | none => states
  | some state =>
    let state := { state with active := false }
    if success then states.erase target else states.insert target (fail state first second)

def recordFailure (states : States Target) (target : Target) (first second : ℚ) : States Target :=
  if states.lookup target = none ∧ full states = true then states
  else states.insert target (fail ((states.lookup target).getD {}) first second)

def limitRetry (states : States Target) (target : Target) (seconds now : ℚ) : States Target :=
  match states.lookup target with
  | none => states
  | some state => states.insert target { state with due := min state.due (now + seconds) }

def release (states : States Target) (target : Target) : States Target :=
  match states.lookup target with
  | none => states
  | some state => if state.failures = 0 then states.erase target else states.insert target { state with active := false }

def forget (states : States Target) (target : Target) : States Target :=
  match states.lookup target with
  | none => states
  | some state => if state.active then states else states.erase target

inductive Call (Caller : Type)
  | acquire (caller : Caller)
  | release (caller : Caller)
  | finish (caller : Caller) (success : Bool)
  | recordFailure
  | limitRetry (seconds : ℚ)
  | forget
deriving DecidableEq

/-- A call, with what the clock says when it is read for the first and the second time. -/
structure Event (Caller : Type) where
  call : Call Caller
  first : ℚ
  second : ℚ

/-- How long a target is left alone after as many failures. -/
def delay (failures : ℕ) : ℚ := min (30 * 2 ^ (min failures 6 - 1)) 900

/-- When the wait after the counted failures is over. -/
def waitEnds : List ℚ → ℚ
  | [] => 0
  | last :: earlier => last + delay (earlier.length + 1)

/-- The states, and what is said of one target: who holds admission, and when its failures were counted,
    the last one first, since it succeeded or was forgotten. -/
structure System (Target Caller : Type) where
  states : States Target
  holders : List Caller
  counted : List ℚ

def count (counted : List ℚ) (first second : ℚ) : List ℚ := if first < waitEnds counted then counted else second :: counted

variable (target : Target)

def step (s : System Target Caller) (e : Event Caller) : System Target Caller :=
  match e.call with
  | .acquire caller =>
    let (granted, states) := acquire s.states target e.first
    { s with states := states, holders := if granted then caller :: s.holders else s.holders }
  | .release caller => { s with states := release s.states target, holders := s.holders.erase caller }
  | .finish caller success =>
    ⟨finish s.states target success e.first e.second, s.holders.erase caller,
      if success then [] else count s.counted e.first e.second⟩
  | .recordFailure =>
    { s with states := recordFailure s.states target e.first e.second, counted := count s.counted e.first e.second }
  | .limitRetry seconds => { s with states := limitRetry s.states target seconds e.first }
  | .forget => { s with states := forget s.states target, counted := if s.holders = [] then [] else s.counted }

def run (s : System Target Caller) (events : List (Event Caller)) : System Target Caller := events.foldl (step target) s

/-- Only who holds admission gives it back. -/
def ByHolder (s : System Target Caller) (e : Event Caller) : Prop :=
  match e.call with
  | .release caller | .finish caller _ => caller ∈ s.holders
  | _ => True

instance (s : System Target Caller) (e : Event Caller) : Decidable (ByHolder s e) :=
  match e with
  | ⟨.release caller, _, _⟩ | ⟨.finish caller _, _, _⟩ => inferInstanceAs (Decidable (caller ∈ s.holders))
  | ⟨.acquire _, _, _⟩ | ⟨.recordFailure, _, _⟩ | ⟨.limitRetry _, _, _⟩ | ⟨.forget, _, _⟩ => inferInstanceAs (Decidable True)

/-- The clock does not go back. -/
def Timely (events : List (Event Caller)) : Prop := (events.flatMap fun e => [e.first, e.second]).Pairwise (· ≤ ·)

instance (events : List (Event Caller)) : Decidable (Timely events) :=
  inferInstanceAs (Decidable ((events.flatMap fun e => [e.first, e.second]).Pairwise (· ≤ ·)))

section Others

theorem others_insert (states : States Target) (state : State) :
    ((states.insert target state).erase target).keys = (states.erase target).keys := by
  rw [AList.keys_erase, AList.keys_insert, List.erase_cons_head, AList.keys_erase]

theorem others_erase (states : States Target) : ((states.erase target).erase target).keys = (states.erase target).keys := by
  rw [AList.keys_erase, AList.keys_erase, List.erase_of_not_mem]
  intro inside
  exact (states.keys_nodup.mem_erase_iff.mp inside).1 rfl

theorem full_absent {states : States Target} (absent : states.lookup target = none) :
    full states = decide (1024 ≤ (states.erase target).keys.length) := by
  have outside : target ∉ states.keys := by
    rw [mem_keys_iff, absent]
    simp
  rw [full, AList.keys_erase, List.erase_of_not_mem outside]

/-- What a call of `acquire` does. -/
theorem acquire_cases (states : States Target) (now : ℚ) :
    (states.lookup target = none ∧ full states = true ∧ acquire states target now = (false, states)) ∨
      ∃ state, (states.lookup target = none ∧ full states = false ∧ state = {} ∨ states.lookup target = some state) ∧
        ((state.active = true ∨ now < state.due) ∧ acquire states target now = (false, states.insert target state) ∨
          state.active = false ∧ state.due ≤ now ∧
            acquire states target now = (true, states.insert target { state with active := true })) := by
  by_cases barred : states.lookup target = none ∧ full states = true
  · left
    exact ⟨barred.1, barred.2, by rw [acquire, if_pos barred]⟩
  · right
    refine ⟨(states.lookup target).getD {}, ?_, ?_⟩
    · cases found : states.lookup target with
      | none =>
        left
        exact ⟨rfl, by simpa [found] using barred, rfl⟩
      | some state =>
        right
        rfl
    · by_cases waits : ((states.lookup target).getD {}).active = true ∨ now < ((states.lookup target).getD {}).due
      · left
        refine ⟨waits, ?_⟩
        rw [acquire, if_neg barred]
        simp only [if_pos waits]
      · right
        rw [not_or, not_lt, Bool.not_eq_true] at waits
        refine ⟨waits.1, waits.2, ?_⟩
        rw [acquire, if_neg barred]
        simp only [waits.1, not_lt.mpr waits.2, Bool.false_eq_true, or_self, if_false, AList.insert_insert]

/-- The calls for one target leave the other ones alone. -/
theorem others_step (s : System Target Caller) (e : Event Caller) :
    ((step target s e).states.erase target).keys = (s.states.erase target).keys := by
  obtain ⟨call, first, second⟩ := e
  cases call with
  | acquire caller =>
    rcases acquire_cases target s.states first with ⟨-, -, is⟩ | ⟨state, -, ⟨-, is⟩ | ⟨-, -, is⟩⟩
    · simp only [step, is]
    · simp only [step, is, others_insert]
    · simp only [step, is, others_insert]
  | release caller =>
    simp only [step, release]
    cases s.states.lookup target with
    | none => rfl
    | some state =>
      simp only
      split_ifs
      · exact others_erase target s.states
      · exact others_insert target s.states _
  | finish caller success =>
    simp only [step, finish]
    cases s.states.lookup target with
    | none => rfl
    | some state =>
      simp only
      split_ifs
      · exact others_erase target s.states
      · exact others_insert target s.states _
  | recordFailure =>
    simp only [step, recordFailure]
    split_ifs
    · rfl
    · exact others_insert target s.states _
  | limitRetry seconds =>
    simp only [step, limitRetry]
    cases s.states.lookup target with
    | none => rfl
    | some state => exact others_insert target s.states _
  | forget =>
    simp only [step, forget]
    cases s.states.lookup target with
    | none => rfl
    | some state =>
      simp only
      split_ifs
      · rfl
      · exact others_erase target s.states

end Others

section Admission

/-- The state says whether somebody holds admission. -/
def Holding (holders : List Caller) : Option State → Prop
  | none => holders = []
  | some state => if state.active then ∃ caller, holders = [caller] else holders = []

theorem Holding.short {holders : List Caller} {state : Option State} (holding : Holding holders state) : holders.length ≤ 1 := by
  cases state with
  | none => simp [show holders = [] from holding]
  | some state =>
    rw [Holding] at holding
    split at holding
    · obtain ⟨caller, rfl⟩ := holding
      exact le_refl _
    · simp [holding]

/-- Who gives admission back was the only one to hold it. -/
theorem Holding.returned {holders : List Caller} {state : Option State} (holding : Holding holders state) {caller : Caller}
    (inside : caller ∈ holders) : holders.erase caller = [] := by
  have short := holding.short
  match holders, short, inside with
  | [other], _, inside =>
    rw [List.mem_singleton.mp inside]
    simp

theorem fail_active (state : State) (first second : ℚ) : (fail state first second).active = state.active := by
  unfold fail
  split <;> rfl

theorem holding_step {s : System Target Caller} {e : Event Caller} (holder : ByHolder s e)
    (holding : Holding s.holders (s.states.lookup target)) :
    Holding (step target s e).holders ((step target s e).states.lookup target) := by
  obtain ⟨call, first, second⟩ := e
  cases call with
  | acquire caller =>
    rcases acquire_cases target s.states first with ⟨found, -, is⟩ | ⟨state, which, ⟨-, is⟩ | ⟨idle, -, is⟩⟩
    · simpa only [step, is, Bool.false_eq_true, if_false] using holding
    · simp only [step, is, insert_lookup, if_true, Bool.false_eq_true, if_false]
      rcases which with ⟨found, -, rfl⟩ | found
      · rw [found] at holding
        exact holding
      · rw [found] at holding
        exact holding
    · simp only [step, is, insert_lookup, if_true]
      have none_ : s.holders = [] := by
        rcases which with ⟨found, -⟩ | found
        · rw [found] at holding
          exact holding
        · rw [found, Holding, idle] at holding
          exact holding
      rw [none_]
      exact ⟨caller, rfl⟩
  | release caller =>
    have left := holding.returned holder
    simp only [step, release]
    cases found : s.states.lookup target with
    | none =>
      simp only [found]
      exact left
    | some state =>
      simp only
      split_ifs
      · rw [AList.lookup_erase]
        exact left
      · rw [insert_lookup, if_pos rfl]
        exact left
  | finish caller success =>
    have left := holding.returned holder
    simp only [step, finish]
    cases found : s.states.lookup target with
    | none =>
      simp only [found]
      exact left
    | some state =>
      simp only
      split_ifs
      · rw [AList.lookup_erase]
        exact left
      · rw [insert_lookup, if_pos rfl, Holding, fail_active]
        exact left
  | recordFailure =>
    simp only [step, recordFailure]
    cases found : s.states.lookup target with
    | none =>
      rw [found] at holding
      have none_ : s.holders = [] := holding
      split_ifs
      · rw [found]
        exact none_
      · rw [insert_lookup, if_pos rfl, Holding, fail_active]
        exact none_
    | some state =>
      rw [found] at holding
      rw [if_neg (by simp), insert_lookup, if_pos rfl, Option.getD_some, Holding, fail_active]
      exact holding
  | limitRetry seconds =>
    simp only [step, limitRetry]
    cases found : s.states.lookup target with
    | none =>
      simp only [found]
      rw [found] at holding
      exact holding
    | some state =>
      rw [found] at holding
      simp only [insert_lookup, if_true]
      exact holding
  | forget =>
    simp only [step, forget]
    cases found : s.states.lookup target with
    | none =>
      simp only [found]
      rw [found] at holding
      exact holding
    | some state =>
      rw [found] at holding
      simp only
      split_ifs with active
      · rw [found]
        exact holding
      · rw [AList.lookup_erase]
        rw [Holding, if_neg active] at holding
        exact holding

end Admission

section Counting

/-- The state keeps how many failures were counted, and the wait after the last one. Where too many other
    targets are kept there may be none. -/
def Counts (crowded : Bool) (counted : List ℚ) : Option State → Prop
  | none => counted = [] ∨ crowded = true
  | some state => state.failures = min counted.length 6 ∧ state.due = waitEnds counted

def dueOf (states : States Target) : ℚ := ((states.lookup target).map State.due).getD 0

def failuresOf (states : States Target) : ℕ := ((states.lookup target).map State.failures).getD 0

theorem fail_counts {crowded : Bool} {counted : List ℚ} {state : State} (counts : Counts crowded counted (some state))
    (first second : ℚ) : Counts crowded (count counted first second) (some (fail state first second)) := by
  obtain ⟨failures, due⟩ := counts
  by_cases early : first < waitEnds counted
  · rw [count, if_pos early, fail, due, if_pos early]
    exact ⟨failures, due⟩
  · rw [count, if_neg early, fail, due, if_neg early]
    have next : min (state.failures + 1) 6 = min (counted.length + 1) 6 := by omega
    refine ⟨next, ?_⟩
    show second + min (30 * 2 ^ (min (state.failures + 1) 6 - 1)) 900 = _
    rw [next]
    rfl

theorem counts_step {s : System Target Caller} {e : Event Caller} (holder : ByHolder s e) (uncut : ∀ seconds, e.call ≠ .limitRetry seconds)
    {crowded : Bool} (room : s.states.lookup target = none → full s.states = crowded)
    (holding : Holding s.holders (s.states.lookup target)) (counts : Counts crowded s.counted (s.states.lookup target)) :
    Counts crowded (step target s e).counted ((step target s e).states.lookup target) := by
  obtain ⟨call, first, second⟩ := e
  have blank : s.states.lookup target = none → full s.states = false → Counts crowded s.counted (some {}) := by
    intro found space
    rw [found] at counts
    have none_ : s.counted = [] := counts.resolve_right (by rw [← room found, space]; decide)
    rw [none_]
    exact ⟨rfl, rfl⟩
  cases call with
  | acquire caller =>
    rcases acquire_cases target s.states first with ⟨found, -, is⟩ | ⟨state, which, outcome⟩
    · simpa only [step, is] using counts
    · have kept : Counts crowded s.counted (some state) := by
        rcases which with ⟨found, space, rfl⟩ | found
        · exact blank found space
        · rwa [found] at counts
      rcases outcome with ⟨-, is⟩ | ⟨-, -, is⟩
      · simp only [step, is, insert_lookup, if_true]
        exact kept
      · simp only [step, is, insert_lookup, if_true]
        exact kept
  | release caller =>
    simp only [step, release]
    cases found : s.states.lookup target with
    | none =>
      rw [found] at counts
      simpa only [found] using counts
    | some state =>
      rw [found] at counts
      simp only
      split_ifs with unfailed
      · rw [AList.lookup_erase]
        left
        apply List.length_eq_zero_iff.mp
        have := counts.1
        omega
      · rw [insert_lookup, if_pos rfl]
        exact counts
  | finish caller success =>
    simp only [step, finish]
    cases found : s.states.lookup target with
    | none =>
      rw [found] at holding
      have inside : caller ∈ s.holders := holder
      rw [show s.holders = [] from holding] at inside
      cases inside
    | some state =>
      rw [found] at counts
      simp only
      split_ifs
      · rw [AList.lookup_erase]
        exact .inl rfl
      · rw [insert_lookup, if_pos rfl]
        have idle : Counts crowded s.counted (some { state with active := false }) := counts
        exact fail_counts idle first second
  | recordFailure =>
    simp only [step, recordFailure]
    cases found : s.states.lookup target with
    | none =>
      split_ifs with space
      · rw [found]
        right
        rw [← room found, space.2]
      · rw [insert_lookup, if_pos rfl]
        exact fail_counts (blank found (by simpa [found] using space)) first second
    | some state =>
      rw [found] at counts
      rw [if_neg (by simp), insert_lookup, if_pos rfl]
      exact fail_counts counts first second
  | limitRetry seconds => exact absurd rfl (uncut seconds)
  | forget =>
    simp only [step, forget]
    cases found : s.states.lookup target with
    | none =>
      rw [found] at holding
      rw [if_pos (show s.holders = [] from holding)]
      simp only [found]
      exact .inl rfl
    | some state =>
      rw [found] at holding counts
      by_cases active : state.active = true
      · rw [Holding, if_pos active] at holding
        obtain ⟨caller, one⟩ := holding
        have some_ : s.holders ≠ [] := by rw [one]; exact List.cons_ne_nil _ _
        simp only [if_pos active, found, if_neg some_]
        exact counts
      · rw [Holding, if_neg active] at holding
        simp only [if_neg active, if_pos holding, AList.lookup_erase]
        exact .inl rfl

/-- Within the wait nothing is counted, and nothing that was counted is lost. -/
theorem waiting_step {s : System Target Caller} {e : Event Caller} {crowded : Bool}
    (counts : Counts crowded s.counted (s.states.lookup target)) (waits : e.first < dueOf target s.states)
    (uncut : ∀ seconds, e.call ≠ .limitRetry seconds) (failed : ∀ caller, e.call ≠ .finish caller true) (kept : e.call ≠ .forget) :
    dueOf target (step target s e).states = dueOf target s.states ∧
      failuresOf target (step target s e).states = failuresOf target s.states := by
  obtain ⟨call, first, second⟩ := e
  have same : ∀ state state' : State, s.states.lookup target = some state → state'.due = state.due → state'.failures = state.failures →
      dueOf target (s.states.insert target state') = dueOf target s.states ∧
        failuresOf target (s.states.insert target state') = failuresOf target s.states := by
    intro state state' found due failures
    simp [dueOf, failuresOf, found, due, failures]
  have fresh : s.states.lookup target = none → dueOf target (s.states.insert target {}) = dueOf target s.states ∧
      failuresOf target (s.states.insert target {}) = failuresOf target s.states := by
    intro found
    simp [dueOf, failuresOf, found]
  have early : ∀ state, s.states.lookup target = some state → first < state.due := by
    intro state found
    simpa [dueOf, found] using waits
  cases call with
  | acquire caller =>
    rcases acquire_cases target s.states first with ⟨-, -, is⟩ | ⟨state, which, ⟨-, is⟩ | ⟨-, ready, is⟩⟩
    · simp only [step, is, and_self]
    · simp only [step, is]
      rcases which with ⟨found, -, rfl⟩ | found
      · exact fresh found
      · exact same state state found rfl rfl
    · -- Admission is not given within the wait.
      rcases which with ⟨found, -, rfl⟩ | found
      · rw [dueOf, found] at waits
        exact absurd waits (not_lt.mpr ready)
      · exact absurd (early state found) (not_lt.mpr ready)
  | release caller =>
    simp only [step, release]
    cases found : s.states.lookup target with
    | none => exact ⟨rfl, rfl⟩
    | some state =>
      simp only
      split_ifs with unfailed
      · rw [found] at counts
        have none_ : s.counted = [] := by
          apply List.length_eq_zero_iff.mp
          have := counts.1
          omega
        have due : state.due = 0 := by rw [counts.2, none_]; rfl
        simp [dueOf, failuresOf, found, AList.lookup_erase, unfailed, due]
      · exact same state _ found rfl rfl
  | finish caller success =>
    cases success with
    | true => exact absurd rfl (failed caller)
    | false =>
      simp only [step, finish]
      cases found : s.states.lookup target with
      | none => exact ⟨rfl, rfl⟩
      | some state =>
        have unchanged : fail { state with active := false } first second = { state with active := false } := if_pos (early state found)
        simp only [Bool.false_eq_true, if_false, unchanged]
        exact same state _ found rfl rfl
  | recordFailure =>
    simp only [step, recordFailure]
    cases found : s.states.lookup target with
    | none =>
      split_ifs
      · exact ⟨rfl, rfl⟩
      · have unchanged : fail {} first second = ({} : State) := by
          have before : first < (0 : ℚ) := by simpa [dueOf, found] using waits
          exact if_pos before
        rw [Option.getD_none, unchanged]
        exact fresh found
    | some state =>
      have unchanged : fail state first second = state := if_pos (early state found)
      rw [if_neg (by simp), Option.getD_some, unchanged]
      exact same state state found rfl rfl
  | limitRetry seconds => exact absurd rfl (uncut seconds)
  | forget => exact absurd rfl kept

end Counting

section Runs

def Reports (e : Event Caller) : Prop := e.call = .recordFailure ∨ ∃ caller, e.call = .finish caller false

/-- Neither a success nor a call to forget the target. -/
def Keeps (e : Event Caller) : Prop := (∀ caller, e.call ≠ .finish caller true) ∧ e.call ≠ .forget

/-- A run that begins without a state for the target. -/
def from_ (states : States Target) : System Target Caller := ⟨states, [], []⟩

variable {target} {states : States Target} {events : List (Event Caller)}

theorem run_append (s : System Target Caller) (first second : List (Event Caller)) :
    run target s (first ++ second) = run target (run target s first) second := List.foldl_append

theorem run_holding {s : System Target Caller} (holding : Holding s.holders (s.states.lookup target))
    (byHolder : EveryTurn (step target) ByHolder s events) :
    Holding (run target s events).holders ((run target s events).states.lookup target) :=
  foldl_invariant (fun s => Holding s.holders (s.states.lookup target))
    (fun _ _ _ holder holding => holding_step target holder holding) byHolder holding

/-- What the state and the count of failures are at the end of a run. -/
structure Follows (target : Target) (crowded : Bool) (s : System Target Caller) : Prop where
  room : decide (1024 ≤ (s.states.erase target).keys.length) = crowded
  holding : Holding s.holders (s.states.lookup target)
  counts : Counts crowded s.counted (s.states.lookup target)

theorem Follows.absent {crowded : Bool} {s : System Target Caller} (follows : Follows target crowded s)
    (absent : s.states.lookup target = none) : full s.states = crowded := by
  rw [full_absent target absent, follows.room]

theorem run_follows {crowded : Bool} {s : System Target Caller} (follows : Follows target crowded s)
    (uncut : ∀ e ∈ events, ∀ seconds, e.call ≠ .limitRetry seconds) (byHolder : EveryTurn (step target) ByHolder s events) :
    Follows target crowded (run target s events) := by
  refine foldl_invariant (Follows target crowded) (fun s e inside holder follows => ?_) byHolder follows
  constructor
  · rw [others_step]
    exact follows.room
  · exact holding_step target holder follows.holding
  · exact counts_step target holder (uncut e inside) follows.absent follows.holding follows.counts

theorem from_follows (fresh : states.lookup target = none) :
    Follows target (decide (1024 ≤ (states.erase target).keys.length)) (from_ states : System Target Caller) := by
  refine ⟨rfl, ?_, ?_⟩
  · show Holding [] (states.lookup target)
    rw [fresh]
    rfl
  · show Counts _ [] (states.lookup target)
    rw [fresh]
    exact .inl rfl

theorem acquire_due (states : States Target) (now : ℚ) (granted : (acquire states target now).1 = true) : dueOf target states ≤ now := by
  rcases acquire_cases target states now with ⟨-, -, is⟩ | ⟨state, which, ⟨-, is⟩ | ⟨-, ready, is⟩⟩
  · rw [is] at granted
    cases granted
  · rw [is] at granted
    cases granted
  · rcases which with ⟨found, -, rfl⟩ | found
    · rw [dueOf, found]
      exact ready
    · rw [dueOf, found]
      exact ready

/-- Within the wait after the counted failures admission is refused. -/
theorem Follows.refuses {crowded : Bool} {s : System Target Caller} (follows : Follows target crowded s) (some_ : s.counted ≠ [])
    {now : ℚ} (early : now < waitEnds s.counted) : (acquire s.states target now).1 = false := by
  rcases acquire_cases target s.states now with ⟨-, -, is⟩ | ⟨state, which, ⟨-, is⟩ | ⟨-, ready, is⟩⟩
  · rw [is]
  · rw [is]
  · exfalso
    have counts := follows.counts
    rcases which with ⟨found, space, -⟩ | found
    · rw [found] at counts
      rcases counts with none_ | full_
      · exact some_ none_
      · rw [follows.absent found, full_] at space
        cases space
    · rw [found] at counts
      rw [counts.2] at ready
      exact absurd early (not_lt.mpr ready)

/-- A run within the wait. -/
theorem run_waiting {crowded : Bool} {s : System Target Caller} (follows : Follows target crowded s) {limit : ℚ}
    (waits : limit < dueOf target s.states) (early : ∀ e ∈ events, e.first ≤ limit)
    (uncut : ∀ e ∈ events, ∀ seconds, e.call ≠ .limitRetry seconds) (keeps : ∀ e ∈ events, Keeps e)
    (byHolder : EveryTurn (step target) ByHolder s events) :
    failuresOf target (run target s events).states = failuresOf target s.states := by
  have both : Follows target crowded (run target s events) ∧ dueOf target (run target s events).states = dueOf target s.states ∧
      failuresOf target (run target s events).states = failuresOf target s.states := by
    refine foldl_invariant (fun s' => Follows target crowded s' ∧ dueOf target s'.states = dueOf target s.states ∧
      failuresOf target s'.states = failuresOf target s.states) (fun s' e inside holder before => ?_) byHolder ⟨follows, rfl, rfl⟩
    obtain ⟨follows', due, failures⟩ := before
    have within : e.first < dueOf target s'.states := by
      rw [due]
      exact (early e inside).trans_lt waits
    obtain ⟨due', failures'⟩ := waiting_step target follows'.counts within (uncut e inside) (keeps e inside).1 (keeps e inside).2
    have one : EveryTurn (step target) ByHolder s' [e] := ⟨holder, trivial⟩
    have next : Follows target crowded (run target s' [e]) :=
      run_follows follows' (fun e' member => by rw [List.mem_singleton.mp member]; exact uncut e inside) one
    exact ⟨next, due'.trans due, failures'.trans failures⟩
  exact both.2.2

/-- A failure that is reported after the wait raises the count. -/
theorem report_raises {s : System Target Caller} {e : Event Caller} (holder : ByHolder s e)
    (holding : Holding s.holders (s.states.lookup target)) (reports : Reports e) (late : dueOf target s.states ≤ e.first)
    (space : s.states.lookup target = none → full s.states = false) :
    failuresOf target (step target s e).states = min (failuresOf target s.states + 1) 6 := by
  obtain ⟨call, first, second⟩ := e
  have raised : ∀ state : State, state.due ≤ first → (fail state first second).failures = min (state.failures + 1) 6 := by
    intro state ready
    rw [fail, if_neg (not_lt.mpr ready)]
  rcases reports with rfl | ⟨caller, rfl⟩
  · simp only [step, recordFailure]
    cases found : s.states.lookup target with
    | none =>
      have ready : (0 : ℚ) ≤ first := by simpa [dueOf, found] using late
      rw [if_neg (by simp [space found])]
      simp only [failuresOf, found, insert_lookup, if_true, Option.map_some, Option.getD_some, Option.getD_none, Option.map_none]
      exact raised {} ready
    | some state =>
      have ready : state.due ≤ first := by simpa [dueOf, found] using late
      rw [if_neg (by simp)]
      simp only [failuresOf, found, insert_lookup, if_true, Option.map_some, Option.getD_some]
      exact raised state ready
  · simp only [step, finish]
    cases found : s.states.lookup target with
    | none =>
      rw [found] at holding
      have inside : caller ∈ s.holders := holder
      rw [show s.holders = [] from holding] at inside
      cases inside
    | some state =>
      have ready : state.due ≤ first := by simpa [dueOf, found] using late
      simp only [Bool.false_eq_true, if_false, failuresOf, found, insert_lookup, if_true, Option.map_some, Option.getD_some]
      exact raised { state with active := false } ready

theorem timely_within {before between after : List (Event Caller)} {second : Event Caller}
    (timely : Timely (before ++ between ++ second :: after)) : ∀ e ∈ between, e.first ≤ second.first := by
  intro e inside
  rw [Timely, List.append_assoc, List.flatMap_append, List.flatMap_append] at timely
  have later := (List.pairwise_append.mp (List.pairwise_append.mp timely).2.1).2.2
  exact later e.first (List.mem_flatMap.mpr ⟨e, inside, by simp⟩) second.first (by simp)

/-- Calls for one target, from any states that hold none of it, while the clock does not go back and only the
    holder gives admission back. -/
theorem admission (fresh : states.lookup target = none) (timely : Timely events)
    (byHolder : EveryTurn (step target) ByHolder (from_ states) events) :
    (run target (from_ states) events).holders.length ≤ 1 ∧
      (∀ now, (acquire (run target (from_ states) events).states target now).1 = true →
        dueOf target (run target (from_ states) events).states ≤ now) ∧
      ((∀ e ∈ events, ∀ seconds, e.call ≠ .limitRetry seconds) →
        ((run target (from_ states) events).counted ≠ [] → ∀ now < waitEnds (run target (from_ states) events).counted,
          (acquire (run target (from_ states) events).states target now).1 = false) ∧
        ∀ before first between second after, events = before ++ first :: between ++ second :: after →
          Reports first → Reports second → (∀ e ∈ between, Keeps e) →
          second.first < dueOf target (run target (from_ states) (before ++ [first])).states →
          failuresOf target (run target (from_ states) (before ++ first :: between ++ [second])).states =
              failuresOf target (run target (from_ states) (before ++ [first])).states ∧
            (dueOf target (run target (from_ states) before).states ≤ first.first →
              ((run target (from_ states) before).states.lookup target = none →
                full (run target (from_ states) before).states = false) →
              failuresOf target (run target (from_ states) (before ++ [first])).states =
                min (failuresOf target (run target (from_ states) before).states + 1) 6)) := by
  have start : Follows target _ (from_ states : System Target Caller) := from_follows fresh
  refine ⟨(run_holding start.holding byHolder).short, fun now => acquire_due _ now, fun uncut => ⟨?_, ?_⟩⟩
  · intro some_ now early
    exact (run_follows start uncut byHolder).refuses some_ early
  · intro before first between second after split one two keeps waits
    have parts : events = (before ++ [first]) ++ ((between ++ [second]) ++ after) := by rw [split]; simp
    have cut : EveryTurn (step target) ByHolder (from_ states) ((before ++ [first]) ++ ((between ++ [second]) ++ after)) := parts ▸ byHolder
    obtain ⟨early, later⟩ := everyTurn_append.mp cut
    obtain ⟨middle, -⟩ := everyTurn_append.mp later
    have uncut' : ∀ e ∈ before ++ [first], ∀ seconds, e.call ≠ .limitRetry seconds := by
      intro e inside
      exact uncut e (by rw [parts]; exact List.mem_append_left _ inside)
    have follows := run_follows start uncut' early
    constructor
    · have whole : before ++ first :: between ++ [second] = (before ++ [first]) ++ (between ++ [second]) := by simp
      rw [whole, run_append]
      refine run_waiting follows waits ?_ ?_ ?_ middle
      · intro e inside
        rcases List.mem_append.mp inside with inside | inside
        · have timely' : Timely ((before ++ [first]) ++ between ++ second :: after) := by
            rw [parts] at timely
            simpa using timely
          exact timely_within timely' e inside
        · rw [List.mem_singleton.mp inside]
      · intro e inside
        exact uncut e (by rw [parts]; exact List.mem_append_right _ (List.mem_append_left _ inside))
      · intro e inside
        rcases List.mem_append.mp inside with inside | inside
        · exact keeps e inside
        · rw [List.mem_singleton.mp inside]
          rcases two with is | ⟨caller, is⟩ <;> exact ⟨by simp [is], by simp [is]⟩
    · intro late space
      obtain ⟨front, last⟩ := everyTurn_append.mp early
      have holding := run_holding start.holding front
      rw [run_append]
      exact report_raises last.1 holding one late space

/-- An operation fails, and the tunnel and its caller both report it. -/
theorem admission_reported : (run () (from_ ∅)
    [⟨.acquire 0, 0, 0⟩, ⟨.recordFailure, 1, 1⟩, ⟨.finish 0 false, 2, 2⟩] : System Unit ℕ).holders.length ≤ 1 ∧
    ∀ now < (31 : ℚ), (acquire (run () (from_ ∅)
      [⟨.acquire 0, 0, 0⟩, ⟨.recordFailure, 1, 1⟩, ⟨.finish 0 false, 2, 2⟩] : System Unit ℕ).states () now).1 = false := by
  have whole := @admission Unit ℕ _ _ () ∅ [⟨.acquire 0, 0, 0⟩, ⟨.recordFailure, 1, 1⟩, ⟨.finish 0 false, 2, 2⟩] rfl
    (by decide +kernel) (by decide +kernel)
  refine ⟨whole.1, fun now early => (whole.2.2 ?_).1 (by decide +kernel) now ?_⟩
  · intro e inside seconds
    simp only [List.mem_cons, List.not_mem_nil, or_false] at inside
    rcases inside with rfl | rfl | rfl <;> simp
  · have ends : waitEnds (run () (from_ ∅)
        [⟨.acquire 0, 0, 0⟩, ⟨.recordFailure, 1, 1⟩, ⟨.finish 0 false, 2, 2⟩] : System Unit ℕ).counted = 31 := by decide +kernel
    rw [ends]
    exact early

/-- Two failures, and the target is forgotten between them. -/
theorem forgotten_failure : (acquire (run () (from_ ∅)
    [⟨.recordFailure, 0, 0⟩, ⟨.forget, 1, 1⟩, ⟨.recordFailure, 2, 2⟩] : System Unit ℕ).states () 40).1 = true ∧
    (40 : ℚ) < 2 + min (30 * 2 ^ (2 - 1)) 900 := by
  decide +kernel

end Runs

end Rdst.Monitor.Backoff
