import Mathlib.Logic.Function.Basic
import Rdst.Analysis.Job
import Rdst.Lib.Run

/-! Analysis runs: their connections and statements, and the threads that stop them meanwhile. -/

namespace Rdst.Analysis

open Machine

/-- What `begin` is called with for each run. -/
structure RunPlan (Run : Type) where
  target : Run → String
  execute : Run → Bool

/-- Where a thread stands. It opens connections, or stops runs, one at a time. -/
inductive LanePhase (Run : Type)
  | outside
  | reserving (run : Run)
  | reserved (run : Run)
  | opened (conn : Nat)
  | registering (conn : Nat) (run : Run)
  -- from `listing` on the thread holds the lock of the run, until it is `registered`
  | listing (conn : Nat) (run : Run)
  | appending (conn : Nat) (run : Run)
  | cancelling (conn : Nat) (run : Run)
  | registered (conn : Nat) (run : Option Run)
  | executing (conn : Nat) (run : Run)
  -- from `entered` on it holds the statement lock, where the run executes statements
  | entered (conn : Nat) (run : Run)
  | checked (conn : Nat) (run : Run)
  | running (conn : Nat) (run : Option Run)
  | unregistered (conn : Nat)
  | stopping (run : Run)
  | answering (run : Run) (pending : List Nat)
  | aborting (run : Run) (unanswered : List Nat)
  | dropping (run : Run)

/-- The fields of all runs, the module's tables, and what each thread holds and does. -/
structure Lane (Tid Run : Type) where
  begun : Run → Bool
  stopped : Run → Bool
  connections : Run → List Nat
  runLock : Run → Option Tid
  runs : String → List Run
  current : Tid → Option Run
  budget : String → Nat
  statementLock : String → Option Tid
  held : Tid → List (Option String)
  made : Nat → Bool
  phase : Tid → LanePhase Run

def Lane.start {Tid Run : Type} : Lane Tid Run where
  begun _ := false
  stopped _ := false
  connections _ := []
  runLock _ := none
  runs _ := []
  current _ := none
  budget _ := planAnalysisConcurrency
  statementLock _ := none
  held _ := []
  made _ := false
  phase _ := .outside

/-- What a thread calls, or the next step of the call that it is in; `adopt` copies the context of another thread, and
    `answered` names the cancels that nobody took. -/
inductive LaneInput (Tid Run : Type)
  | begins (t : Tid) (run : Run)
  | finish (t : Tid) (run : Run)
  | adopt (t other : Tid)
  | signal (run : Run)
  | reserve (t : Tid)
  | release (t : Tid)
  | opens (t : Tid) (conn : Nat)
  | register (t : Tid) (target : String)
  | execute (t : Tid)
  | unregister (t : Tid)
  | close (t : Tid)
  | stop (t : Tid) (run : Run)
  | answered (t : Tid) (unanswered : List Nat)
  | proceeds (t : Tid)

inductive LaneEvent (Run : Type)
  | signalled (run : Run)
  | snapshot (run : Run)
  | asked (conn : Nat)
  | aborted (conn : Nat)
  | closed (conn : Nat)
  | started (conn : Nat) (run : Option Run)
deriving DecidableEq

variable {Tid Run : Type}

section Phases

/-- The connection that a thread works on. -/
def LanePhase.conn : LanePhase Run → Option Nat
  | .opened conn | .registering conn _ | .listing conn _ | .appending conn _ | .cancelling conn _ | .registered conn _
  | .executing conn _ | .entered conn _ | .checked conn _ | .running conn _ | .unregistered conn => some conn
  | _ => none

/-- The run whose lock a thread holds. -/
def LanePhase.locks : LanePhase Run → Option Run
  | .listing _ run | .appending _ run | .cancelling _ run => some run
  | _ => none

/-- The connection that a thread has registered, and the run it did so with. -/
def LanePhase.attached : LanePhase Run → Option (Nat × Run)
  | .registered conn (some run) | .executing conn run | .entered conn run | .checked conn run
  | .running conn (some run) => some (conn, run)
  | _ => none

/-- The target whose statement lock a thread holds. -/
def LanePhase.states (plan : RunPlan Run) : LanePhase Run → Option String
  | .entered _ run | .checked _ run | .running _ (some run) =>
    if plan.execute run = true then some (plan.target run) else none
  | _ => none

/-- The target that a thread has taken a slot of and not yet entered it. -/
def LanePhase.slot (plan : RunPlan Run) : LanePhase Run → Option String
  | .reserved run => some (plan.target run)
  | _ => none

/-- Phases that differ in nothing that another thread could tell, and in nothing that was read. -/
structure LanePhase.Like (plan : RunPlan Run) (p q : LanePhase Run) : Prop where
  conn : p.conn = q.conn
  locks : p.locks = q.locks
  attached : p.attached = q.attached
  states : p.states plan = q.states plan
  slot : p.slot plan = q.slot plan
  appends : ∀ conn run, q ≠ .appending conn run
  checks : ∀ conn run, p ≠ .checked conn run ∧ q ≠ .checked conn run
  stops : ∀ run, q ≠ .stopping run

theorem LanePhase.conn_of_attached {phase : LanePhase Run} {conn : Nat} {run : Run}
    (attached : phase.attached = some (conn, run)) : phase.conn = some conn := by
  unfold LanePhase.attached at attached
  split at attached
  all_goals first | cases attached; rfl | cases attached

end Phases

variable [DecidableEq Tid]

theorem read_enter {Value : Type} (read : LanePhase Run → Value) (phases : Tid → LanePhase Run) (t : Tid)
    (phase : LanePhase Run) : (fun u => read (Function.update phases t phase u)) =
      Function.update (fun u => read (phases u)) t (read phase) := Function.comp_update read phases t phase

variable [DecidableEq Run]

section Calls

variable (plan : RunPlan Run) (lane : Lane Tid Run)

def Lane.enter (t : Tid) (phase : LanePhase Run) : Lane Tid Run := { lane with phase := Function.update lane.phase t phase }

def Lane.active (t : Tid) (target : String) : Option Run :=
  let sole := match lane.runs target with
    | [run] => some run
    | _ => none
  match lane.current t with
  | some run => if plan.target run = target then some run else sole
  | none => sole

/-- What `stop` and `finish` have in common. -/
def Lane.forget (run : Run) : Lane Tid Run :=
  { lane with runs := Function.update lane.runs (plan.target run) ((lane.runs (plan.target run)).erase run) }

def Lane.leave (t : Tid) (run : Run) : Lane Tid Run :=
  { lane with current := if lane.current t = some run then Function.update lane.current t none else lane.current }

def Lane.raiseBudget (target : String) : Lane Tid Run :=
  { lane with budget := Function.update lane.budget target (lane.budget target + 1) }

/-- `run.connections` after a step that holds the lock of the run, and lets go of it. -/
def Lane.unlock (run : Run) (connections : List Nat) : Lane Tid Run :=
  { lane with
    connections := Function.update lane.connections run connections
    runLock := Function.update lane.runLock run none }

/-- The next step of a call. -/
def Lane.proceeds (t : Tid) : Lane Tid Run × List (LaneEvent Run) :=
  match lane.phase t with
  | .reserving run =>
    let target := plan.target run
    if 0 < lane.budget target then
      ({ lane with budget := Function.update lane.budget target (lane.budget target - 1) }.enter t (.reserved run), [])
    else if lane.stopped run = true then (lane.enter t .outside, [])
    else (lane, [])
  | .reserved run =>
    if lane.stopped run = true then ((lane.raiseBudget (plan.target run)).enter t .outside, [])
    else
      ({ lane with held := Function.update lane.held t (some (plan.target run) :: lane.held t) }.enter t .outside, [])
  | .registering conn run =>
    if lane.runLock run = none then
      ({ lane with runLock := Function.update lane.runLock run (some t) }.enter t (.listing conn run), [])
    else (lane, [])
  | .listing conn run =>
    (lane.enter t (if lane.stopped run = true then .cancelling conn run else .appending conn run), [])
  | .appending conn run =>
    ((lane.unlock run (lane.connections run ++ [conn])).enter t (.registered conn (some run)), [])
  | .cancelling conn run =>
    ((lane.unlock run (lane.connections run)).enter t (.registered conn (some run)), [.asked conn])
  | .executing conn run =>
    if plan.execute run = true then
      let target := plan.target run
      if lane.statementLock target = none then
        ({ lane with statementLock := Function.update lane.statementLock target (some t) }.enter t (.entered conn run), [])
      else (lane, [])
    else (lane.enter t (.entered conn run), [])
  | .entered conn run =>
    if lane.stopped run = true then
      (({ lane with
        statementLock := if plan.execute run = true then Function.update lane.statementLock (plan.target run) none
          else lane.statementLock }).enter t (.registered conn (some run)), [])
    else (lane.enter t (.checked conn run), [])
  | .checked conn run => (lane.enter t (.running conn (some run)), [.started conn (some run)])
  | .running conn (some run) =>
    (({ lane with
      statementLock := if plan.execute run = true then Function.update lane.statementLock (plan.target run) none
        else lane.statementLock }).enter t (.registered conn (some run)), [])
  | .running conn none => (lane.enter t (.registered conn none), [])
  -- under the lock, which is free again afterwards
  | .stopping run =>
    if lane.runLock run = none then
      (lane.enter t (.answering run (lane.connections run)),
        (lane.connections run).map LaneEvent.asked ++ [.snapshot run])
    else (lane, [])
  | .aborting run unanswered =>
    if unanswered = [] then (lane.enter t (.dropping run), [])
    else if lane.runLock run = none then
      (lane.enter t (.dropping run), (unanswered.filter (· ∈ lane.connections run)).map LaneEvent.aborted)
    else (lane, [])
  | .dropping run => ((lane.forget plan run).enter t .outside, [])
  | .outside | .opened _ | .registered _ _ | .unregistered _ | .answering _ _ => (lane, [])

end Calls

def laneStep (plan : RunPlan Run) (lane : Lane Tid Run) : LaneInput Tid Run → Lane Tid Run × List (LaneEvent Run)
  | .begins t run =>
    if lane.begun run = true then (lane, [])
    else
      ({ lane with
        begun := Function.update lane.begun run true
        runs := Function.update lane.runs (plan.target run) (lane.runs (plan.target run) ++ [run])
        current := Function.update lane.current t (some run) }, [])
  | .finish t run => ((lane.leave t run).forget plan run, [])
  | .adopt t other => ({ lane with current := Function.update lane.current t (lane.current other) }, [])
  | .signal run => ({ lane with stopped := Function.update lane.stopped run true }, [.signalled run])
  | .reserve t =>
    match lane.phase t, lane.current t with
    | .outside, some run => (lane.enter t (.reserving run), [])
    -- nothing to reserve for, and nothing to release afterwards
    | .outside, none => ({ lane with held := Function.update lane.held t (none :: lane.held t) }, [])
    | _, _ => (lane, [])
  | .release t =>
    match lane.phase t, lane.held t with
    | .outside, some target :: rest =>
      ({ lane.raiseBudget target with held := Function.update lane.held t rest }, [])
    | .outside, none :: rest => ({ lane with held := Function.update lane.held t rest }, [])
    | _, _ => (lane, [])
  | .opens t conn =>
    match lane.phase t with
    | .outside =>
      if lane.made conn = true then (lane, [])
      else ({ lane with made := Function.update lane.made conn true }.enter t (.opened conn), [])
    | _ => (lane, [])
  | .register t target =>
    match lane.phase t with
    | .opened conn =>
      match lane.active plan t target with
      | some run => (lane.enter t (.registering conn run), [])
      | none => (lane.enter t (.registered conn none), [])
    | _ => (lane, [])
  | .execute t =>
    match lane.phase t with
    | .registered conn (some run) => (lane.enter t (.executing conn run), [])
    | .registered conn none => (lane.enter t (.running conn none), [.started conn none])
    | _ => (lane, [])
  | .unregister t =>
    match lane.phase t with
    | .registered conn (some run) =>
      if lane.runLock run = none then
        ((lane.unlock run ((lane.connections run).filter (· ≠ conn))).enter t (.unregistered conn), [])
      else (lane, [])
    | .registered conn none => (lane.enter t (.unregistered conn), [])
    | _ => (lane, [])
  -- owners unregister a connection before they close it
  | .close t =>
    match lane.phase t with
    | .opened conn | .unregistered conn => (lane.enter t .outside, [.closed conn])
    | _ => (lane, [])
  | .stop t run =>
    match lane.phase t with
    | .outside =>
      (({ lane with stopped := Function.update lane.stopped run true }.leave t run).enter t (.stopping run),
        [.signalled run])
    | _ => (lane, [])
  | .answered t unanswered =>
    match lane.phase t with
    | .answering run pending => (lane.enter t (.aborting run (pending.filter (· ∈ unanswered))), [])
    | _ => (lane, [])
  | .proceeds t => lane.proceeds plan t

/-- What a step can do. -/
inductive LaneStep (plan : RunPlan Run) (lane : Lane Tid Run) : Lane Tid Run → List (LaneEvent Run) → Prop
  | tables (begun : Run → Bool) (runs : String → List Run) (current : Tid → Option Run) :
    LaneStep plan lane { lane with begun := begun, runs := runs, current := current } []
  | signals (run : Run) :
    LaneStep plan lane { lane with stopped := Function.update lane.stopped run true } [.signalled run]
  | moves (t : Tid) (phase : LanePhase Run) (runs : String → List Run) (like : (lane.phase t).Like plan phase) :
    LaneStep plan lane ({ lane with runs := runs }.enter t phase) []
  | passes (t : Tid) (held : List (Option String)) (outside : lane.phase t = .outside)
    (same : ∀ target, held.count (some target) = (lane.held t).count (some target)) :
    LaneStep plan lane { lane with held := Function.update lane.held t held } []
  | takes (t : Tid) (run : Run) (here : lane.phase t = .reserving run) (free : 0 < lane.budget (plan.target run)) :
    LaneStep plan lane ({ lane with
      budget := Function.update lane.budget (plan.target run) (lane.budget (plan.target run) - 1) }.enter t
        (.reserved run)) []
  | refunds (t : Tid) (run : Run) (here : lane.phase t = .reserved run) :
    LaneStep plan lane ({ lane with
      budget := Function.update lane.budget (plan.target run) (lane.budget (plan.target run) + 1) }.enter t .outside) []
  | holds (t : Tid) (run : Run) (here : lane.phase t = .reserved run) (live : lane.stopped run = false) :
    LaneStep plan lane ({ lane with
      held := Function.update lane.held t (some (plan.target run) :: lane.held t) }.enter t .outside) []
  | returns (t : Tid) (target : String) (rest : List (Option String)) (outside : lane.phase t = .outside)
    (held : lane.held t = some target :: rest) :
    LaneStep plan lane { lane with
      budget := Function.update lane.budget target (lane.budget target + 1)
      held := Function.update lane.held t rest } []
  | makes (t : Tid) (conn : Nat) (outside : lane.phase t = .outside) (fresh : lane.made conn = false) :
    LaneStep plan lane ({ lane with made := Function.update lane.made conn true }.enter t (.opened conn)) []
  | lists (t : Tid) (conn : Nat) (run : Run) (here : lane.phase t = .registering conn run)
    (free : lane.runLock run = none) :
    LaneStep plan lane
      ({ lane with runLock := Function.update lane.runLock run (some t) }.enter t (.listing conn run)) []
  | adds (t : Tid) (conn : Nat) (run : Run) (here : lane.phase t = .listing conn run) (live : lane.stopped run = false) :
    LaneStep plan lane (lane.enter t (.appending conn run)) []
  | cancels (t : Tid) (conn : Nat) (run : Run) (here : lane.phase t = .listing conn run)
    (halted : lane.stopped run = true) : LaneStep plan lane (lane.enter t (.cancelling conn run)) []
  | added (t : Tid) (conn : Nat) (run : Run) (here : lane.phase t = .appending conn run) :
    LaneStep plan lane
      ((lane.unlock run (lane.connections run ++ [conn])).enter t (.registered conn (some run))) []
  | cancelled (t : Tid) (conn : Nat) (run : Run) (here : lane.phase t = .cancelling conn run) :
    LaneStep plan lane ((lane.unlock run (lane.connections run)).enter t (.registered conn (some run))) [.asked conn]
  | enters (t : Tid) (conn : Nat) (run : Run) (here : lane.phase t = .executing conn run)
    (executes : plan.execute run = true) (free : lane.statementLock (plan.target run) = none) :
    LaneStep plan lane ({ lane with
      statementLock := Function.update lane.statementLock (plan.target run) (some t) }.enter t (.entered conn run)) []
  | checks (t : Tid) (conn : Nat) (run : Run) (here : lane.phase t = .entered conn run)
    (live : lane.stopped run = false) : LaneStep plan lane (lane.enter t (.checked conn run)) []
  | starts (t : Tid) (conn : Nat) (run : Run) (here : lane.phase t = .checked conn run) :
    LaneStep plan lane (lane.enter t (.running conn (some run))) [.started conn (some run)]
  | free (t : Tid) (conn : Nat) (here : lane.phase t = .registered conn none) :
    LaneStep plan lane (lane.enter t (.running conn none)) [.started conn none]
  | ends (t : Tid) (conn : Nat) (run : Run) (here : lane.phase t = .running conn (some run) ∨ lane.phase t = .entered conn run) :
    LaneStep plan lane (({ lane with
      statementLock := if plan.execute run = true then Function.update lane.statementLock (plan.target run) none
        else lane.statementLock }).enter t (.registered conn (some run))) []
  | unregisters (t : Tid) (conn : Nat) (run : Run) (here : lane.phase t = .registered conn (some run))
    (unlocked : lane.runLock run = none) :
    LaneStep plan lane
      ((lane.unlock run ((lane.connections run).filter (· ≠ conn))).enter t (.unregistered conn)) []
  | closes (t : Tid) (conn : Nat) (here : lane.phase t = .opened conn ∨ lane.phase t = .unregistered conn) :
    LaneStep plan lane (lane.enter t .outside) [.closed conn]
  | stops (t : Tid) (run : Run) (current : Tid → Option Run) (outside : lane.phase t = .outside) :
    LaneStep plan lane (({ lane with stopped := Function.update lane.stopped run true, current := current }).enter t
      (.stopping run)) [.signalled run]
  | snapshots (t : Tid) (run : Run) (here : lane.phase t = .stopping run) (unlocked : lane.runLock run = none) :
    LaneStep plan lane (lane.enter t (.answering run (lane.connections run)))
      ((lane.connections run).map LaneEvent.asked ++ [.snapshot run])
  | aborts (t : Tid) (run : Run) (unanswered : List Nat) (here : lane.phase t = .aborting run unanswered) :
    LaneStep plan lane (lane.enter t (.dropping run))
      ((unanswered.filter (· ∈ lane.connections run)).map LaneEvent.aborted)

section Cases

variable {plan : RunPlan Run} {lane : Lane Tid Run} {t : Tid}

theorem LaneStep.stays : LaneStep plan lane lane [] := .tables lane.begun lane.runs lane.current

theorem LaneStep.still {phase next : LanePhase Run} (here : lane.phase t = phase) (like : phase.Like plan next) :
    LaneStep plan lane (lane.enter t next) [] := .moves t next lane.runs (here ▸ like)

theorem proceeds_cases (lane : Lane Tid Run) (t : Tid) :
    LaneStep plan lane (lane.proceeds plan t).1 (lane.proceeds plan t).2 := by
  unfold Lane.proceeds
  cases here : lane.phase t with
  | reserving run =>
    simp only
    split
    · exact .takes t run here ‹_›
    · split
      · exact .still here ⟨rfl, rfl, rfl, rfl, rfl, by simp, by simp, by simp⟩
      · exact .stays
  | reserved run =>
    simp only
    split
    · exact .refunds t run here
    · exact .holds t run here (eq_false_of_ne_true ‹_›)
  | registering conn run =>
    simp only
    split
    · exact .lists t conn run here ‹_›
    · exact .stays
  | listing conn run =>
    simp only
    split
    · exact .cancels t conn run here ‹_›
    · exact .adds t conn run here (eq_false_of_ne_true ‹_›)
  | appending conn run => exact .added t conn run here
  | cancelling conn run => exact .cancelled t conn run here
  | executing conn run =>
    simp only
    split
    · split
      · exact .enters t conn run here ‹_› ‹_›
      · exact .stays
    · exact .still here ⟨rfl, rfl, rfl, by simp [LanePhase.states, ‹¬ plan.execute run = true›], rfl, by simp, by simp, by simp⟩
  | entered conn run =>
    simp only
    split
    · exact .ends t conn run (.inr here)
    · exact .checks t conn run here (eq_false_of_ne_true ‹_›)
  | checked conn run => exact .starts t conn run here
  | running conn run =>
    cases run with
    | none => exact .still here ⟨rfl, rfl, rfl, rfl, rfl, by simp, by simp, by simp⟩
    | some run => exact .ends t conn run (.inl here)
  | stopping run =>
    simp only
    split
    · exact .snapshots t run here ‹_›
    · exact .stays
  | aborting run unanswered =>
    simp only
    split
    · exact .still here ⟨rfl, rfl, rfl, rfl, rfl, by simp, by simp, by simp⟩
    · split
      · exact .aborts t run unanswered here
      · exact .stays
  | dropping run => exact .moves t .outside _ (here ▸ ⟨rfl, rfl, rfl, rfl, rfl, by simp, by simp, by simp⟩)
  | outside | opened | registered | unregistered | answering => exact .stays

theorem laneStep_cases (lane : Lane Tid Run) (input : LaneInput Tid Run) :
    LaneStep plan lane (laneStep plan lane input).1 (laneStep plan lane input).2 := by
  cases input with
  | begins t run =>
    simp only [laneStep]
    split
    · exact .stays
    · exact .tables _ _ _
  | finish t run => exact .tables _ _ _
  | adopt t other => exact .tables _ _ _
  | signal run => exact .signals run
  | proceeds t => exact proceeds_cases lane t
  | reserve t =>
    simp only [laneStep]
    split
    · rename_i outside _
      exact .still outside ⟨rfl, rfl, rfl, rfl, rfl, by simp, by simp, by simp⟩
    · exact .passes t _ ‹_› (by simp)
    · exact .stays
  | release t =>
    simp only [laneStep]
    split
    · exact .returns t _ _ ‹_› ‹_›
    · rename_i outside held
      exact .passes t _ outside (by simp [held])
    · exact .stays
  | opens t conn =>
    simp only [laneStep]
    split
    · split
      · exact .stays
      · exact .makes t conn ‹_› (eq_false_of_ne_true ‹_›)
    · exact .stays
  | register t target =>
    simp only [laneStep]
    split
    · rename_i opened
      split
      · exact .still opened ⟨rfl, rfl, rfl, rfl, rfl, by simp, by simp, by simp⟩
      · exact .still opened ⟨rfl, rfl, rfl, rfl, rfl, by simp, by simp, by simp⟩
    · exact .stays
  | execute t =>
    simp only [laneStep]
    split
    · rename_i registered
      exact .still registered ⟨rfl, rfl, rfl, rfl, rfl, by simp, by simp, by simp⟩
    · exact .free t _ ‹_›
    · exact .stays
  | unregister t =>
    simp only [laneStep]
    split
    · split
      · exact .unregisters t _ _ ‹_› ‹_›
      · exact .stays
    · rename_i registered
      exact .still registered ⟨rfl, rfl, rfl, rfl, rfl, by simp, by simp, by simp⟩
    · exact .stays
  | close t =>
    simp only [laneStep]
    split
    · exact .closes t _ (.inl ‹_›)
    · exact .closes t _ (.inr ‹_›)
    · exact .stays
  | stop t run =>
    simp only [laneStep]
    split
    · exact .stops t run _ ‹_›
    · exact .stays
  | answered t unanswered =>
    simp only [laneStep]
    split
    · rename_i answering
      exact .still answering ⟨rfl, rfl, rfl, rfl, rfl, by simp, by simp, by simp⟩
    · exact .stays

end Cases

end Rdst.Analysis
