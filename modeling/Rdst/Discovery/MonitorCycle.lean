import Rdst.Lib.Run
import Rdst.Monitor.Record

namespace Rdst.Discovery

open Rdst.Monitor

set_option linter.unusedSectionVars false

variable {Key Process : Type} [DecidableEq Key] [DecidableEq Process]

def monitorPendingMax : Nat := 60

inductive Outcome
  | done
  | locked
  | failed
deriving DecidableEq

/-- How one pass of the drain loop fares: the `record` call, then the read of the known texts. -/
structure Attempt where
  write : Outcome
  read : Outcome
deriving DecidableEq

/-- A queue entry carries the number of the cycle that queued it. -/
abbrev Pending (Key : Type) := List (Nat × Reading Key)

structure Collector (Key Process : Type) where
  process : Process
  pending : Pending Key
  cycles : Nat
  store : MonitorStore Key Process

/-- `deque(maxlen=MONITOR_PENDING_MAX).append`. -/
def appendPending (pending : Pending Key) (entry : Nat × Reading Key) : Pending Key :=
  if pending.length < monitorPendingMax then pending ++ [entry] else pending.tail ++ [entry]

structure DrainResult (Key Process : Type) where
  pending : Pending Key
  store : MonitorStore Key Process
  added : List Nat

/-- The loop at the end of `_record_monitor_cycle`; it stops where the source raises. -/
def drain (housekeeping : MonitorStore Key Process → Reading Key → MonitorStore Key Process)
    (process : Process) (attempts : Nat → Attempt) :
    Nat → Pending Key → MonitorStore Key Process → DrainResult Key Process
  | _, [], store => ⟨[], store, []⟩
  | pass, head :: rest, store =>
    match (attempts pass).write with
    | .locked => ⟨head :: rest, store, []⟩
    | .failed => ⟨rest, store, []⟩
    | .done =>
      let written := record housekeeping process store head.2
      let added := if written.2 then [head.1] else []
      match (attempts pass).read with
      | .done =>
        let final := drain housekeeping process attempts (pass + 1) rest written.1
        ⟨final.pending, final.store, added ++ final.added⟩
      -- Only the `record` call stands under the `try`, so the committed entry is still the head.
      | .locked | .failed => ⟨head :: rest, written.1, added⟩

inductive CollectorInput (Key Process : Type)
  | cycle (reading : Reading Key) (attempts : Nat → Attempt)
  | paused
  | setEnabled (on : Bool)
  | restart (process : Process)

/-- Each event is the number of a cycle whose deltas a committed `record` call added. -/
def cycleStep (housekeeping : MonitorStore Key Process → Reading Key → MonitorStore Key Process)
    (collector : Collector Key Process) :
    CollectorInput Key Process → Collector Key Process × List Nat
  | .cycle reading attempts =>
    let queued := appendPending collector.pending (collector.cycles, reading)
    let final := drain housekeeping collector.process attempts 0 queued collector.store
    ({ collector with
        pending := final.pending, cycles := collector.cycles + 1, store := final.store }, final.added)
  | .paused => ({ collector with pending := [] }, [])
  | .setEnabled on => ({ collector with store := { collector.store with disabled := !on } }, [])
  | .restart process => ({ collector with process := process, pending := [] }, [])

/-- No read of the known texts fails right after the `record` call before it committed. -/
def FollowUpReadsSucceed (_ : Collector Key Process) : CollectorInput Key Process → Prop
  | .cycle _ attempts => ∀ pass, (attempts pass).write = .done → (attempts pass).read = .done
  | .paused | .setEnabled _ | .restart _ => True

def cycleNumbers (pending : Pending Key) : List Nat := pending.map Prod.fst

theorem appendPending_sublist (pending : Pending Key) (entry : Nat × Reading Key) :
    (cycleNumbers (appendPending pending entry)).Sublist (cycleNumbers pending ++ [entry.1]) := by
  unfold appendPending cycleNumbers
  split
  · simp
  · rw [List.map_append]
    exact ((List.tail_sublist pending).map Prod.fst).append (List.Sublist.refl _)

/-- When follow-up reads succeed, an entry leaves the queue with the call that adds it. -/
theorem drain_sublist
    (housekeeping : MonitorStore Key Process → Reading Key → MonitorStore Key Process)
    (process : Process) (attempts : Nat → Attempt)
    (succeed : ∀ pass, (attempts pass).write = .done → (attempts pass).read = .done)
    (pass : Nat) (pending : Pending Key) (store : MonitorStore Key Process) :
    let final := drain housekeeping process attempts pass pending store
    (final.added ++ cycleNumbers final.pending).Sublist (cycleNumbers pending) := by
  induction pending generalizing pass store with
  | nil => exact List.Sublist.refl _
  | cons head rest ih =>
    simp only [drain]
    cases write : (attempts pass).write with
    | locked => exact List.Sublist.refl _
    | failed => exact List.sublist_cons_self _ _
    | done =>
      simp only [succeed pass write]
      have tail := ih (pass + 1) (record housekeeping process store head.2).1
      cases (record housekeeping process store head.2).2 with
      | false => exact tail.trans (List.sublist_cons_self _ _)
      | true => exact tail.cons_cons head.1

/-- The added cycles and the queued ones are all different, and older than the next cycle. -/
structure QueueInvariant (collector : Collector Key Process) (added : List Nat) : Prop where
  distinct : (added ++ cycleNumbers collector.pending).Nodup
  older : ∀ cycle ∈ added ++ cycleNumbers collector.pending, cycle < collector.cycles

theorem QueueInvariant.forget {collector : Collector Key Process} {added : List Nat}
    (inv : QueueInvariant collector added) (after : Collector Key Process)
    (emptied : after.pending = []) (same : after.cycles = collector.cycles) :
    QueueInvariant after added where
  distinct := by
    have kept := inv.distinct.sublist (List.sublist_append_left added _)
    simpa [emptied, cycleNumbers] using kept
  older := by
    intro cycle member
    rw [same]
    apply inv.older
    simp only [emptied, cycleNumbers, List.map_nil, List.append_nil] at member
    exact List.mem_append_left _ member

theorem cycleStep_invariant
    (housekeeping : MonitorStore Key Process → Reading Key → MonitorStore Key Process)
    (collector : Collector Key Process) (added : List Nat) (input : CollectorInput Key Process)
    (succeed : FollowUpReadsSucceed collector input) (inv : QueueInvariant collector added) :
    QueueInvariant (cycleStep housekeeping collector input).1
      (added ++ (cycleStep housekeeping collector input).2) := by
  cases input with
  | cycle reading attempts =>
    let queued := appendPending collector.pending (collector.cycles, reading)
    have drained := drain_sublist housekeeping collector.process attempts succeed 0 queued
      collector.store
    have whole := drained.trans (appendPending_sublist collector.pending (collector.cycles, reading))
    have fresh : (added ++ (cycleNumbers collector.pending ++ [collector.cycles])).Nodup := by
      rw [← List.append_assoc, List.nodup_append]
      refine ⟨inv.distinct, by simp, ?_⟩
      intro cycle member other here same
      have bound := inv.older cycle member
      rw [List.mem_singleton.mp here] at same
      omega
    have all := (List.Sublist.refl added).append whole
    refine ⟨?_, ?_⟩
    · simpa only [cycleStep, List.append_assoc] using fresh.sublist all
    · intro cycle member
      simp only [cycleStep, List.append_assoc] at member ⊢
      have earlier := all.subset member
      rw [← List.append_assoc] at earlier
      show cycle < collector.cycles + 1
      rcases List.mem_append.mp earlier with old | new
      · exact Nat.lt_succ_of_lt (inv.older cycle old)
      · rw [List.mem_singleton.mp new]
        exact Nat.lt_succ_self _
  | paused => simpa [cycleStep] using inv.forget { collector with pending := [] } rfl rfl
  | setEnabled on =>
    have kept : QueueInvariant (cycleStep housekeeping collector (.setEnabled on)).1 added :=
      ⟨inv.distinct, inv.older⟩
    simpa [cycleStep] using kept
  | restart process =>
    simpa [cycleStep] using inv.forget { collector with process := process, pending := [] } rfl rfl

/-- The cycles whose deltas enter the history, with repetition, in the order of the commits. -/
def recordedCycles
    (housekeeping : MonitorStore Key Process → Reading Key → MonitorStore Key Process)
    (process : Process) (store : MonitorStore Key Process) (inputs : List (CollectorInput Key Process)) :
    List Nat :=
  (Machine.exec (cycleStep housekeeping) ⟨process, [], 0, store⟩ inputs).2

theorem recorded_at_most_once
    (housekeeping : MonitorStore Key Process → Reading Key → MonitorStore Key Process)
    (process : Process) (store : MonitorStore Key Process) (inputs : List (CollectorInput Key Process))
    (succeed : Machine.EveryStep (cycleStep housekeeping) FollowUpReadsSucceed
      ⟨process, [], 0, store⟩ inputs) :
    (recordedCycles housekeeping process store inputs).Nodup := by
  have inv := Machine.exec_invariant QueueInvariant FollowUpReadsSucceed
    (fun collector added input => cycleStep_invariant housekeeping collector added input)
    ⟨process, [], 0, store⟩ inputs succeed ⟨List.nodup_nil, by simp [cycleNumbers]⟩
  exact inv.distinct.sublist (List.sublist_append_left _ _)

section Runs

def emptyMonitor : MonitorStore Nat Nat := ⟨false, none, false, [], [7], [], [], []⟩

def fiveCalls (ts : Int) : Reading Nat := ⟨ts, [(7, ⟨5, 20, 0, 0, 0, 0⟩)], none, [], none⟩

/-- One cycle of five calls meets `first` in its only pass; the next cycle meets no failure. -/
def twoCycles (first : Attempt) : List (CollectorInput Nat Nat) :=
  [.cycle (fiveCalls 60) fun _ => first, .cycle (fiveCalls 120) fun _ => ⟨.done, .done⟩]

theorem recorded_at_most_once_locked_write :
    (recordedCycles (fun store _ => store) 1 emptyMonitor (twoCycles ⟨.locked, .done⟩)).Nodup :=
  recorded_at_most_once (fun store _ => store) 1 emptyMonitor (twoCycles ⟨.locked, .done⟩)
    ⟨fun _ _ => rfl, fun _ _ => rfl, True.intro⟩

/-- A locked read after the commit leaves the entry queued: its five calls are stored as ten. -/
theorem recorded_twice :
    ¬ (recordedCycles (fun store _ => store) 1 emptyMonitor (twoCycles ⟨.done, .locked⟩)).Nodup ∧
      ((Machine.exec (cycleStep fun store _ => store) ⟨1, [], 0, emptyMonitor⟩
          (twoCycles ⟨.done, .locked⟩)).1.store.stmtSeries.map fun row => (row.1, row.2.calls)) =
        [((.query 7, 60), 10), ((.query 7, 120), 5)] := by
  decide +kernel

end Runs

end Rdst.Discovery
