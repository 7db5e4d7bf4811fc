import Mathlib.Data.List.Basic
import Mathlib.Data.List.Pairwise
import Rdst.Lib.Increasing

namespace Rdst.Observation

set_option linter.unusedSectionVars false

variable {Target : Type} [DecidableEq Target]

/-- A row of `observation_event`; the payload is the number of the publication it holds. -/
structure EventRow (Target : Type) where
  seq : Nat
  targetId : Target
  payload : Nat
  createdAt : Int
deriving DecidableEq

/-- Rows in primary-key order, and the highest `seq` that AUTOINCREMENT ever gave out. -/
structure EventLog (Target : Type) where
  rows : List (EventRow Target)
  lastSeq : Nat

def eventsOf (log : EventLog Target) (targetId : Target) : List (EventRow Target) :=
  log.rows.filter fun row => row.targetId = targetId

def appendEvent (log : EventLog Target) (targetId : Target) (payload : Nat) (createdAt : Int) :
    EventLog Target × Nat :=
  ({ rows := log.rows ++ [⟨log.lastSeq + 1, targetId, payload, createdAt⟩], lastSeq := log.lastSeq + 1 },
    log.lastSeq + 1)

def eventsSince (log : EventLog Target) (targetId : Target) (seq limit : Nat) : List (EventRow Target) :=
  ((eventsOf log targetId).filter fun row => seq < row.seq).take limit

def latestSeq (log : EventLog Target) (targetId : Target) : Nat :=
  ((eventsOf log targetId).map EventRow.seq).foldl max 0

def earliestSeq (log : EventLog Target) (targetId : Target) : Nat :=
  ((eventsOf log targetId).map EventRow.seq).min?.getD 0

/-- The seq of the `keep`-th newest event, or nothing when the target holds fewer. -/
def keepFloor (log : EventLog Target) (targetId : Target) (keep : Nat) : Option Nat :=
  ((eventsOf log targetId).reverse[keep - 1]?).map EventRow.seq

/-- `DELETE FROM observation_event WHERE seq IN (..)`. -/
def deleteSeqs (log : EventLog Target) (seqs : List Nat) : EventLog Target :=
  { log with rows := log.rows.filter fun row => row.seq ∉ seqs }

/-- One chunk of `prune_events`. The floor was read in an earlier transaction, so it may be below
    today's (`stale`); the victims come in the order of the `(target_id, seq)` index. -/
def pruneEvents (log : EventLog Target) (targetId : Target) (keep stale : Nat) (cutoff : Int)
    (chunk : Nat) : EventLog Target :=
  match keepFloor log targetId keep with
  | none => log
  | some floor =>
    let victims := ((eventsOf log targetId).filter fun row =>
      row.seq < min stale floor ∧ row.createdAt < cutoff).take chunk
    deleteSeqs log (victims.map EventRow.seq)

/-- The sequence numbers of the file grow along its rows and stay below the counter. -/
structure EventLog.Ordered (log : EventLog Target) : Prop where
  increasing : Increasing.By EventRow.seq log.rows
  bounded : ∀ row ∈ log.rows, row.seq ≤ log.lastSeq

/-- The events of a target were created in the order of their sequence numbers. -/
def ClockOrdered (log : EventLog Target) (targetId : Target) : Prop :=
  (eventsOf log targetId).Pairwise fun a b => a.createdAt ≤ b.createdAt

theorem eventsOf_mem {log : EventLog Target} {targetId : Target} {row : EventRow Target} :
    row ∈ eventsOf log targetId ↔ row ∈ log.rows ∧ row.targetId = targetId := by
  simp [eventsOf]

theorem EventLog.Ordered.events {log : EventLog Target} (ordered : log.Ordered) (targetId : Target) :
    Increasing.By EventRow.seq (eventsOf log targetId) :=
  ordered.increasing.sublist List.filter_sublist

theorem appendEvent_ordered {log : EventLog Target} (ordered : log.Ordered) (targetId : Target)
    (payload : Nat) (createdAt : Int) : (appendEvent log targetId payload createdAt).1.Ordered where
  increasing := by
    simp only [appendEvent, Increasing.by_append]
    refine ⟨ordered.increasing, List.pairwise_singleton _ _, ?_⟩
    intro row member last here
    rw [List.mem_singleton.mp here]
    exact Nat.lt_succ_of_le (ordered.bounded row member)
  bounded := by
    intro row member
    simp only [appendEvent, List.mem_append, List.mem_singleton] at member ⊢
    rcases member with member | rfl
    · exact Nat.le_succ_of_le (ordered.bounded row member)
    · exact Nat.le_refl _

theorem appendEvent_events (log : EventLog Target) (targetId other : Target) (payload : Nat)
    (createdAt : Int) :
    eventsOf (appendEvent log other payload createdAt).1 targetId =
      eventsOf log targetId ++
        if other = targetId then [⟨log.lastSeq + 1, other, payload, createdAt⟩] else [] := by
  simp only [eventsOf, appendEvent, List.filter_append]
  congr 1
  by_cases same : other = targetId <;> simp [same]

theorem pruneEvents_ordered {log : EventLog Target} (ordered : log.Ordered) (targetId : Target)
    (keep stale : Nat) (cutoff : Int) (chunk : Nat) :
    (pruneEvents log targetId keep stale cutoff chunk).Ordered := by
  unfold pruneEvents
  split
  · exact ordered
  · exact ⟨ordered.increasing.sublist List.filter_sublist,
      fun row member => ordered.bounded row (List.mem_filter.mp member).1⟩

theorem deleteSeqs_events (log : EventLog Target) (seqs : List Nat) (targetId : Target) :
    eventsOf (deleteSeqs log seqs) targetId =
      (eventsOf log targetId).filter fun row => row.seq ∉ seqs := by
  simp only [eventsOf, deleteSeqs, List.filter_filter, Bool.and_comm]

theorem latestSeq_snoc {log : EventLog Target} (ordered : log.Ordered) {targetId : Target}
    {front : List (EventRow Target)} {last : EventRow Target}
    (events : eventsOf log targetId = front ++ [last]) : latestSeq log targetId = last.seq := by
  have grows := ordered.events targetId
  rw [events] at grows
  have bound : ∀ (xs : List Nat) (start : Nat), (∀ x ∈ xs, x ≤ last.seq) → start ≤ last.seq →
      xs.foldl max start ≤ last.seq := by
    intro xs
    induction xs with
    | nil => intro start _ le; exact le
    | cons x rest ih =>
      intro start all le
      exact ih (max start x) (fun y hy => all y (List.mem_cons_of_mem _ hy))
        (Nat.max_le.mpr ⟨le, all x (by simp)⟩)
  have early : ∀ x ∈ front.map EventRow.seq, x ≤ last.seq := by
    intro x member
    obtain ⟨row, present, rfl⟩ := List.mem_map.mp member
    exact grows.le_last (List.mem_append_left _ present)
  simp only [latestSeq, events, List.map_append, List.map_cons, List.map_nil, List.foldl_append,
    List.foldl_cons, List.foldl_nil]
  exact Nat.max_eq_right (bound _ 0 early (Nat.zero_le _))

theorem earliestSeq_cons {log : EventLog Target} (ordered : log.Ordered) {targetId : Target}
    {first : EventRow Target} {rest : List (EventRow Target)}
    (events : eventsOf log targetId = first :: rest) : earliestSeq log targetId = first.seq := by
  have grows := ordered.events targetId
  rw [events, Increasing.by_cons] at grows
  have least : ((eventsOf log targetId).map EventRow.seq).min? = some first.seq := by
    rw [events, List.min?_eq_some_iff]
    refine ⟨by simp, ?_⟩
    intro x member
    simp only [List.map_cons, List.mem_cons, List.mem_map] at member
    rcases member with rfl | ⟨row, present, rfl⟩
    · exact Nat.le_refl _
    · exact Nat.le_of_lt (grows.1 row present)
  simp [earliestSeq, least]

theorem latestSeq_nil {log : EventLog Target} {targetId : Target}
    (events : eventsOf log targetId = []) : latestSeq log targetId = 0 := by
  simp [latestSeq, events]

theorem keepFloor_le {log : EventLog Target} (ordered : log.Ordered) {targetId : Target} {keep floor : Nat}
    (found : keepFloor log targetId keep = some floor) {front : List (EventRow Target)}
    {last : EventRow Target} (events : eventsOf log targetId = front ++ [last]) : floor ≤ last.seq := by
  have grows := ordered.events targetId
  rw [events] at grows
  simp only [keepFloor, Option.map_eq_some_iff] at found
  obtain ⟨row, at_keep, rfl⟩ := found
  have member := List.mem_reverse.mp (List.mem_of_getElem? at_keep)
  rw [events] at member
  exact grows.le_last member

/-- Pruning drops the oldest events of its own target only, and never the newest one. -/
theorem pruneEvents_events {log : EventLog Target} (ordered : log.Ordered) {targetId : Target}
    (clock : ClockOrdered log targetId) (other : Target) (keep stale : Nat) (cutoff : Int) (chunk : Nat) :
    ∃ gone, eventsOf (pruneEvents log other keep stale cutoff chunk) targetId =
        (eventsOf log targetId).drop gone ∧
      (eventsOf log targetId ≠ [] →
        eventsOf (pruneEvents log other keep stale cutoff chunk) targetId ≠ []) := by
  unfold pruneEvents
  cases found : keepFloor log other keep with
  | none => exact ⟨0, by simp, id⟩
  | some floor =>
    let test : EventRow Target → Bool := fun row => row.seq < min stale floor ∧ row.createdAt < cutoff
    let victims := ((eventsOf log other).filter test).take chunk
    show ∃ gone, eventsOf (deleteSeqs log (victims.map EventRow.seq)) targetId = _ ∧
      (_ → eventsOf (deleteSeqs log (victims.map EventRow.seq)) targetId ≠ [])
    rw [deleteSeqs_events]
    have victims_low : ∀ row ∈ victims, row ∈ eventsOf log other ∧ row.seq < floor := by
      intro row member
      have := List.mem_filter.mp (List.mem_of_mem_take member)
      refine ⟨this.1, ?_⟩
      have low := this.2
      simp only [test, decide_eq_true_eq] at low
      omega
    by_cases same : other = targetId
    · subst same
      have closed : (eventsOf log other).Pairwise fun a b => test b = true → test a = true := by
        refine ((ordered.events other).and clock).imp ?_
        intro a b order holds
        simp only [test, decide_eq_true_eq] at holds ⊢
        omega
      have lead : victims <+: eventsOf log other :=
        (List.take_prefix _ _).trans ((ordered.events other).filter_initial closed)
      refine ⟨victims.length, (ordered.events other).remove_initial lead, ?_⟩
      intro some_left
      rcases List.eq_nil_or_concat (eventsOf log other) with empty | ⟨front, last, events⟩
      · exact absurd empty some_left
      rw [List.concat_eq_append] at events
      have kept : last ∈ (eventsOf log other).filter fun row => row.seq ∉ victims.map EventRow.seq := by
        rw [List.mem_filter]
        refine ⟨by simp [events], ?_⟩
        simp only [List.mem_map, decide_eq_true_eq, not_exists, not_and]
        intro row member equal
        have low := (victims_low row member).2
        have := keepFloor_le ordered found events
        omega
      exact List.ne_nil_of_mem kept
    · have all : ((eventsOf log targetId).filter fun row => row.seq ∉ victims.map EventRow.seq) =
          eventsOf log targetId := by
        rw [List.filter_eq_self]
        intro row member
        simp only [List.mem_map, decide_eq_true_eq, not_exists, not_and]
        intro victim hit equal
        have source := eventsOf_mem.mp (victims_low victim hit).1
        have own := eventsOf_mem.mp member
        have equal_rows := ordered.increasing.injective source.1 own.1 equal
        exact same (by rw [← source.2, equal_rows, own.2])
      rw [all]
      exact ⟨0, by simp, id⟩

end Rdst.Observation
