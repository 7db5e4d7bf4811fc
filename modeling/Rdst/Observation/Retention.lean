import Mathlib.Algebra.Order.Ring.Rat
import Mathlib.Data.List.Dedup
import Mathlib.Data.List.MinMax
import Mathlib.Data.List.Sort
import Mathlib.Data.Rat.Init
import Rdst.Lib.Chunks
import Rdst.Observation.EventLog

namespace Rdst.Observation.Retention

open Chunks

section Snapshots

/-- A row of `counter_snapshot`. -/
structure CounterSnapshot where
  targetId : String
  engineKey : String
  epochId : String
  capturedAt : ℚ
  calls : Option Int
  rows : Option Int
  totalExecTime : Option ℚ
  meanExecTime : Option ℚ
  minExecTime : Option ℚ
  maxExecTime : Option ℚ
  statsSince : Option Int
  deriving DecidableEq

def CounterSnapshot.key (row : CounterSnapshot) : String × String × ℚ := (row.targetId, row.engineKey, row.capturedAt)

/-- `counter_snapshot`, with its primary key. -/
structure SnapshotTable where
  rows : List CounterSnapshot
  primaryKey : (rows.map CounterSnapshot.key).Nodup

/-- Of one engine key within one epoch. -/
def Alike (a b : CounterSnapshot) : Prop := a.targetId = b.targetId ∧ a.engineKey = b.engineKey ∧ a.epochId = b.epochId

instance : DecidableRel Alike := fun _ _ => inferInstanceAs (Decidable (_ ∧ _))

/-- A row before the cutoff to which there is a newer one. -/
def expired (cutoff : ℚ) (rows : List CounterSnapshot) (victim : CounterSnapshot) : Bool :=
  victim.capturedAt < cutoff && rows.any fun newer => Alike newer victim && victim.capturedAt < newer.capturedAt

/-- The rows that a transaction of `prune` selects from, the newest first. -/
def expiredSnapshots (cutoff : ℚ) (rows : List CounterSnapshot) : List CounterSnapshot :=
  (rows.filter (expired cutoff rows)).insertionSort fun a b => b.capturedAt ≤ a.capturedAt

/-- One transaction of `prune`. -/
def pruneBatch (cutoff : ℚ) (chunk : Nat) (table : SnapshotTable) : SnapshotTable where
  rows := deleteBatch CounterSnapshot.key (expiredSnapshots cutoff) chunk table.rows
  primaryKey := table.primaryKey.sublist ((deleteBatch_sublist _ _ _ _).map _)

/-- `prune`: the rows that it leaves. -/
def prune (cutoff : ℚ) (chunk : Nat) (table : SnapshotTable) : Option (List CounterSnapshot) :=
  deleteChunks CounterSnapshot.key (expiredSnapshots cutoff) chunk (table.rows.length + 1) table.rows

/-- The rows that `latest_counter_snapshots` returns, by engine key. -/
def latestCounterSnapshots (rows : List CounterSnapshot) (targetId epochId : String) : List CounterSnapshot :=
  let found := rows.filter fun row => row.targetId = targetId ∧ row.epochId = epochId
  ((found.map CounterSnapshot.engineKey).dedup.insertionSort (· ≤ ·)).filterMap fun engineKey =>
    (found.filter fun row => row.engineKey = engineKey).argmax CounterSnapshot.capturedAt

theorem Alike.trans {a b c : CounterSnapshot} (first : Alike a b) (second : Alike b c) : Alike a c :=
  ⟨first.1.trans second.1, first.2.1.trans second.2.1, first.2.2.trans second.2.2⟩

theorem expired_iff {cutoff : ℚ} {rows : List CounterSnapshot} {victim : CounterSnapshot} :
    expired cutoff rows victim = true ↔
      victim.capturedAt < cutoff ∧ ∃ newer ∈ rows, Alike newer victim ∧ victim.capturedAt < newer.capturedAt := by
  simp [expired]

/-- Above every row that is alike there is one that is not expired. -/
theorem newest_alike (cutoff : ℚ) (rows : List CounterSnapshot) {row : CounterSnapshot} (member : row ∈ rows) :
    ∃ newest ∈ rows, Alike newest row ∧ row.capturedAt ≤ newest.capturedAt ∧ expired cutoff rows newest = false := by
  have same : row ∈ rows.filter fun other => Alike other row := List.mem_filter.mpr ⟨member, by simp [Alike]⟩
  cases best : (rows.filter fun other => Alike other row).argmax CounterSnapshot.capturedAt with
  | none =>
    rw [List.argmax_eq_none.mp best] at same
    cases same
  | some newest =>
    have chosen := List.argmax_mem best
    obtain ⟨inside, alike⟩ := List.mem_filter.mp chosen
    have alike := of_decide_eq_true alike
    refine ⟨newest, inside, alike, List.le_of_mem_argmax same best, ?_⟩
    rw [Bool.eq_false_iff, Ne, expired_iff]
    rintro ⟨-, newer, here, like, above⟩
    have beside : newer ∈ rows.filter fun other => Alike other row :=
      List.mem_filter.mpr ⟨here, decide_eq_true (like.trans alike)⟩
    exact absurd (List.le_of_mem_argmax beside best) (not_le.mpr above)

theorem expired_sweeps (cutoff : ℚ) : Sweeps (expiredSnapshots cutoff) (expired cutoff) where
  finds _ := List.perm_insertionSort _ _
  stable := by
    intro rows keep spares row member kept
    rw [Bool.eq_iff_iff, expired_iff, expired_iff]
    constructor
    · rintro ⟨old, newer, inside, rest⟩
      exact ⟨old, newer, List.mem_of_mem_filter inside, rest⟩
    · rintro ⟨old, newer, inside, alike, above⟩
      obtain ⟨newest, here, like, least, safe⟩ := newest_alike cutoff rows inside
      exact ⟨old, newest, List.mem_filter.mpr ⟨here, spares newest here safe⟩, like.trans alike, above.trans_le least⟩

theorem SnapshotTable.eq_of_key (table : SnapshotTable) {a b : CounterSnapshot} (first : a ∈ table.rows)
    (second : b ∈ table.rows) (same : a.key = b.key) : a = b :=
  List.inj_on_of_nodup_map table.primaryKey first second same

/-- The greatest stays the greatest among fewer. -/
theorem argmax_filter {rows : List CounterSnapshot} {keep : CounterSnapshot → Bool} {newest : CounterSnapshot}
    (best : rows.argmax CounterSnapshot.capturedAt = some newest) (kept : keep newest = true)
    (alone : ∀ row ∈ rows, row.capturedAt = newest.capturedAt → row = newest) :
    (rows.filter keep).argmax CounterSnapshot.capturedAt = some newest := by
  rw [List.argmax_eq_some_iff]
  refine ⟨List.mem_filter.mpr ⟨List.argmax_mem best, kept⟩, ?_, ?_⟩
  · intro row member
    exact List.le_of_mem_argmax (List.mem_of_mem_filter member) best
  · intro row member above
    have inside := List.mem_of_mem_filter member
    have equal := le_antisymm (List.le_of_mem_argmax inside best) above
    rw [alone row inside equal]

section Latest

variable {table : SnapshotTable} {keep : CounterSnapshot → Bool} {cutoff : ℚ}
  (spares : ∀ row ∈ table.rows, expired cutoff table.rows row = false → keep row = true)

include spares

theorem engineKeys_filter (targetId epochId engineKey : String) :
    engineKey ∈ ((table.rows.filter keep).filter fun row => row.targetId = targetId ∧ row.epochId = epochId).map
        CounterSnapshot.engineKey ↔
      engineKey ∈ (table.rows.filter fun row => row.targetId = targetId ∧ row.epochId = epochId).map
        CounterSnapshot.engineKey := by
  simp only [List.mem_map, List.mem_filter, decide_eq_true_eq]
  constructor
  · rintro ⟨row, ⟨⟨member, -⟩, own⟩, same⟩
    exact ⟨row, ⟨member, own⟩, same⟩
  · rintro ⟨row, ⟨member, target, epoch⟩, same⟩
    obtain ⟨newest, inside, alike, -, safe⟩ := newest_alike cutoff table.rows member
    exact ⟨newest, ⟨⟨inside, spares newest inside safe⟩, alike.1.trans target, alike.2.2.trans epoch⟩,
      alike.2.1.trans same⟩

theorem newest_filter (targetId epochId engineKey : String) :
    (((table.rows.filter keep).filter fun row => row.targetId = targetId ∧ row.epochId = epochId).filter
        fun row => row.engineKey = engineKey).argmax CounterSnapshot.capturedAt =
      ((table.rows.filter fun row => row.targetId = targetId ∧ row.epochId = epochId).filter
        fun row => row.engineKey = engineKey).argmax CounterSnapshot.capturedAt := by
  have order : ((table.rows.filter keep).filter fun row => decide (row.targetId = targetId ∧ row.epochId = epochId)).filter
      (fun row => decide (row.engineKey = engineKey)) =
      ((table.rows.filter fun row => decide (row.targetId = targetId ∧ row.epochId = epochId)).filter
        fun row => decide (row.engineKey = engineKey)).filter keep := by
    simp only [List.filter_filter]
    apply List.filter_congr
    intro row _
    cases keep row <;> simp
  rw [order]
  cases best : ((table.rows.filter fun row => decide (row.targetId = targetId ∧ row.epochId = epochId)).filter
      fun row => decide (row.engineKey = engineKey)).argmax CounterSnapshot.capturedAt with
  | none => rw [List.argmax_eq_none.mp best]; rfl
  | some newest =>
    have inside := List.argmax_mem best
    simp only [List.mem_filter, decide_eq_true_eq] at inside
    obtain ⟨⟨member, target, epoch⟩, engine⟩ := inside
    apply argmax_filter best
    · apply spares newest member
      rw [Bool.eq_false_iff, Ne, expired_iff]
      rintro ⟨-, newer, here, alike, above⟩
      have beside := List.le_of_mem_argmax (a := newer) (by simp [alike.1, alike.2.1, alike.2.2, *]) best
      exact absurd beside (not_le.mpr above)
    · intro row other same
      simp only [List.mem_filter, decide_eq_true_eq] at other
      obtain ⟨⟨here, target', -⟩, engine'⟩ := other
      apply table.eq_of_key here member
      simp [CounterSnapshot.key, target, target', engine, engine', same]

/-- What keeps, of rows that are alike, the newest, keeps what `latest_counter_snapshots` returns. -/
theorem latest_filter (targetId epochId : String) :
    latestCounterSnapshots (table.rows.filter keep) targetId epochId =
      latestCounterSnapshots table.rows targetId epochId := by
  have keys : (((table.rows.filter keep).filter fun row => decide (row.targetId = targetId ∧ row.epochId = epochId)).map
      CounterSnapshot.engineKey).dedup.insertionSort (· ≤ ·) =
      ((table.rows.filter fun row => decide (row.targetId = targetId ∧ row.epochId = epochId)).map
        CounterSnapshot.engineKey).dedup.insertionSort (· ≤ ·) := by
    apply List.Perm.eq_of_pairwise' (List.pairwise_insertionSort _ _) (List.pairwise_insertionSort _ _)
    refine (List.perm_insertionSort _ _).trans (List.Perm.trans ?_ (List.perm_insertionSort _ _).symm)
    rw [List.perm_ext_iff_of_nodup (List.nodup_dedup _) (List.nodup_dedup _)]
    intro engineKey
    rw [List.mem_dedup, List.mem_dedup]
    exact engineKeys_filter spares targetId epochId engineKey
  simp only [latestCounterSnapshots]
  rw [keys]
  apply List.filterMap_congr
  intro engineKey _
  exact newest_filter spares targetId epochId engineKey

end Latest

/-- A transaction of `prune` leaves the baseline of every target and epoch. -/
theorem pruneBatch_latest (cutoff : ℚ) (chunk : Nat) (table : SnapshotTable) (targetId epochId : String) :
    latestCounterSnapshots (pruneBatch cutoff chunk table).rows targetId epochId =
      latestCounterSnapshots table.rows targetId epochId := by
  obtain ⟨keep, same, spares⟩ := deleteBatch_spares chunk (expired_sweeps cutoff) table.primaryKey
  have left : (pruneBatch cutoff chunk table).rows = table.rows.filter keep := same
  rw [left]
  exact latest_filter spares targetId epochId

theorem prune_rows {cutoff : ℚ} {chunk : Nat} (positive : 0 < chunk) (table : SnapshotTable) :
    prune cutoff chunk table = some (table.rows.filter fun row => !expired cutoff table.rows row) :=
  deleteChunks_eq (expired_sweeps cutoff) positive table.primaryKey (Nat.lt_succ_self _)

theorem prune_latest (cutoff : ℚ) (table : SnapshotTable) (targetId epochId : String) :
    latestCounterSnapshots (table.rows.filter fun row => !expired cutoff table.rows row) targetId epochId =
      latestCounterSnapshots table.rows targetId epochId := by
  have spares : ∀ row ∈ table.rows, expired cutoff table.rows row = false → (!expired cutoff table.rows row) = true := by
    intro row _ safe
    simp [safe]
  exact latest_filter spares targetId epochId

end Snapshots

section Events

variable {Target : Type} [DecidableEq Target]

/-- What a transaction of `prune_events` selects from. -/
def staleEvents (targetId : Target) (floor : Nat) (cutoff : Int) (rows : List (EventRow Target)) :
    List (EventRow Target) :=
  rows.filter fun row => row.targetId = targetId && row.seq < floor && row.createdAt < cutoff

/-- The loop of `prune_events` for one target. -/
def pruneTarget (cutoff : Int) (keep chunk : Nat) (log : EventLog Target) (targetId : Target) :
    Option (EventLog Target) :=
  match keepFloor log targetId keep with
  | none => some log
  | some floor =>
    (deleteChunks EventRow.seq (staleEvents targetId floor cutoff) chunk (log.rows.length + 1) log.rows).map
      fun rows => { log with rows := rows }

/-- `prune_events`. -/
def pruneAllEvents (cutoff : Int) (keep chunk : Nat) (log : EventLog Target) : Option (EventLog Target) :=
  (log.rows.map EventRow.targetId).dedup.foldlM (pruneTarget cutoff keep chunk) log

def newest (count : Nat) (events : List (EventRow Target)) : List (EventRow Target) :=
  events.drop (events.length - count)

omit [DecidableEq Target] in
theorem seqs_distinct {log : EventLog Target} (ordered : log.Ordered) :
    (log.rows.map EventRow.seq).Nodup := by
  rw [List.nodup_iff_pairwise_ne, List.pairwise_map]
  exact ordered.increasing.imp Nat.ne_of_lt

/-- The floor divides the newest events from the rest. -/
theorem newest_of_floor {log : EventLog Target} (ordered : log.Ordered) {targetId : Target} {keep floor : Nat}
    (found : keepFloor log targetId keep = some floor) {row : EventRow Target} (member : row ∈ eventsOf log targetId) :
    row ∈ newest (max keep 1) (eventsOf log targetId) ↔ floor ≤ row.seq := by
  obtain ⟨edge, there, rfl⟩ := Option.map_eq_some_iff.mp found
  obtain ⟨within, value⟩ := List.getElem?_eq_some_iff.mp there
  rw [List.length_reverse] at within
  have place : (eventsOf log targetId).length - max keep 1 = (eventsOf log targetId).length - 1 - (keep - 1) := by omega
  have inside : (eventsOf log targetId).length - 1 - (keep - 1) < (eventsOf log targetId).length := by omega
  have split := List.drop_eq_getElem_cons inside
  have start := List.take_append_drop ((eventsOf log targetId).length - 1 - (keep - 1)) (eventsOf log targetId)
  rw [List.getElem_reverse] at value
  rw [newest, place]
  rw [split, value] at start ⊢
  have grows := ordered.events targetId
  rw [← start, Increasing.by_append, Increasing.by_cons] at grows
  rw [← start, List.mem_append] at member
  constructor
  · intro late
    rcases List.mem_cons.mp late with rfl | later
    · exact le_rfl
    · exact (grows.2.1.1 row later).le
  · intro above
    rcases member with early | late
    · have below := grows.2.2 row early edge List.mem_cons_self
      omega
    · exact late

theorem newest_of_few {log : EventLog Target} {targetId : Target} {keep : Nat}
    (none_ : keepFloor log targetId keep = none) : newest (max keep 1) (eventsOf log targetId) = eventsOf log targetId := by
  have few := List.getElem?_eq_none_iff.mp (Option.map_eq_none_iff.mp none_)
  rw [List.length_reverse] at few
  have all : (eventsOf log targetId).length - max keep 1 = 0 := by omega
  rw [newest, all, List.drop_zero]

/-- An event that a prune leaves of a target. -/
def retained (cutoff : Int) (keep : Nat) (events : List (EventRow Target)) (row : EventRow Target) : Bool :=
  row ∈ newest (max keep 1) events || cutoff ≤ row.createdAt

theorem pruneTarget_spec {log : EventLog Target} (ordered : log.Ordered) (cutoff : Int) (keep : Nat) {chunk : Nat}
    (positive : 0 < chunk) (targetId : Target) :
    ∃ left, pruneTarget cutoff keep chunk log targetId = some left ∧ left.Ordered ∧
      (eventsOf left targetId = (eventsOf log targetId).filter (retained cutoff keep (eventsOf log targetId))) ∧
      ∀ other, other ≠ targetId → eventsOf left other = eventsOf log other := by
  rw [pruneTarget]
  cases found : keepFloor log targetId keep with
  | none =>
    refine ⟨log, rfl, ordered, ?_, fun _ _ => rfl⟩
    rw [eq_comm, List.filter_eq_self]
    intro row member
    simp [retained, newest_of_few found, member]
  | some floor =>
    have deleted : deleteChunks EventRow.seq (staleEvents targetId floor cutoff) chunk (log.rows.length + 1) log.rows =
        some (log.rows.filter fun row =>
          !(decide (row.targetId = targetId) && decide (row.seq < floor) && decide (row.createdAt < cutoff))) :=
      deleteChunks_eq (Sweeps.of_filter _) positive (seqs_distinct ordered) (Nat.lt_succ_self _)
    simp only [deleted, Option.map_some]
    refine ⟨_, rfl, ⟨?_, ?_⟩, ?_, ?_⟩
    · exact ordered.increasing.sublist List.filter_sublist
    · intro row member
      exact ordered.bounded row (List.mem_of_mem_filter member)
    · rw [eventsOf, eventsOf, List.filter_filter, List.filter_filter]
      apply List.filter_congr
      intro row member
      by_cases own : row.targetId = targetId
      · have divided := newest_of_floor ordered found (eventsOf_mem.mpr ⟨member, own⟩)
        rw [eventsOf] at divided
        by_cases early : row.seq < floor
        · have outside := mt divided.mp (not_le.mpr early)
          have age : decide (row.createdAt < cutoff) = !decide (cutoff ≤ row.createdAt) := by
            rw [← decide_not]
            exact decide_eq_decide.mpr not_le.symm
          simp [retained, own, early, outside, age]
        · have inside := divided.mpr (not_lt.mp early)
          simp [retained, own, early, inside]
      · simp [own]
    · intro other apart
      rw [eventsOf, eventsOf, List.filter_filter]
      apply List.filter_congr
      intro row _
      by_cases own : row.targetId = other
      · simp [own, apart]
      · simp [own]

/-- What a prune leaves of every target's events. -/
structure Pruned (cutoff : Int) (keep : Nat) (log left : EventLog Target) : Prop where
  ordered : left.Ordered
  kept : ∀ targetId,
    eventsOf left targetId = (eventsOf log targetId).filter (retained cutoff keep (eventsOf log targetId))

theorem foldlM_pruneTarget (cutoff : Int) (keep : Nat) {chunk : Nat} (positive : 0 < chunk) {targets : List Target}
    (once : targets.Nodup) {log : EventLog Target} (ordered : log.Ordered) :
    ∃ left, targets.foldlM (pruneTarget cutoff keep chunk) log = some left ∧ left.Ordered ∧
      (∀ targetId ∈ targets,
        eventsOf left targetId = (eventsOf log targetId).filter (retained cutoff keep (eventsOf log targetId))) ∧
      ∀ targetId, targetId ∉ targets → eventsOf left targetId = eventsOf log targetId := by
  induction targets generalizing log with
  | nil => exact ⟨log, rfl, ordered, fun _ none_ => absurd none_ List.not_mem_nil, fun _ _ => rfl⟩
  | cons first rest ih =>
    obtain ⟨absent, tail⟩ := List.nodup_cons.mp once
    obtain ⟨next, pruned, orderly, own, others⟩ := pruneTarget_spec ordered cutoff keep positive first
    obtain ⟨left, done, sound, each, spare⟩ := ih tail orderly
    refine ⟨left, ?_, sound, ?_, ?_⟩
    · rw [List.foldlM_cons, pruned]
      exact done
    · intro targetId member
      rcases List.mem_cons.mp member with rfl | later
      · rw [spare targetId absent, own]
      · have apart : targetId ≠ first := fun same => absent (same ▸ later)
        rw [each targetId later, others targetId apart]
    · intro targetId outside
      rw [List.mem_cons, not_or] at outside
      rw [spare targetId outside.2, others targetId outside.1]

theorem pruneAllEvents_spec {log : EventLog Target} (ordered : log.Ordered) (cutoff : Int) (keep : Nat) {chunk : Nat}
    (positive : 0 < chunk) : ∃ left, pruneAllEvents cutoff keep chunk log = some left ∧ Pruned cutoff keep log left := by
  obtain ⟨left, done, sound, each, spare⟩ := foldlM_pruneTarget cutoff keep positive
    (List.nodup_dedup (log.rows.map EventRow.targetId)) ordered
  refine ⟨left, done, sound, ?_⟩
  intro targetId
  by_cases listed : targetId ∈ (log.rows.map EventRow.targetId).dedup
  · exact each targetId listed
  · have nothing : eventsOf log targetId = [] := by
      rw [List.eq_nil_iff_forall_not_mem]
      intro row member
      obtain ⟨inside, own⟩ := eventsOf_mem.mp member
      exact listed (List.mem_dedup.mpr (List.mem_map.mpr ⟨row, inside, own⟩))
    rw [spare targetId listed, nothing, List.filter_nil]

/-- However often it runs and whatever is stored, each transaction of `prune` and all of it leave the baselines of every
target and epoch as they are, and `prune_events` leaves of every target's events the newest, one at least, and those
that are not before the cutoff. -/
theorem prune_keeps_baselines (table : SnapshotTable) (log : EventLog Target) (ordered : log.Ordered) (cutoff : ℚ)
    (eventCutoff : Int) (keep chunk : Nat) (positive : 0 < chunk) :
    (∀ targetId epochId, latestCounterSnapshots (pruneBatch cutoff chunk table).rows targetId epochId =
        latestCounterSnapshots table.rows targetId epochId) ∧
      (∃ left, prune cutoff chunk table = some left ∧ ∀ targetId epochId,
        latestCounterSnapshots left targetId epochId = latestCounterSnapshots table.rows targetId epochId) ∧
      ∃ left, pruneAllEvents eventCutoff keep chunk log = some left ∧ left.Ordered ∧
        ∀ targetId, eventsOf left targetId = (eventsOf log targetId).filter fun row =>
          row ∈ newest (max keep 1) (eventsOf log targetId) || eventCutoff ≤ row.createdAt := by
  refine ⟨pruneBatch_latest cutoff chunk table, ⟨_, prune_rows positive table, prune_latest cutoff table⟩, ?_⟩
  obtain ⟨left, done, pruned⟩ := pruneAllEvents_spec ordered eventCutoff keep positive
  exact ⟨left, done, pruned.ordered, pruned.kept⟩

/-- Two idle engine keys and one that went on, in two epochs. -/
def idleTable : SnapshotTable where
  rows := [⟨"t", "a", "e", 1, some 5, none, none, none, none, none, none⟩,
    ⟨"t", "a", "e", 2, some 6, none, none, none, none, none, none⟩,
    ⟨"t", "a", "f", 3, some 1, none, none, none, none, none, none⟩,
    ⟨"t", "b", "e", 1, some 9, none, none, none, none, none, none⟩]
  primaryKey := by decide +kernel

def twoEvents : EventLog String := ⟨[⟨1, "t", 0, 5⟩, ⟨2, "t", 1, 6⟩], 2⟩

theorem twoEvents_ordered : twoEvents.Ordered where
  increasing := by decide
  bounded := by decide

theorem prune_keeps_baselines_idle :
    (∃ left, prune 10 1 idleTable = some left ∧ ∀ targetId epochId,
      latestCounterSnapshots left targetId epochId = latestCounterSnapshots idleTable.rows targetId epochId) ∧
      ∃ left, pruneAllEvents 10 1 1 twoEvents = some left ∧ left.Ordered ∧
        ∀ targetId, eventsOf left targetId = (eventsOf twoEvents targetId).filter fun row =>
          row ∈ newest 1 (eventsOf twoEvents targetId) || 10 ≤ row.createdAt :=
  (prune_keeps_baselines idleTable twoEvents twoEvents_ordered 10 10 1 1 Nat.one_pos).2

/-- Asked to keep no event, the code keeps the last. -/
theorem keep_nothing_keeps_one :
    ((pruneAllEvents 10 0 1 twoEvents).map fun left => eventsOf left "t") = some [⟨2, "t", 1, 6⟩] ∧
      ((eventsOf twoEvents "t").filter fun row =>
        row ∈ newest 0 (eventsOf twoEvents "t") || (10 : Int) ≤ row.createdAt) = [] := by
  decide +kernel

end Events

end Rdst.Observation.Retention
