import Mathlib.Algebra.Order.Group.Nat
import Rdst.Monitor.Ranking
import Rdst.Series.Minutes

namespace Rdst.Monitor.Ranking

open Assoc Buckets Totals Tracking Series

variable (isWorkload : List Char → Bool) (s : Store) (r : Reading)

/-- Whether record takes the reading's counters at all. -/
def isRecorded : Bool := s.tables.enabled && !Tracking.baselineBroken s.tables r.loads

/-- The counters of an untracked total. -/
def untrackedCounters : Option (Int × ℚ) → Series.Counters
  | none => 0
  | some (calls, ms) => ⟨calls, ms, 0, 0, 0, 0⟩

/-- Where each part of a reading is to land: a statement that is not excluded in its own row when it has a
    rank, the other ones and what was not fetched in everything else. -/
def landings : List (String × Series.Counters) :=
  ((r.statements.filter fun row => row.1 ∉ (tiered isWorkload s r).notWorkload).map fun row =>
      (if row.1 ∈ (tiered isWorkload s r).queryTier.keys then row.1 else everythingElse, row.2)) ++
    [(everythingElse, untrackedCounters r.untracked)]

def landed (key : String) : Series.Counters := total Prod.snd (fun row => row.1 = key) (landings isWorkload s r)

def minuteRow (history : Series.Store) (key : String) : Series.Counters :=
  (history.series.lookup ⟨key, 60, start 60 r.ts⟩).getD 0

def minuteSum (history : Series.Store) : Series.Counters := sumWhere (RowKey.InMinute r.ts) history.series

/-- The history that the reading is added to: what is left when system queries are forgotten and displaced
    ones folded. -/
def cleared : Series.Store := if s.tables.enabled then (tiered isWorkload s r).history else s.history

/-- Every counter of the reading is added once, to the minute row that it belongs to. -/
def Accounted : Prop :=
  (∀ key, minuteRow r (record isWorkload s r).history key =
    minuteRow r (cleared isWorkload s r) key + landed isWorkload s r key) ∧
  minuteSum r (record isWorkload s r).history = minuteSum r s.history + ((landings isWorkload s r).map Prod.snd).sum

/-- The statements that go to everything else. -/
def unranked : List (String × Series.Counters) :=
  (r.statements.filter fun row => row.1 ∉ (tiered isWorkload s r).notWorkload).filter fun row =>
    row.1 ∉ (tiered isWorkload s r).queryTier.keys

/-- The counters of a statement that the everything-else row has no share in. -/
def neglected (counters : Series.Counters) : Series.Counters := ⟨0, 0, counters.rows, counters.blksHit, counters.blksRead, 0⟩

/-- The counters of a statement that it has a share in. -/
def shared (counters : Series.Counters) : Series.Counters := ⟨counters.calls, counters.totalMs, 0, 0, 0, counters.tempBlks⟩

def elseCounters : Series.Counters :=
  ((unranked isWorkload s r).map fun row => shared row.2).sum + untrackedCounters r.untracked

/-- What record leaves out of everything else: columns it does not add up, and the row as a whole when it
    has neither calls nor time. -/
def lost : Series.Counters :=
  ((unranked isWorkload s r).map fun row => neglected row.2).sum +
    if (elseCounters isWorkload s r).calls ≠ 0 ∨ (elseCounters isWorkload s r).totalMs ≠ 0 then 0
    else elseCounters isWorkload s r

/-- The minute's rows of queries that the reading is the first to call system queries. -/
def forgottenSum : Series.Counters :=
  sumWhere (fun row => row.InMinute r.ts ∧ row.queryKey ∈ r.systemKeys ∧ row.queryKey ∉ s.history.systemQuery)
    s.history.series

/-- Record leaves nothing out of the minute. -/
structure LosesNothing : Prop where
  shares : isRecorded s r = true → lost isWorkload s r = 0
  unrecorded : isRecorded s r = false → ∀ key, landed isWorkload s r key = 0
  stays : s.tables.enabled = true → forgottenSum s r = 0

section Sums

variable {isWorkload s r}

theorem counters_cancel {a b c : Series.Counters} (same : a + b = a + c) : b = c := by
  have calls := congrArg Series.Counters.calls same
  have totalMs := congrArg Series.Counters.totalMs same
  have rows := congrArg Series.Counters.rows same
  have blksHit := congrArg Series.Counters.blksHit same
  have blksRead := congrArg Series.Counters.blksRead same
  have tempBlks := congrArg Series.Counters.tempBlks same
  simp only [add_calls, add_totalMs, add_rows, add_blksHit, add_blksRead, add_tempBlks] at *
  ext
  · omega
  · exact add_left_cancel totalMs
  · omega
  · omega
  · omega
  · omega

theorem shared_neglected (counters : Series.Counters) : shared counters + neglected counters = counters := by
  ext <;> simp [shared, neglected]

theorem sum_shared_neglected (rows : List (String × Series.Counters)) :
    (rows.map fun row => shared row.2).sum + (rows.map fun row => neglected row.2).sum = (rows.map Prod.snd).sum := by
  induction rows with
  | nil => simp
  | cons row rest ih =>
    simp only [List.map_cons, List.sum_cons]
    rw [add_add_add_comm, ih, shared_neglected]

theorem minuteRow_sum (history : Series.Store) (key : String) :
    minuteRow r history key = sumWhere (fun row => row = ⟨key, 60, start 60 r.ts⟩) history.series :=
  (sumWhere_one _ _).symm

/-- Rows whose keys add up to nothing each add up to nothing. -/
theorem sum_eq_zero {rows : List (String × Series.Counters)}
    (each : ∀ key, total Prod.snd (fun row => row.1 = key) rows = 0) : (rows.map Prod.snd).sum = 0 := by
  have whole : total (fun group : String × List (String × Series.Counters) => (group.2.map Prod.snd).sum) (fun _ => True)
      (grouped Prod.fst rows) = total Prod.snd (fun _ => True) rows := sum_grouped fun _ => True
  have rows_sum : total Prod.snd (fun _ => True) rows = (rows.map Prod.snd).sum := by simp [total]
  rw [← rows_sum, ← whole]
  apply List.sum_eq_zero
  intro sum member
  obtain ⟨group, inside, rfl⟩ := List.mem_map.mp member
  rw [mem_grouped (List.mem_filter.mp inside).1]
  exact each group.1

end Sums

section History

theorem tiered_series : (tiered isWorkload s r).history.series = (trimmed s r).history.series := by
  unfold tiered
  simp only
  split <;> split <;> rfl

theorem forgotten_series : (forgotten s r).history.series =
    keepKeys (fun row => !(r.systemKeys.filter fun key => !s.history.systemQuery.contains key).contains row.queryKey)
      s.history.series := by
  unfold forgotten
  simp only
  unfold markDirty
  split <;> rfl

theorem trimmed_minute : minuteSum r (trimmed s r).history = minuteSum r (forgotten s r).history := by
  unfold trimmed
  simp only
  split
  · exact trim_minute _ _
  · rfl

/-- Forgetting and folding take out of the minute what system queries had there. -/
theorem cleared_minute (enabled : s.tables.enabled = true) :
    minuteSum r s.history = minuteSum r (cleared isWorkload s r) + forgottenSum s r := by
  have same : minuteSum r (cleared isWorkload s r) = minuteSum r (forgotten s r).history := by
    rw [← trimmed_minute, cleared, if_pos enabled, minuteSum, minuteSum, tiered_series]
  rw [same]
  unfold minuteSum
  rw [forgotten_series, sumWhere_keepKeys, sumWhere_split fun row =>
    (!(r.systemKeys.filter fun key => !s.history.systemQuery.contains key).contains row.queryKey) = true]
  congr 1
  unfold forgottenSum
  apply total_congr
  · intro entry _
    simp
  · exact fun _ _ _ => rfl

/-- The rows that record files. -/
def filedRows : List (String × Series.Counters) := (reception s r (tiered isWorkload s r) none).detailed

theorem record_sum (enabled : s.tables.enabled = true) (test : RowKey → Prop) [DecidablePred test]
    (minute : ∀ row, test row → row.InMinute r.ts) :
    sumWhere test (record isWorkload s r).history.series = sumWhere test (cleared isWorkload s r).series +
      total Prod.snd (fun row => test ⟨row.1, 60, start 60 r.ts⟩) (filedRows isWorkload s r) := by
  have recorded : (record isWorkload s r).history =
      Series.rollup (Series.fileRows (tiered isWorkload s r).history (reception s r (tiered isWorkload s r) none)) r.ts
        r.preference := by
    simp [record, enabled]
  have filed : (Series.fileRows (tiered isWorkload s r).history (reception s r (tiered isWorkload s r) none)).series =
      ((filedRows isWorkload s r).map fun row => ((⟨row.1, 60, start 60 r.ts⟩ : RowKey), row.2)).foldl
        (fun series row => Series.upsert (fun _ => true) series row.1 row.2) (cleared isWorkload s r).series := by
    rw [List.foldl_map, cleared, if_pos enabled]
    rfl
  rw [recorded, sumWhere_congr fun row inTest => rollup_minute r.preference (minute row inTest), filed,
    sumWhere_upserts, total_map]

end History

section Columns

variable (test : String → Prop) [DecidablePred test]

/-- The statements that get a row of their own. -/
def ranked : List (String × Series.Counters) :=
  (r.statements.filter fun row => row.1 ∉ (tiered isWorkload s r).notWorkload).filter fun row =>
    row.1 ∈ (tiered isWorkload s r).queryTier.keys

theorem landings_total : total Prod.snd (fun row => test row.1) (landings isWorkload s r) =
    total Prod.snd (fun row => test row.1) (ranked isWorkload s r) +
      if test everythingElse then ((unranked isWorkload s r).map Prod.snd).sum + untrackedCounters r.untracked else 0 := by
  unfold landings ranked unranked
  generalize (r.statements.filter fun row => row.1 ∉ (tiered isWorkload s r).notWorkload) = counted
  generalize (tiered isWorkload s r).queryTier.keys = ranks
  rw [total_append, total_map, total_split fun row : String × Series.Counters => row.1 ∈ ranks]
  have own : total Prod.snd (fun row : String × Series.Counters =>
      test (if row.1 ∈ ranks then row.1 else everythingElse) ∧ row.1 ∈ ranks) counted =
      total Prod.snd (fun row => test row.1) (counted.filter fun row => row.1 ∈ ranks) := by
    unfold total
    rw [List.filter_filter]
    congr 2
    apply List.filter_congr
    intro row _
    by_cases rank : row.1 ∈ ranks <;> simp [rank]
  have other : total Prod.snd (fun row : String × Series.Counters =>
      test (if row.1 ∈ ranks then row.1 else everythingElse) ∧ ¬ row.1 ∈ ranks) counted =
      if test everythingElse then ((counted.filter fun row => row.1 ∉ ranks).map Prod.snd).sum else 0 := by
    by_cases met : test everythingElse
    · rw [if_pos met]
      unfold total
      congr 2
      apply List.filter_congr
      intro row _
      by_cases rank : row.1 ∈ ranks <;> simp [rank, met]
    · rw [if_neg met]
      apply total_eq_zero
      intro row _ both
      rw [if_neg both.2] at both
      exact met both.1
  rw [own, other, total_cons, total_nil, add_zero]
  by_cases met : test everythingElse
  · simp only [if_pos met]
    rw [add_assoc]
  · simp only [if_neg met, add_zero]

theorem reception_other (q : Series.Reception) : q.other =
    (((q.statements.filter fun row => row.1 ∉ q.excluded).filter fun row => row.1 ∉ q.ranks).map
      fun row => shared row.2).sum + untrackedCounters q.untracked := by
  have left_over : (q.statements.filter fun row => !q.excluded.contains row.1 && !q.ranks.contains row.1) =
      (q.statements.filter fun row => row.1 ∉ q.excluded).filter fun row => row.1 ∉ q.ranks := by
    rw [List.filter_filter]
    apply List.filter_congr
    intro row _
    by_cases out : row.1 ∈ q.excluded <;> by_cases rank : row.1 ∈ q.ranks <;> simp [out, rank]
  unfold Series.Reception.other
  simp only
  rw [left_over]
  cases q.untracked <;> rfl

theorem reception_detailed (q : Series.Reception) : q.detailed =
    ((q.statements.filter fun row => row.1 ∉ q.excluded).filter fun row => row.1 ∈ q.ranks) ++
      if q.other.calls ≠ 0 ∨ q.other.totalMs ≠ 0 then [(everythingElse, q.other)] else [] := by
  unfold Series.Reception.detailed
  rw [List.filter_filter]
  congr 1
  apply List.filter_congr
  intro row _
  by_cases out : row.1 ∈ q.excluded <;> by_cases rank : row.1 ∈ q.ranks <;> simp [out, rank]

theorem filedRows_recorded (recorded : isRecorded s r = true) : filedRows isWorkload s r =
    ranked isWorkload s r ++
      if (elseCounters isWorkload s r).calls ≠ 0 ∨ (elseCounters isWorkload s r).totalMs ≠ 0 then
        [(everythingElse, elseCounters isWorkload s r)] else [] := by
  have holds : Tracking.baselineBroken s.tables r.loads = false := by
    simp only [isRecorded, Bool.and_eq_true, Bool.not_eq_true'] at recorded
    exact recorded.2
  have read : statements s r = r.statements := by simp [statements, holds]
  have outside : untracked s r = r.untracked := by simp [untracked, holds]
  have other : (reception s r (tiered isWorkload s r) none).other = elseCounters isWorkload s r := by
    rw [reception_other]
    show (((statements s r).filter _).filter _ |>.map _).sum + untrackedCounters (untracked s r) = _
    rw [read, outside]
    rfl
  rw [filedRows, reception_detailed, other]
  show ((statements s r).filter _).filter _ ++ _ = _
  rw [read]
  rfl

theorem filedRows_broken (broken : Tracking.baselineBroken s.tables r.loads = true) : filedRows isWorkload s r = [] := by
  have none_left : (reception s r (tiered isWorkload s r) none).statements = [] := by simp [reception, statements, broken]
  have nothing : (reception s r (tiered isWorkload s r) none).untracked = none := by simp [reception, untracked, broken]
  simp [filedRows, Series.Reception.detailed, Series.Reception.other, none_left, nothing]

/-- What lands is what is filed and what is lost. -/
theorem landings_filed (recorded : isRecorded s r = true) :
    total Prod.snd (fun row => test row.1) (landings isWorkload s r) =
      total Prod.snd (fun row => test row.1) (filedRows isWorkload s r) +
        if test everythingElse then lost isWorkload s r else 0 := by
  rw [landings_total, filedRows_recorded isWorkload s r recorded, total_append, add_assoc]
  congr 1
  have whole : ((unranked isWorkload s r).map Prod.snd).sum + untrackedCounters r.untracked =
      elseCounters isWorkload s r + ((unranked isWorkload s r).map fun row => neglected row.2).sum := by
    rw [← sum_shared_neglected, elseCounters, add_right_comm]
  by_cases met : test everythingElse
  · simp only [if_pos met]
    rw [whole, lost]
    split
    · rw [total_cons, if_pos met, total_nil, add_zero, add_zero]
    · rw [total_nil, zero_add, add_comm]
  · simp only [if_neg met]
    split
    · rw [total_cons, if_neg met, total_nil, add_zero, add_zero]
    · rw [total_nil, add_zero]

end Columns

/-- A reading that record takes in is in the minute's rows but for what it leaves out. -/
theorem record_row (key : String) (recorded : isRecorded s r = true) :
    minuteRow r (record isWorkload s r).history key + (if key = everythingElse then lost isWorkload s r else 0) =
      minuteRow r (cleared isWorkload s r) key + landed isWorkload s r key := by
  have enabled : s.tables.enabled = true := (Bool.and_eq_true_iff.mp recorded).1
  rw [minuteRow_sum, minuteRow_sum, record_sum isWorkload s r enabled _ fun row same => by subst same; exact ⟨rfl, rfl⟩]
  unfold landed
  rw [landings_filed isWorkload s r (fun other => other = key) recorded, ← add_assoc]
  have rows : total Prod.snd (fun row : String × Series.Counters => (⟨row.1, 60, start 60 r.ts⟩ : RowKey) =
      ⟨key, 60, start 60 r.ts⟩) (filedRows isWorkload s r) =
      total Prod.snd (fun row => row.1 = key) (filedRows isWorkload s r) := by
    apply total_congr
    · intro row _
      simp
    · exact fun _ _ _ => rfl
  rw [rows]
  by_cases same : key = everythingElse
  · rw [if_pos same, if_pos same.symm]
  · rw [if_neg same, if_neg (Ne.symm same)]

theorem minute_total {rows : List (String × Series.Counters)} :
    total Prod.snd (fun row => RowKey.InMinute r.ts ⟨row.1, 60, start 60 r.ts⟩) rows = (rows.map Prod.snd).sum := by
  have each : ∀ row ∈ rows, RowKey.InMinute r.ts ⟨row.1, 60, start 60 r.ts⟩ := fun _ _ => ⟨rfl, rfl⟩
  rw [total, List.filter_eq_self.mpr (by simpa using each)]

theorem record_minute (enabled : s.tables.enabled = true) : minuteSum r (record isWorkload s r).history =
    minuteSum r (cleared isWorkload s r) + ((filedRows isWorkload s r).map Prod.snd).sum := by
  unfold minuteSum
  rw [record_sum isWorkload s r enabled _ fun row same => same, minute_total]

theorem landings_sum (recorded : isRecorded s r = true) : ((landings isWorkload s r).map Prod.snd).sum =
    ((filedRows isWorkload s r).map Prod.snd).sum + lost isWorkload s r := by
  have whole := landings_filed isWorkload s r (fun _ => True) recorded
  simpa [total] using whole

/-- Where every counter lands, everything else leaves out nothing. -/
theorem Accounted.shares (accounted : Accounted isWorkload s r) (recorded : isRecorded s r = true) :
    lost isWorkload s r = 0 := by
  have row := record_row isWorkload s r everythingElse recorded
  rw [if_pos rfl, ← accounted.1 everythingElse] at row
  exact counters_cancel (row.trans (add_zero _).symm)

/-- Every counter of a reading is added once to the minute, in the own row of its statement or in everything
    else, just when record leaves nothing out of it. -/
theorem reading_accounted_iff : Accounted isWorkload s r ↔ LosesNothing isWorkload s r := by
  cases enabled : s.tables.enabled with
  | false =>
    have off : isRecorded s r = false := by simp [isRecorded, enabled]
    have same : record isWorkload s r = s := by simp [record, enabled]
    have held : cleared isWorkload s r = s.history := by simp [cleared, enabled]
    constructor
    · intro accounted
      refine ⟨by simp [off], fun _ key => ?_, by simp [enabled]⟩
      have row := accounted.1 key
      rw [same, held] at row
      exact (counters_cancel ((add_zero _).trans row)).symm
    · intro kept
      have nothing := kept.unrecorded off
      refine ⟨fun key => ?_, ?_⟩
      · rw [same, held, nothing key, add_zero]
      · rw [same, sum_eq_zero nothing, add_zero]
  | true =>
    have grown := record_minute isWorkload s r enabled
    have left_out := cleared_minute isWorkload s r enabled
    cases recorded : isRecorded s r with
    | false =>
      have broken : Tracking.baselineBroken s.tables r.loads = true := by simpa [isRecorded, enabled] using recorded
      have none_filed := filedRows_broken isWorkload s r broken
      have row : ∀ key, minuteRow r (record isWorkload s r).history key = minuteRow r (cleared isWorkload s r) key := by
        intro key
        rw [minuteRow_sum, minuteRow_sum,
          record_sum isWorkload s r enabled _ fun row same => by subst same; exact ⟨rfl, rfl⟩, none_filed, total_nil,
          add_zero]
      rw [none_filed, List.map_nil, List.sum_nil, add_zero] at grown
      constructor
      · intro accounted
        have nothing : ∀ key, landed isWorkload s r key = 0 := by
          intro key
          have here := accounted.1 key
          rw [row] at here
          exact (counters_cancel ((add_zero _).trans here)).symm
        refine ⟨by simp [recorded], fun _ => nothing, fun _ => ?_⟩
        have sums := accounted.2
        rw [grown, left_out, sum_eq_zero nothing, add_zero] at sums
        exact (counters_cancel ((add_zero _).trans sums)).symm
      · intro kept
        have nothing := kept.unrecorded recorded
        refine ⟨fun key => ?_, ?_⟩
        · rw [row, nothing key, add_zero]
        · rw [grown, left_out, kept.stays enabled, sum_eq_zero nothing, add_zero, add_zero]
    | true =>
      have sums := landings_sum isWorkload s r recorded
      constructor
      · intro accounted
        have all_shared := accounted.shares isWorkload s r recorded
        refine ⟨fun _ => all_shared, by simp [recorded], fun _ => ?_⟩
        have minute := accounted.2
        rw [grown, left_out, sums, all_shared, add_zero, add_assoc] at minute
        have right := counters_cancel minute
        rw [add_comm] at right
        exact (counters_cancel ((add_zero _).trans right)).symm
      · intro kept
        have all_shared := kept.shares recorded
        refine ⟨fun key => ?_, ?_⟩
        · have row := record_row isWorkload s r key recorded
          rw [all_shared, ite_self, add_zero] at row
          exact row
        · rw [grown, left_out, kept.stays enabled, sums, all_shared, add_zero, add_zero]

section Crowd

/-- Statement texts stand for their keys here: the n-th key has n letters. -/
def crowdKey (n : Nat) : String := String.ofList (List.replicate n 'q')

/-- The first reading of a target with so many queries: each ran once and returned one row. -/
def crowd (size : Nat) : Reading :=
  ⟨"collector", 0, (List.range size).map fun n => (crowdKey n, ⟨1, 1, 1, 0, 0, 0⟩), ∅, [], [], [], false, none, false, 7⟩

def emptyStore : Store := ⟨Tables.empty, [], ∅, none, Series.Store.empty⟩

theorem crowdKey_injective : Function.Injective crowdKey := by
  intro first second same
  have letters := congrArg (fun text : String => text.toList.length) same
  simpa [crowdKey] using letters

theorem tiered_notWorkload : (tiered isWorkload s r).notWorkload = (loaded isWorkload s r).notWorkload := by
  unfold tiered
  simp only
  split <;> split <;> rfl

/-- A store that was never ranked has no more ranks than the cap after a reading. -/
theorem tiered_length (first : (loaded isWorkload s r).tiersRankedAt = none) :
    (tiered isWorkload s r).queryTier.keys.length ≤ seriesQueries := by
  unfold tiered
  simp only
  rw [if_pos first]
  split <;> exact rankQueries_length _ _

theorem loaded_rankedAt : (loaded isWorkload s r).tiersRankedAt = s.tiersRankedAt := by
  unfold loaded trimmed
  simp only
  split <;> rfl

theorem crowd_workload (isWorkload : List Char → Bool) (size : Nat) :
    (tiered isWorkload emptyStore (crowd size)).notWorkload = [] := by
  rw [tiered_notWorkload]
  unfold loaded trimmed
  simp only
  split <;> rfl

theorem neglected_rows {rows : List (String × Series.Counters)} (each : ∀ row ∈ rows, row.2.rows = 1) :
    ((rows.map fun row => neglected row.2).sum).rows = rows.length := by
  induction rows with
  | nil => rfl
  | cons row rest ih =>
    have first : (neglected row.2).rows = 1 := each row (by simp)
    rw [List.map_cons, List.sum_cons, add_rows, ih fun other later => each other (List.mem_cons_of_mem _ later), first,
      List.length_cons]
    omega

theorem shared_rows (rows : List (String × Series.Counters)) : ((rows.map fun row => shared row.2).sum).rows = 0 := by
  induction rows with
  | nil => rfl
  | cons row rest ih =>
    rw [List.map_cons, List.sum_cons, add_rows, ih]
    rfl

/-- With more queries than the cap some have no rank, and the rows that they returned are in no minute row. -/
theorem crowd_lost (isWorkload : List Char → Bool) {size : Nat} (crowded : seriesQueries < size) :
    lost isWorkload emptyStore (crowd size) ≠ 0 := by
  have capped : (tiered isWorkload emptyStore (crowd size)).queryTier.keys.length ≤ seriesQueries :=
    tiered_length isWorkload emptyStore (crowd size) (loaded_rankedAt isWorkload emptyStore (crowd size))
  have each : ∀ row ∈ unranked isWorkload emptyStore (crowd size), row.2.rows = 1 := by
    intro row member
    obtain ⟨n, _, rfl⟩ := List.mem_map.mp (List.mem_filter.mp (List.mem_filter.mp member).1).1
    rfl
  have someone : unranked isWorkload emptyStore (crowd size) ≠ [] := by
    intro none_left
    have all_ranked : (List.range size).map crowdKey ⊆ (tiered isWorkload emptyStore (crowd size)).queryTier.keys := by
      intro key member
      obtain ⟨n, small, rfl⟩ := List.mem_map.mp member
      by_contra absent
      have here : (crowdKey n, (⟨1, 1, 1, 0, 0, 0⟩ : Series.Counters)) ∈ unranked isWorkload emptyStore (crowd size) := by
        unfold unranked
        rw [crowd_workload, List.mem_filter, List.mem_filter]
        exact ⟨⟨List.mem_map.mpr ⟨n, small, rfl⟩, by simp⟩, by simpa using absent⟩
      rw [none_left] at here
      cases here
    have distinct : ((List.range size).map crowdKey).Nodup := List.nodup_range.map crowdKey_injective
    have fits := (distinct.subperm all_ranked).length_le
    rw [List.length_map, List.length_range] at fits
    omega
  intro nothing
  have rows := congrArg Series.Counters.rows nothing
  have outside : (elseCounters isWorkload emptyStore (crowd size)).rows = 0 := by
    rw [elseCounters, add_rows, shared_rows]
    rfl
  have positive := List.length_pos_of_ne_nil someone
  rw [lost, add_rows, neglected_rows each] at rows
  split at rows
  · rw [zero_rows] at rows
    omega
  · rw [outside, zero_rows] at rows
    omega

theorem crowd_recorded (size : Nat) : isRecorded emptyStore (crowd size) = true := rfl

/-- The cap leaves a query without a rank, and everything else does not take in the rows that it returned. -/
theorem crowd_not_accounted : ¬ ∀ (s : Store) (r : Reading), Accounted (fun _ => true) s r := by
  intro all
  have shares := (all emptyStore (crowd (seriesQueries + 1))).shares _ _ _ (crowd_recorded _)
  exact crowd_lost _ (Nat.lt_succ_self seriesQueries) shares

end Crowd

end Rdst.Monitor.Ranking
