import Mathlib.Algebra.Order.BigOperators.Group.List
import Mathlib.Data.Rat.Cast.Order
import Mathlib.Tactic.Linarith
import Rdst.Series.Reads

/-! The load chart: rows are spread over the ticks of a time line, in bands for the leading queries and for the others. -/

namespace Rdst.Series

open Assoc Buckets Totals

/-- The buckets of a chart that a row falls into, each with its share of the row. -/
def parts (step : Nat) (row : StmtRow) : List (Nat × StmtRow × ℚ) :=
  if row.res ≤ step then [(row.ts / step * step, row, 1)]
  else
    let count := max 1 (row.res / step)
    (List.range count).map fun i => ((row.ts + i * step) / step * step, row, 1 / (count : ℚ))

def spread (rows : List StmtRow) (step : Nat) : List (Nat × StmtRow × ℚ) := rows.flatMap (parts step)

/-- `range(low, high + 1, step)`. -/
def rangeThrough (low high : Int) (step : Nat) : List Int :=
  (List.range ((high - low) / step + 1).toNat).map fun i : Nat => low + i * step

def timeline (start now : Int) (step : Nat) (firstTs : Option Int) (buckets : List Nat) : List Int :=
  let first := (firstTs.toList ++ (buckets.map Int.ofNat).min?.toList).min?
  let begins := (first.map fun first => max start first).getD now
  rangeThrough (begins / step * step) (now / step * step) step

/-- What a load chart shows: the leading queries, the ones under them, whether those have a band, the buckets that the
    database was read in, and the first reading of the history. -/
structure LoadChart where
  leaders : List String
  others : List String
  other : Bool
  step : Nat
  covered : Int → Bool
  firstTs : Option Int

structure LoadPoint where
  ts : Int
  seconds : Int
  totalMs : Option (List ℚ)
  calls : Option (List ℚ)
  meanMs : Option ℚ

section Chart

variable (chart : LoadChart)

def LoadChart.window (start now : Int) : Window := ⟨start, now + 1, some (chart.leaders ++ chart.others), some chart.step⟩

/-- `CASE WHEN query_key IN leaders THEN query_key ELSE 'other' END`. -/
def LoadChart.label (queryKey : String) : String := if queryKey ∈ chart.leaders then queryKey else "other"

/-- `band_rows`, for steps wider than a minute. -/
def LoadChart.bandRows (h : History) (start now : Int) : List StmtRow :=
  ((grouped (stepKey chart.step) ((selected h (chart.window start now)).map fun row =>
    { stmtFields row with queryKey := chart.label row.1.queryKey })).map sumGroup).mergeSort fun a b =>
      a.ts < b.ts || (a.ts = b.ts && a.queryKey ≤ b.queryKey)

/-- The band of a row. -/
def LoadChart.band (queryKey : String) : Option Nat :=
  match chart.leaders.idxOf? queryKey with
  | some index => some index
  | none => if chart.other = true then some chart.leaders.length else none

def LoadChart.width : Nat := chart.leaders.length + if chart.other = true then 1 else 0

/-- `ms[index] += row["total_ms"] * share`, for either column. -/
def LoadChart.addPart (value : StmtRow → ℚ) (bands : List ℚ) (part : Nat × StmtRow × ℚ) : List ℚ :=
  match chart.band part.2.1.queryKey with
  | some index => bands.modify index (· + value part.2.1 * part.2.2)
  | none => bands

def LoadChart.point (now : Int) (buckets : List (Nat × StmtRow × ℚ)) (bucket : Int) : LoadPoint :=
  let here := buckets.filter fun part => (part.1 : Int) = bucket
  let seconds := max 60 (min (chart.step : Int) (now - bucket))
  if here.isEmpty = true ∧ chart.covered bucket = false then ⟨bucket, seconds, none, none, none⟩
  else
    let ms := here.foldl (chart.addPart StmtRow.totalMs) (List.replicate chart.width 0)
    let calls := here.foldl (chart.addPart fun row => row.calls) (List.replicate chart.width 0)
    ⟨bucket, seconds, some ms, some calls, if calls.sum = 0 then none else some (ms.sum / calls.sum)⟩

def LoadChart.points (h : History) (start now : Int) : List LoadPoint :=
  let buckets := spread (chart.bandRows h start now) chart.step
  (timeline start now chart.step chart.firstTs (buckets.map Prod.fst)).map (chart.point now buckets)

/-- A column of the points that a value of the rows is added up in. -/
def LoadChart.Shows (column : LoadPoint → Option (List ℚ)) (value : StmtRow → ℚ) : Prop :=
  ∀ now buckets bucket, column (chart.point now buckets bucket) =
    let here := buckets.filter fun part => (part.1 : Int) = bucket
    if here.isEmpty = true ∧ chart.covered bucket = false then none
    else some (here.foldl (chart.addPart value) (List.replicate chart.width 0))

theorem shows_totalMs : chart.Shows LoadPoint.totalMs StmtRow.totalMs := by
  intro now buckets bucket
  unfold LoadChart.point
  simp only
  split <;> rfl

theorem shows_calls : chart.Shows LoadPoint.calls fun row => row.calls := by
  intro now buckets bucket
  unfold LoadChart.point
  simp only
  split <;> rfl

end Chart

/-- What a band adds up to over the points that have values. -/
def bandSum (column : LoadPoint → Option (List ℚ)) (index : Nat) (points : List LoadPoint) : ℚ :=
  (points.map fun point => ((column point).bind (·[index]?)).getD 0).sum

section Ticks

theorem mem_rangeThrough {low high x : Int} {step : Nat} (positive : 0 < step) :
    x ∈ rangeThrough low high step ↔ low ≤ x ∧ x ≤ high ∧ (step : Int) ∣ x - low := by
  have wide : (0 : Int) < step := by exact_mod_cast positive
  simp only [rangeThrough, List.mem_map, List.mem_range]
  constructor
  · rintro ⟨i, small, rfl⟩
    have count : (i : Int) ≤ (high - low) / step := by omega
    have inside := (Int.le_ediv_iff_mul_le wide).mp count
    refine ⟨by nlinarith, by linarith, ?_⟩
    rw [add_sub_cancel_left]
    exact Int.dvd_mul_left _ _
  · rintro ⟨after, before, i, same⟩
    have start : 0 ≤ i := by
      by_contra below
      nlinarith
    have count : i ≤ (high - low) / step := (Int.le_ediv_iff_mul_le wide).mpr (by linarith)
    refine ⟨i.toNat, by omega, ?_⟩
    rw [Int.toNat_of_nonneg start]
    linarith

theorem rangeThrough_nodup (low high : Int) {step : Nat} (positive : 0 < step) : (rangeThrough low high step).Nodup := by
  have wide : (step : Int) ≠ 0 := by exact_mod_cast positive.ne'
  apply List.nodup_range.map
  intro i j same
  have equal := mul_right_cancel₀ wide (add_left_cancel same)
  exact_mod_cast equal

end Ticks

section Shares

variable {step : Nat} {row : StmtRow}

/-- The shares of a row add up to it. -/
theorem sum_parts (value : StmtRow → ℚ) (step : Nat) (row : StmtRow) :
    ((parts step row).map fun part => value part.2.1 * part.2.2).sum = value row := by
  unfold parts
  split
  · simp
  · have some_ : ((max 1 (row.res / step) : Nat) : ℚ) ≠ 0 := by
      have : 1 ≤ max 1 (row.res / step) := Nat.le_max_left _ _
      exact_mod_cast Nat.one_le_iff_ne_zero.mp this
    rw [List.map_map]
    simp only [Function.comp_def, List.map_const', List.length_range, List.sum_replicate, nsmul_eq_mul]
    rw [mul_left_comm, mul_one_div_cancel some_, mul_one]

theorem parts_row {part : Nat × StmtRow × ℚ} (member : part ∈ parts step row) : part.2.1 = row := by
  unfold parts at member
  split at member
  · rw [List.mem_singleton.mp member]
  · obtain ⟨i, _, rfl⟩ := List.mem_map.mp member
    rfl

theorem total_spread (value : StmtRow → ℚ) (test : StmtRow → Prop) [DecidablePred test] (rows : List StmtRow) (step : Nat) :
    total (fun part => value part.2.1 * part.2.2) (fun part => test part.2.1) (spread rows step) =
      total value test rows := by
  induction rows with
  | nil => rfl
  | cons row rest ih =>
    have here : total (fun part => value part.2.1 * part.2.2) (fun part => test part.2.1) (parts step row) =
        if test row then value row else 0 := by
      by_cases met : test row
      · rw [if_pos met, ← sum_parts value step row, total, List.filter_eq_self.mpr]
        intro part member
        rw [parts_row member]
        exact decide_eq_true met
      · rw [if_neg met]
        apply total_eq_zero
        intro part member
        rwa [parts_row member]
    rw [total_cons, ← ih, ← here, ← total_append]
    rfl

end Shares

section Bands

variable {chart : LoadChart} {queryKey : String} {index : Nat}

theorem getElem_addParts (value : StmtRow → ℚ) (parts : List (Nat × StmtRow × ℚ)) (bands : List ℚ) (index : Nat) :
    (parts.foldl (chart.addPart value) bands)[index]? = bands[index]?.map (· +
      total (fun part => value part.2.1 * part.2.2) (fun part => chart.band part.2.1.queryKey = some index) parts) := by
  induction parts generalizing bands with
  | nil => simp
  | cons part rest ih =>
    rw [List.foldl_cons, ih, total_cons]
    unfold LoadChart.addPart
    cases band : chart.band part.2.1.queryKey with
    | none => simp
    | some own =>
      by_cases same : own = index
      · subst same
        simp [Function.comp_def, add_assoc]
      · simp [same]

/-- What a point shows of a band, nothing being shown as zero. -/
theorem point_band (column : LoadPoint → Option (List ℚ)) (value : StmtRow → ℚ)
    (shows : chart.Shows column value)
    (now : Int) (buckets : List (Nat × StmtRow × ℚ)) (bucket : Int) (inside : index < chart.width) :
    ((column (chart.point now buckets bucket)).bind (·[index]?)).getD 0 =
      total (fun part => value part.2.1 * part.2.2)
        (fun part => (part.1 : Int) = bucket ∧ chart.band part.2.1.queryKey = some index) buckets := by
  have whole : total (fun part => value part.2.1 * part.2.2) (fun part => chart.band part.2.1.queryKey = some index)
      (buckets.filter fun part => (part.1 : Int) = bucket) =
        total (fun part => value part.2.1 * part.2.2)
          (fun part => (part.1 : Int) = bucket ∧ chart.band part.2.1.queryKey = some index) buckets := by
    rw [total, total, List.filter_filter]
    simp only [Bool.decide_and, Bool.and_comm]
  rw [shows]
  simp only
  split
  · rename_i nothing
    rw [← whole, List.isEmpty_iff.mp nothing.1]
    rfl
  · rw [Option.bind_some, getElem_addParts, whole]
    simp [inside]

/-- The points of a chart that reaches every bucket add up to the rows. -/
theorem bandSum_points (column : LoadPoint → Option (List ℚ)) (value : StmtRow → ℚ)
    (shows : chart.Shows column value)
    {rows : List StmtRow} {ticks : List Int} (distinct : ticks.Nodup)
    (reaches : ∀ part ∈ spread rows chart.step, (part.1 : Int) ∈ ticks) (now : Int) (inside : index < chart.width) :
    bandSum column index (ticks.map (chart.point now (spread rows chart.step))) =
      total value (fun row => chart.band row.queryKey = some index) rows := by
  rw [bandSum, List.map_map]
  simp only [Function.comp_def, point_band column value shows now _ _ inside]
  rw [← total_spread value (fun row => chart.band row.queryKey = some index) rows chart.step]
  apply sum_of_cover
  intro part member
  rw [cover]
  split
  · rename_i own
    simp only [own, and_true]
    have once := List.count_eq_one_of_mem distinct (reaches part member)
    rw [List.count_eq_countP] at once
    rw [← once]
    congr 1
    funext bucket
    rw [beq_eq_decide, decide_eq_decide]
    exact eq_comm
  · rename_i other
    simp [other]

theorem band_leader (distinct : chart.leaders.Nodup) (own : chart.leaders[index]? = some queryKey) (other : String) :
    chart.band other = some index ↔ other = queryKey := by
  obtain ⟨small, rfl⟩ := List.getElem?_eq_some_iff.mp own
  unfold LoadChart.band
  cases found : chart.leaders.idxOf? other with
  | some place =>
    obtain ⟨inside, rfl, _⟩ := List.idxOf?_eq_some_iff.mp found
    simp only [Option.some_inj]
    exact distinct.getElem_inj_iff.symm
  | none =>
    have absent := List.idxOf?_eq_none_iff.mp found
    constructor
    · intro last
      simp only at last
      split at last
      · have := Option.some_inj.mp last
        omega
      · cases last
    · rintro rfl
      exact absurd (List.getElem_mem small) absent

theorem band_rest (last : chart.other = true) (other : String) :
    chart.band other = some chart.leaders.length ↔ other ∉ chart.leaders := by
  unfold LoadChart.band
  rw [← List.idxOf?_eq_none_iff]
  cases found : chart.leaders.idxOf? other with
  | some place =>
    obtain ⟨inside, _⟩ := List.idxOf?_eq_some_iff.mp found
    simpa using inside.ne
  | none => simp [last]

/-- A leading query keeps its name and its band. -/
theorem band_label (distinct : chart.leaders.Nodup) (named : "other" ∉ chart.leaders)
    (own : chart.leaders[index]? = some queryKey) (other : String) :
    chart.band (chart.label other) = some index ↔ other = queryKey := by
  rw [band_leader distinct own]
  have leading : queryKey ∈ chart.leaders := List.mem_of_getElem? own
  unfold LoadChart.label
  split
  · rfl
  · rename_i under
    constructor
    · rintro rfl
      exact absurd leading named
    · rintro rfl
      exact absurd leading under

theorem band_label_rest (named : "other" ∉ chart.leaders) (last : chart.other = true) (other : String) :
    chart.band (chart.label other) = some chart.leaders.length ↔ other ∉ chart.leaders := by
  rw [band_rest last]
  unfold LoadChart.label
  split
  · rfl
  · rename_i under
    exact iff_of_true named under

end Bands

section Placing

variable {chart : LoadChart} {h : History} {start now : Int} {step : Nat}

/-- A part lies in the bucket of some time of the row that was summed. -/
theorem part_time {source row : StmtRow} {part : Nat × StmtRow × ℚ}
    (summed : stepKey step source = (row.queryKey, row.ts, row.res)) (member : part ∈ parts step row) :
    ∃ time, source.ts ≤ time ∧ time < source.ts + max 1 source.res ∧ (source.res ≤ step → time = source.ts) ∧
      part.1 = time / step * step := by
  simp only [stepKey, Prod.mk.injEq] at summed
  obtain ⟨_, ts, res⟩ := summed
  unfold parts at member
  by_cases fine : source.res ≤ step
  · rw [if_pos fine] at ts res
    rw [if_pos res.symm.le, List.mem_singleton] at member
    refine ⟨source.ts, le_rfl, by omega, fun _ => rfl, ?_⟩
    rw [member, ← ts]
    rcases Nat.eq_zero_or_pos step with rfl | positive
    · rfl
    · simp [Nat.mul_div_cancel _ positive]
  · rw [if_neg fine] at ts res
    rw [← res, if_neg fine] at member
    obtain ⟨i, small, rfl⟩ := List.mem_map.mp member
    have count := List.mem_range.mp small
    have inside : i * step < source.res := by
      rcases Nat.eq_zero_or_pos step with rfl | positive
      · omega
      · have whole : max 1 (source.res / step) = source.res / step :=
          Nat.max_eq_right ((Nat.le_div_iff_mul_le positive).mpr (by omega))
        rw [whole] at count
        calc i * step < source.res / step * step := Nat.mul_lt_mul_of_pos_right count positive
          _ ≤ source.res := Nat.div_mul_le_self _ _
    exact ⟨source.ts + i * step, by omega, by omega, by omega, by simp [ts]⟩

/-- A time line with a bucket reaches it. -/
theorem mem_timeline {firstTs : Option Int} {buckets : List Nat} {time : Nat} (positive : 0 < step)
    (after : start ≤ time) (before : (time : Int) ≤ now) (member : time / step * step ∈ buckets) :
    ((time / step * step : Nat) : Int) ∈ timeline start now step firstTs buckets := by
  have wide : (0 : Int) < step := by exact_mod_cast positive
  have floored : ((time / step * step : Nat) : Int) = (time : Int) / step * step := by push_cast; rfl
  have floor {low high : Int} (le : low ≤ high) : low / step * step ≤ high / step * step :=
    Int.mul_le_mul_of_nonneg_right (Int.ediv_le_ediv wide le) wide.le
  obtain ⟨least, isLeast⟩ : ∃ least, (buckets.map Int.ofNat).min? = some least :=
    Option.isSome_iff_exists.mp (List.isSome_min?_of_mem (List.mem_map_of_mem member))
  have least_le : least ≤ ((time / step * step : Nat) : Int) :=
    (List.min?_eq_some_iff.mp isLeast).2 _ (List.mem_map_of_mem member)
  obtain ⟨first, isFirst⟩ : ∃ first, (firstTs.toList ++ [least]).min? = some first :=
    Option.isSome_iff_exists.mp (List.isSome_min?_of_mem (List.mem_append_right _ (List.mem_singleton_self least)))
  have first_le : first ≤ least :=
    (List.min?_eq_some_iff.mp isFirst).2 _ (List.mem_append_right _ (List.mem_singleton_self least))
  have under : ((time / step * step : Nat) : Int) ≤ time := by exact_mod_cast Nat.div_mul_le_self time step
  unfold timeline
  simp only [isLeast, Option.toList_some, isFirst, Option.map_some, Option.getD_some]
  rw [mem_rangeThrough positive, floored]
  refine ⟨floor (by omega), floor before, ?_⟩
  exact Int.dvd_sub (Int.dvd_mul_left _ _) (Int.dvd_mul_left _ _)

theorem timeline_nodup (start now : Int) {step : Nat} (positive : 0 < step) (firstTs : Option Int) (buckets : List Nat) :
    (timeline start now step firstTs buckets).Nodup := rangeThrough_nodup _ _ positive

theorem mem_bandRows {row : StmtRow} (member : row ∈ chart.bandRows h start now) :
    ∃ source ∈ selected h (chart.window start now),
      stepKey chart.step { stmtFields source with queryKey := chart.label source.1.queryKey } =
        (row.queryKey, row.ts, row.res) := by
  unfold LoadChart.bandRows grouped at member
  rw [List.mem_mergeSort, List.mem_map] at member
  obtain ⟨group, found, rfl⟩ := member
  obtain ⟨name, named, rfl⟩ := List.mem_map.mp found
  rw [List.mem_dedup, List.mem_map] at named
  obtain ⟨labelled, here, rfl⟩ := named
  obtain ⟨source, chosen, rfl⟩ := List.mem_map.mp here
  exact ⟨source, chosen, rfl⟩

/-- Naming, grouping and ordering the rows keeps what they add up to. -/
theorem total_bandRows {column : StmtRow → ℚ} (summed : ∀ group, column (sumGroup group) = (group.2.map column).sum)
    (plain : ∀ row queryKey, column { row with queryKey := queryKey } = column row) (test : String → Prop)
    [DecidablePred test] :
    total column (fun row => test row.queryKey) (chart.bandRows h start now) =
      total (fun row => column (stmtFields row)) (fun row => test (chart.label row.1.queryKey))
        (selected h (chart.window start now)) := by
  unfold LoadChart.bandRows
  rw [total_perm (List.mergeSort_perm _ _), total_map]
  simp only [summed]
  refine (sum_grouped fun name : String × Nat × Nat => test name.1).trans ?_
  rw [total_map]
  simp only [plain, stepKey]

/-- A minute row lies inside a window that it is selected for. -/
theorem held_inside {w : Window} (within : ∀ row ∈ selected h w, 60 < row.1.res → w.Surrounds row.1)
    {row : Sigma fun _ : RowKey => Counters} (found : row ∈ selected h w) {reading : Reading} (held : row.1.Holds reading) :
    w.asks reading.queryKey = true ∧ w.Inside reading := by
  have chosen := (mem_selected.mp found).2
  have aligned := selected_aligned found
  have minute := held.spans.minute aligned
  refine ⟨held.key ▸ chosen.asked, ?_⟩
  by_cases finest : row.1.res = 60
  · have begins : reading.minute = row.1.bucketStart := by
      rw [Reading.minute, ← finest]
      exact held.spans.start_eq aligned
    have ends := chosen.ends
    rw [if_pos finest] at ends
    rw [Window.Inside, begins]
    exact ⟨ends, chosen.begins⟩
  · have coarse : 60 < row.1.res := by
      have := resolution_cases aligned.known
      omega
    have surrounds := within row found coarse
    have first := minute.1
    have last := minute.2
    exact ⟨by have := surrounds.1; omega, by have := surrounds.2; omega⟩

/-- Every part of the rows of a chart has its bucket on the time line. -/
theorem parts_reach (wider : 60 < chart.step)
    (within : ∀ row ∈ selected h (chart.window start now), 60 < row.1.res → (chart.window start now).Surrounds row.1) :
    ∀ part ∈ spread (chart.bandRows h start now) chart.step, (part.1 : Int) ∈
      timeline start now chart.step chart.firstTs ((spread (chart.bandRows h start now) chart.step).map Prod.fst) := by
  intro part member
  obtain ⟨row, there, own⟩ := List.mem_flatMap.mp member
  obtain ⟨source, found, summed⟩ := mem_bandRows there
  obtain ⟨time, after, before, fine, bucket⟩ := part_time summed own
  have chosen := (mem_selected.mp found).2
  have listed : time / chart.step * chart.step ∈ (spread (chart.bandRows h start now) chart.step).map Prod.fst :=
    bucket ▸ List.mem_map_of_mem member
  have ts : (stmtFields source).ts = source.1.bucketStart := rfl
  have res : (stmtFields source).res = source.1.res := rfl
  simp only [ts, res] at after before fine
  have stop : (chart.window start now).stop = now + 1 := rfl
  rw [bucket]
  rcases resolution_cases (selected_aligned found).known with finest | coarse
  · have ends := chosen.ends
    rw [if_pos finest] at ends
    have begins := chosen.begins
    have exactly := fine (by omega)
    exact mem_timeline (by omega) (by rw [exactly]; exact ends) (by omega) listed
  · have surrounds := within source found (by omega)
    have first : start ≤ source.1.bucketStart := surrounds.1
    have last := surrounds.2
    exact mem_timeline (by omega) (by omega) (by omega) listed

end Placing

section Conserved

variable {h : History} {start now : Int} {chart : LoadChart}

/-- The bands of a chart over a condition on the queries add up to the readings of these queries. -/
theorem bandSum_readings (columns : Counters →+ ℚ) {column : LoadPoint → Option (List ℚ)} {value : StmtRow → ℚ}
    (shows : chart.Shows column value)
    (summed : ∀ group, value (sumGroup group) = (group.2.map value).sum)
    (reads : ∀ source : Sigma fun _ : RowKey => Counters, value (stmtFields source) = columns source.2)
    (plain : ∀ row queryKey, value { row with queryKey := queryKey } = value row) (wider : 60 < chart.step)
    (within : ∀ row ∈ selected h (chart.window start now), 60 < row.1.res → (chart.window start now).Surrounds row.1)
    (reached : ∀ reading ∈ h.readings, (chart.window start now).asks reading.queryKey = true →
      (chart.window start now).Inside reading → Reached h (chart.window start now) reading)
    {index : Nat} (inside : index < chart.width) (test : String → Prop) [DecidablePred test]
    (asked : ∀ queryKey, test queryKey → (chart.window start now).asks queryKey = true)
    (shown : ∀ queryKey, (chart.window start now).asks queryKey = true →
      (chart.band (chart.label queryKey) = some index ↔ test queryKey)) :
    bandSum column index (chart.points h start now) =
      total (fun reading => columns reading.counters)
        (fun reading => test reading.queryKey ∧ (chart.window start now).Inside reading) h.readings := by
  unfold LoadChart.points
  rw [bandSum_points column value shows (timeline_nodup _ _ (by omega) _ _) (parts_reach wider within) now inside,
    total_bandRows summed plain fun queryKey => chart.band queryKey = some index,
    ← sum_selected_of columns test (fun row found reading held => held_inside within found held) reached asked]
  apply total_congr
  · intro row found
    exact shown row.1.queryKey (mem_selected.mp found).2.asked
  · intro row _ _
    exact reads row

/-- What the points of a band and of a condition on the queries have to agree on. -/
structure Conserved (h : History) (chart : LoadChart) (start now : Int) (index : Nat) (test : String → Prop)
    [DecidablePred test] : Prop where
  totalMs : bandSum LoadPoint.totalMs index (chart.points h start now) =
    total (fun reading => reading.counters.totalMs)
      (fun reading => test reading.queryKey ∧ (chart.window start now).Inside reading) h.readings
  calls : bandSum LoadPoint.calls index (chart.points h start now) =
    total (fun reading => (reading.counters.calls : ℚ))
      (fun reading => test reading.queryKey ∧ (chart.window start now).Inside reading) h.readings

theorem conserved_of_shown (wider : 60 < chart.step)
    (within : ∀ row ∈ selected h (chart.window start now), 60 < row.1.res → (chart.window start now).Surrounds row.1)
    (reached : ∀ reading ∈ h.readings, (chart.window start now).asks reading.queryKey = true →
      (chart.window start now).Inside reading → Reached h (chart.window start now) reading)
    {index : Nat} (inside : index < chart.width) (test : String → Prop) [DecidablePred test]
    (asked : ∀ queryKey, test queryKey → (chart.window start now).asks queryKey = true)
    (shown : ∀ queryKey, (chart.window start now).asks queryKey = true →
      (chart.band (chart.label queryKey) = some index ↔ test queryKey)) : Conserved h chart start now index test where
  totalMs := bandSum_readings totalMsColumn (shows_totalMs chart) (fun _ => rfl) (fun _ => rfl) (fun _ _ => rfl) wider
    within reached inside test asked shown
  calls := by
    apply bandSum_readings ((Int.castAddHom ℚ).comp callsColumn) (shows_calls chart) ?_ (fun _ => rfl) (fun _ _ => rfl)
      wider within reached inside test asked shown
    intro group
    have cast : (((group.2.map StmtRow.calls).sum : Int) : ℚ) = ((group.2.map StmtRow.calls).map (Int.castAddHom ℚ)).sum :=
      map_list_sum (Int.castAddHom ℚ) _
    rw [List.map_map] at cast
    exact cast

end Conserved

/-- The points of a load chart lose nothing and count nothing twice: each leading query has its own readings in its band,
    and the readings of all the other queries are in the band after these, where that is drawn. -/
theorem load_chart_conserves (h : History) (chart : LoadChart) (start now : Int) (wider : 60 < chart.step)
    (distinct : (chart.leaders ++ chart.others).Nodup) (named : "other" ∉ chart.leaders)
    (within : ∀ row ∈ selected h (chart.window start now), 60 < row.1.res → (chart.window start now).Surrounds row.1)
    (reached : ∀ reading ∈ h.readings, (chart.window start now).asks reading.queryKey = true →
      (chart.window start now).Inside reading → Reached h (chart.window start now) reading) :
    (∀ index queryKey, chart.leaders[index]? = some queryKey →
      Conserved h chart start now index fun name => name = queryKey) ∧
    (chart.other = true → Conserved h chart start now chart.leaders.length fun name => name ∈ chart.others) := by
  have asks {queryKey : String} (listed : queryKey ∈ chart.leaders ++ chart.others) :
      (chart.window start now).asks queryKey = true := List.contains_iff_mem.mpr listed
  obtain ⟨leading, _, apart⟩ := List.nodup_append'.mp distinct
  constructor
  · intro index queryKey own
    obtain ⟨small, _⟩ := List.getElem?_eq_some_iff.mp own
    apply conserved_of_shown wider within reached (by unfold LoadChart.width; omega)
    · rintro _ rfl
      exact asks (List.mem_append_left _ (List.mem_of_getElem? own))
    · intro name _
      exact band_label leading named own name
  · intro last
    apply conserved_of_shown wider within reached (by simp [LoadChart.width, last])
    · intro name under
      exact asks (List.mem_append_right _ under)
    · intro name asked
      rw [band_label_rest named last]
      constructor
      · intro under
        exact (List.mem_append.mp (List.contains_iff_mem.mp asked)).resolve_left under
      · intro under leader
        exact apart leader under

/-- Three readings of two queries, in rows of five minutes. -/
def twoQueries : History where
  readings := [⟨"orders", 20, ⟨1, 2, 0, 0, 0, 0⟩⟩, ⟨"orders", 400, ⟨3, 5, 0, 0, 0, 0⟩⟩, ⟨"users", 350, ⟨7, 4, 0, 0, 0, 0⟩⟩]
  series := ⟨[⟨⟨"orders", 300, 0⟩, ⟨1, 2, 0, 0, 0, 0⟩⟩, ⟨⟨"orders", 300, 300⟩, ⟨3, 5, 0, 0, 0, 0⟩⟩,
    ⟨⟨"users", 300, 300⟩, ⟨7, 4, 0, 0, 0, 0⟩⟩], by unfold List.NodupKeys; decide +kernel⟩
  minuteMark := some 600
  aligned := by decide +kernel
  summed := by decide +kernel

def twoBands : LoadChart := ⟨["orders"], ["users"], true, 300, fun _ => false, some 20⟩

theorem load_chart_conserves_twoQueries :
    Conserved twoQueries twoBands 0 620 0 (fun name => name = "orders") ∧
      Conserved twoQueries twoBands 0 620 1 fun name => name ∈ ["users"] := by
  have both := load_chart_conserves twoQueries twoBands 0 620 (by decide) (by decide) (by decide) (by decide +kernel)
    fun reading member _ _ => ⟨reading.row 300, by revert reading; decide +kernel⟩
  exact ⟨both.1 0 "orders" rfl, both.2 rfl⟩

end Rdst.Series
