import Rdst.Series.Trim

namespace Rdst.Series

open Assoc Buckets Totals

/-- The minute rows of a time. -/
def RowKey.InMinute (ts : Nat) (row : RowKey) : Prop := row.res = 60 ∧ row.bucketStart = start 60 ts

instance (ts : Nat) : DecidablePred (RowKey.InMinute ts) := fun _ => inferInstanceAs (Decidable (_ ∧ _))

section Minutes

variable {s : Store} {ts : Nat} {row : RowKey}

theorem upsert_added (series : StmtSeries) (key : RowKey) (sum : Counters) (k : RowKey) :
    (upsert (fun _ => true) series key sum).lookup k =
      if k = key then some ((series.lookup key).getD 0 + sum) else series.lookup k := by
  rw [upsert_lookup]
  cases series.lookup key <;> simp

theorem sumWhere_upserts (test : RowKey → Prop) [DecidablePred test] (rows : List (RowKey × Counters)) (series : StmtSeries) :
    sumWhere test (rows.foldl (fun series row => upsert (fun _ => true) series row.1 row.2) series) =
      sumWhere test series + total Prod.snd (fun row => test row.1) rows := by
  induction rows generalizing series with
  | nil => simp
  | cons row rest ih =>
    rw [List.foldl_cons, ih, sumWhere_added (upsert_added series row.1 row.2), total_cons, add_assoc]

theorem sumWhere_forItems (test : RowKey → Prop) [DecidablePred test] (sums series : StmtSeries) :
    sumWhere test (forItems sums series (upsert fun _ => true)) = sumWhere test series + sumWhere test sums := by
  unfold forItems
  have each := sumWhere_upserts test (sums.entries.map fun entry => (entry.1, entry.2)) series
  rw [List.foldl_map, total_map] at each
  exact each

/-- Rows of coarser resolutions do not touch those of the minute. -/
theorem coarser_lookup {sums : StmtSeries} {body : StmtSeries → RowKey → Counters → StmtSeries} (isLocal : Local body)
    (absent : sums.lookup row = none) (series : StmtSeries) :
    (forItems sums series body).lookup row = series.lookup row := by
  rw [forItems_lookup isLocal, absent]

theorem groupSums_absent {Source : Type} {key : Source → RowKey} {value : Source → Counters} {rows : List Source}
    (other : ∀ source ∈ rows, key source ≠ row) : (groupSums key value rows).lookup row = none := by
  rw [groupSums_lookup, if_neg]
  rintro ⟨source, member, same⟩
  exact other source member same

theorem closeBuckets_lookup (now src : Nat) {dest : Nat} (coarse : row.res ≠ dest) :
    (closeBuckets s now src dest).series.lookup row = s.series.lookup row := by
  unfold closeBuckets
  simp only
  split
  · apply coarser_lookup insertOrIgnore_local
    apply groupSums_absent
    intro source _ same
    exact coarse (congrArg RowKey.res same).symm
  · rfl

theorem recompute_lookup (src bucket : Nat) {dest : Nat} (coarse : row.res ≠ dest) :
    (recompute s src dest bucket).series.lookup row = s.series.lookup row := by
  apply coarser_lookup (upsert_local _)
  apply groupSums_absent
  intro source _ same
  exact coarse (congrArg RowKey.res same).symm

theorem rollupLevel_lookup (now src : Nat) {dest : Nat} (coarse : row.res ≠ dest) :
    (rollupLevel s now src dest).series.lookup row = s.series.lookup row := by
  unfold rollupLevel
  simp only
  rw [← closeBuckets_lookup (s := s) now src coarse]
  generalize closeBuckets s now src dest = closed
  generalize Store.dirtyBuckets closed now src dest = buckets
  induction buckets generalizing closed with
  | nil => rfl
  | cons bucket rest ih =>
    rw [List.foldl_cons, ih, recompute_lookup src bucket coarse]

theorem level_coarse {level : Nat × Nat} (known : level ∈ levels) : level.2 ≠ 60 := by
  simp only [levels, List.mem_cons, List.not_mem_nil, or_false] at known
  rcases known with rfl | rfl | rfl <;> decide

theorem foldl_levels_lookup {body : Store → Nat × Nat → Store}
    (same : ∀ s level, level.2 ≠ 60 → (body s level).series.lookup row = s.series.lookup row)
    (s : Store) {chosen : List (Nat × Nat)} (known : ∀ level ∈ chosen, level ∈ levels) :
    (chosen.foldl body s).series.lookup row = s.series.lookup row := by
  induction chosen generalizing s with
  | nil => rfl
  | cons level rest ih =>
    rw [List.foldl_cons, ih _ fun other later => known other (List.mem_cons_of_mem _ later),
      same s level (level_coarse (known level (by simp)))]

/-- A rollup at the time of a reading leaves the rows of its minute as they are. -/
theorem rollup_minute (preference : Nat) (inMinute : row.InMinute ts) :
    (rollup s ts preference).series.lookup row = s.series.lookup row := by
  obtain ⟨fine, minute⟩ := inMinute
  have summed : (levels.foldl (fun s level => rollupLevel s ts level.1 level.2) s).series.lookup row =
      s.series.lookup row :=
    foldl_levels_lookup (fun s level coarse => rollupLevel_lookup ts level.1 (fine ▸ coarse.symm)) s
      fun _ member => member
  rw [← summed]
  unfold rollup dropOld
  generalize levels.foldl (fun s level => rollupLevel s ts level.1 level.2) s = t
  simp only
  have coarser : start 300 ts ≤ start 60 ts := by
    unfold start
    omega
  have older : ∀ age, start 60 (ts - age) ≤ start 60 ts := by
    intro age
    unfold start
    have smaller : (ts - age) / 60 ≤ ts / 60 := Nat.div_le_div_right (Nat.sub_le ts age)
    exact Nat.mul_le_mul_right 60 smaller
  have stays : ∀ t : Store, middleMinute t ts row = false := by
    intro t
    have late : ¬ row.bucketStart < start 300 ts := by omega
    simp [middleMinute, late]
  have young : ∀ t : Store, expired t ts preference row = false := by
    intro t
    have late : ¬ row.bucketStart < start 60 (ts - 48 * 3600) := by
      have := older (48 * 3600)
      omega
    simp [expired, fine, retention, late]
  rw [keepKeys_lookup, young, keepKeys_lookup, stays]
  simp

theorem fillParents_lookup (retained : List String) (child : Nat) {parent : Nat} (coarse : row.res ≠ parent) :
    (fillParents s retained child parent).series.lookup row = s.series.lookup row := by
  apply coarser_lookup insert_local
  apply groupSums_absent
  intro source _ same
  exact coarse (congrArg RowKey.res same).symm

/-- Folding moves rows to everything else without losing any of a minute. -/
theorem foldDisplaced_minute (s : Store) (retained : List String) :
    sumWhere (RowKey.InMinute ts) (foldDisplaced s retained).series = sumWhere (RowKey.InMinute ts) s.series := by
  have folded : sumWhere (RowKey.InMinute ts) (foldDisplaced s retained).series =
      sumWhere (fun row => RowKey.InMinute ts row ∧ (!outside retained row.queryKey) = true)
        (forItems (groupSums (fun row : Sigma fun _ : RowKey => Counters => elseRow row.1) Sigma.snd
          (s.rowsWhere fun row => outside retained row.queryKey)) s.series (upsert fun _ => true)) :=
    sumWhere_keepKeys _ _
  rw [folded, sumWhere_forItems, sumWhere_groupSums]
  have moved : total Sigma.snd (fun row : Sigma fun _ : RowKey => Counters =>
      RowKey.InMinute ts (elseRow row.1) ∧ (!outside retained (elseRow row.1).queryKey) = true)
        (s.rowsWhere fun row => outside retained row.queryKey) =
      sumWhere (fun row => RowKey.InMinute ts row ∧ ¬ (!outside retained row.queryKey) = true) s.series := by
    unfold Store.rowsWhere sumWhere total
    rw [List.filter_filter]
    congr 2
    apply List.filter_congr
    intro entry _
    have not_out : outside retained (elseRow entry.1).queryKey = false := outside_else
    by_cases here : RowKey.InMinute ts entry.1
    · have there : RowKey.InMinute ts (elseRow entry.1) := here
      by_cases out : outside retained entry.1.queryKey = true <;> simp [here, there, not_out, out]
    · have there : ¬ RowKey.InMinute ts (elseRow entry.1) := here
      simp [here, there]
  rw [moved]
  exact (sumWhere_split fun row : RowKey => (!outside retained row.queryKey) = true).symm

theorem trim_minute (s : Store) (retained : List String) :
    sumWhere (RowKey.InMinute ts) (trimTrackedQueries s retained).series = sumWhere (RowKey.InMinute ts) s.series := by
  unfold trimTrackedQueries
  rw [foldDisplaced_minute]
  apply sumWhere_congr
  intro row inMinute
  exact foldl_levels_lookup
    (fun s level coarse => fillParents_lookup retained level.1 (inMinute.1 ▸ coarse.symm)) s fun _ member => member

end Minutes

end Rdst.Series
