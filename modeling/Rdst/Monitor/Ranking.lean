import Rdst.Monitor.Decay
import Rdst.Series.Rollup

namespace Rdst.Monitor.Ranking

open Assoc Buckets Totals Tracking

def fullDetailQueries : Nat := 1000

def periodRetention : Nat := 2 * 365 * 86400

/-- The rows of one target that a reading and the ranking of its queries go through. -/
structure Store where
  tables : Tables
  /-- The keys of `query_ui` with `workload=0`. -/
  notWorkload : List String
  queryTier : Dict String Nat
  tiersRankedAt : Option Nat
  /-- `query_tier_period` is one of its tables. -/
  history : Series.Store

/-- One collector reading: what is tracked, and the counters of its statements. -/
structure Reading where
  process : String
  ts : Nat
  statements : List (String × Series.Counters)
  texts : Dict String (List Char)
  stuck : List StuckRow
  samples : List (String × List Char)
  systemKeys : List String
  hasDb : Bool
  untracked : Option (Int × ℚ)
  workloadChecked : Bool
  preference : Nat

/-- The part of a reading that decides what is tracked. -/
def Reading.loads (r : Reading) : Tracking.Reading :=
  ⟨r.process, r.ts, r.statements.map fun row => (row.1, row.2.totalMs), r.texts, r.stuck, r.samples, r.systemKeys,
    r.workloadChecked⟩

section RankQueries

variable (s : Store) (now : Nat)

/-- The keys of `query_load`, the heaviest first. -/
def loadedKeys : List String :=
  let heavier := fun a b : Sigma fun _ : String => ℚ × Int =>
    rankedLoad now b.2 < rankedLoad now a.2 ∨ rankedLoad now a.2 = rankedLoad now b.2 ∧ a.1 ≤ b.1
  (((s.tables.queryLoad.entries.filter fun row => row.1 ∉ s.notWorkload).insertionSort heavier).map Sigma.fst).take
    seriesQueries

/-- The keys of the hourly history of a day. -/
def hourlyKeys : List String :=
  let rows := s.history.rowsWhere fun row =>
    row.res = 3600 ∧ now ≤ row.bucketStart + 86400 ∧ row.queryKey ≠ Series.everythingElse
  let sums := groupSums (fun row => row.1.queryKey) (fun row => row.2.totalMs) rows
  let heavier := fun a b : Sigma fun _ : String => ℚ => b.2 < a.2 ∨ a.2 = b.2 ∧ a.1 ≤ b.1
  ((sums.entries.insertionSort heavier).map Sigma.fst).take seriesQueries

/-- The known texts without a load, the latest first. -/
def textKeys (ranked : List String) : List String :=
  let later := fun a b : Sigma fun _ : String => List Char × Int => b.2.2 < a.2.2 ∨ a.2.2 = b.2.2 ∧ a.1 ≤ b.1
  (((s.tables.queryText.entries.filter fun row => row.1 ∉ ranked ∧ row.1 ∉ s.notWorkload).insertionSort later).map
    Sigma.fst).take (seriesQueries - ranked.length)

/-- `next_tier`, in the order of its ranks. -/
def nextTier : List String :=
  let loaded := loadedKeys s now
  let seeded := if loaded = [] then hourlyKeys s now else loaded
  seeded ++ textKeys s seeded

/-- The tier of a key in the next ranking; a key without a rank is in none. -/
def tierIn (next : List String) (key : String) : Nat :=
  if key ∈ next.take fullDetailQueries then 1 else if key ∈ next then 2 else 3

def closePeriods (next : List String) (periods : List Series.TierPeriod) : List Series.TierPeriod :=
  periods.map fun p => if p.stop = none ∧ p.tier ≠ tierIn next p.queryKey then { p with stop := some now } else p

/-- `INSERT ... ON CONFLICT(target,query_key,start,tier) DO UPDATE SET end=NULL`. -/
def openPeriod (next : List String) (periods : List Series.TierPeriod) (key : String) : List Series.TierPeriod :=
  if ∃ p ∈ periods, p.queryKey = key ∧ p.start = now ∧ p.tier = tierIn next key then
    periods.map fun p =>
      if p.queryKey = key ∧ p.start = now ∧ p.tier = tierIn next key then { p with stop := none } else p
  else periods ++ [⟨key, now, none, tierIn next key⟩]

def nextPeriods (next : List String) (periods : List Series.TierPeriod) : List Series.TierPeriod :=
  let closed := closePeriods now next periods
  let opened := (next.filter fun key => ¬ ∃ p ∈ closed, p.queryKey = key ∧ p.stop = none).foldl
    (openPeriod now next) closed
  opened.filter fun p => p.stop.all fun stop => now ≤ stop + periodRetention

/-- `query_tier` with the ranks of the next ranking. -/
def nextRanks (next : List String) (tier : Dict String Nat) : Dict String Nat :=
  (next.zipIdx 1).foldl (fun tier row => if tier.lookup row.1 = some row.2 then tier else tier.insert row.1 row.2)
    (keepKeys (fun key => next.contains key) tier)

/-- `_rank_queries`. -/
def rankQueries : Store :=
  let next := nextTier s now
  { s with
    queryTier := nextRanks next s.queryTier
    tiersRankedAt := some now
    history := { s.history with tierPeriod := nextPeriods now next s.history.tierPeriod } }

end RankQueries

section Record

variable (isWorkload : List Char → Bool) (s : Store) (r : Reading)

/-- The statements that count: none where the counters reach back beyond this process or a gap. -/
def statements : List (String × Series.Counters) := if Tracking.baselineBroken s.tables r.loads then [] else r.statements

def untracked : Option (Int × ℚ) := if Tracking.baselineBroken s.tables r.loads then none else r.untracked

def hasDb : Bool := !Tracking.baselineBroken s.tables r.loads && r.hasDb

/-- What the statement rows are filed by; the ranks and the keys that are not workload are those of the
    store. -/
def reception (ranked : Store) (selected : Option (List String)) : Series.Reception :=
  ⟨r.ts, statements s r, hasDb s r, untracked s r, r.systemKeys, selected, ranked.history.tierPeriod,
    ranked.queryTier.keys, ranked.notWorkload, r.preference⟩

/-- System queries lose the history they had. -/
def forgotten : Store :=
  let fresh := r.systemKeys.filter fun key => key ∉ s.tables.systemQuery
  { s with
    tables := prepared s.tables r.loads
    notWorkload := s.notWorkload.filter fun key => key ∉ fresh
    queryTier := keepKeys (fun key => key ∉ fresh) s.queryTier
    history := { Series.markDirty (Series.forget s.history (reception s r s none)) (reception s r s none) with
      tierPeriod := s.history.tierPeriod.filter fun p => p.queryKey ∉ fresh } }

/-- The queries that the reading tracks. -/
def chosen : List String := selected (forgotten s r).tables (rows s.tables r.loads) r.loads

def displaces : Bool := !(forgotten s r).tables.keys.all ((chosen s r).contains ·)

/-- `_trim_tracked_queries` to the chosen queries, where some are displaced. -/
def trimmed : Store :=
  let left := forgotten s r
  let kept :=
    if displaces s r then
      { left with
        notWorkload := left.notWorkload.filter fun key => key ∈ chosen s r
        queryTier := keepKeys (fun key => key ∈ chosen s r) left.queryTier
        history := { Series.trimTrackedQueries left.history (chosen s r) with
          tierPeriod := left.history.tierPeriod.filter fun p => p.queryKey ∈ chosen s r } }
    else left
  { kept with tables := retarget left.tables (rows s.tables r.loads) r.loads }

/-- The texts and loads of the chosen queries. A text that is not workload is marked so. -/
def loaded : Store :=
  let entered := trimmed s r
  let texts := r.texts.entries.filter fun item => (chosen s r).contains item.1
  let foreign := if r.workloadChecked then [] else
    (texts.filter fun item => !isWorkload item.2).map Sigma.fst
  { entered with
    tables := storeLoads (storeTexts entered.tables (chosen s r) r.loads) (chosen s r) (rows s.tables r.loads) r.ts
    notWorkload := entered.notWorkload ++ foreign.filter fun key => key ∉ entered.notWorkload }

/-- Whether a ranking with room leaves out a statement of the reading or a known text. -/
def misses (ranked : Store) : Bool :=
  ranked.queryTier.keys.length < seriesQueries &&
    ((statements s r).any (fun row => row.1 ∉ ranked.queryTier.keys) ||
      ranked.tables.queryText.keys.any fun key => key ∉ ranked.queryTier.keys && key ∉ ranked.notWorkload)

/-- The store when the statement rows are filed: ranked for the first time, or again. -/
def tiered : Store :=
  let ready := loaded isWorkload s r
  let ranked := if ready.tiersRankedAt = none then rankQueries ready r.ts else ready
  if misses s r ranked then rankQueries ranked r.ts else ranked

/-- `record`. -/
def record : Store :=
  if !s.tables.enabled then s
  else
    let ranked := tiered isWorkload s r
    let filed := Series.fileRows ranked.history (reception s r ranked none)
    { ranked with
      tables := { Tracking.rollup (storeStuck (storeSamples ranked.tables (chosen s r) r.loads) (chosen s r) r.loads)
        r.ts with collectPulse := true }
      history := Series.rollup filed r.ts r.preference }

end Record

section NextTier

variable (s : Store) (now : Nat)

theorem sorted_keys_nodup {Value : Type} {entries : List (Sigma fun _ : String => Value)} (distinct : entries.NodupKeys)
    (before : Sigma (fun _ : String => Value) → Sigma (fun _ : String => Value) → Prop) [DecidableRel before]
    (room : Nat) : (((entries.insertionSort before).map Sigma.fst).take room).Nodup := by
  apply List.Nodup.sublist (List.take_sublist _ _)
  have sorted := (entries.perm_insertionSort before).map Sigma.fst
  rw [sorted.nodup_iff]
  exact distinct

theorem loadedKeys_nodup : (loadedKeys s now).Nodup :=
  sorted_keys_nodup (List.NodupKeys.sublist List.filter_sublist s.tables.queryLoad.nodupKeys) _ _

theorem hourlyKeys_nodup : (hourlyKeys s now).Nodup := sorted_keys_nodup (AList.nodupKeys _) _ _

theorem mem_textKeys {ranked : List String} {key : String} (member : key ∈ textKeys s ranked) : key ∉ ranked := by
  obtain ⟨row, sorted, rfl⟩ := List.mem_map.mp (List.mem_of_mem_take member)
  have test := (List.mem_filter.mp ((List.mem_insertionSort _).mp sorted)).2
  rw [decide_eq_true_eq] at test
  exact test.1

theorem nextTier_nodup : (nextTier s now).Nodup := by
  unfold nextTier
  simp only
  have seeded : (if loadedKeys s now = [] then hourlyKeys s now else loadedKeys s now).Nodup := by
    split
    · exact hourlyKeys_nodup s now
    · exact loadedKeys_nodup s now
  generalize (if loadedKeys s now = [] then hourlyKeys s now else loadedKeys s now) = ranked at seeded ⊢
  apply List.nodup_append.mpr
  refine ⟨seeded, sorted_keys_nodup (List.NodupKeys.sublist List.filter_sublist s.tables.queryText.nodupKeys) _ _, ?_⟩
  intro key early other late same
  subst same
  exact mem_textKeys s late early

theorem nextTier_length : (nextTier s now).length ≤ seriesQueries := by
  unfold nextTier
  simp only
  have seeded : (if loadedKeys s now = [] then hourlyKeys s now else loadedKeys s now).length ≤ seriesQueries := by
    split <;> exact List.length_take_le _ _
  generalize (if loadedKeys s now = [] then hourlyKeys s now else loadedKeys s now) = ranked at seeded ⊢
  have texts : (textKeys s ranked).length ≤ seriesQueries - ranked.length := List.length_take_le _ _
  rw [List.length_append]
  omega

theorem foldl_ranks {next : List String} (distinct : next.Nodup) (first : Nat) (tier : Dict String Nat) (key : String) :
    ((next.zipIdx first).foldl (fun tier row => if tier.lookup row.1 = some row.2 then tier else tier.insert row.1 row.2)
      tier).lookup key = if key ∈ next then some (first + next.idxOf key) else tier.lookup key := by
  induction next generalizing first tier with
  | nil => simp
  | cons head rest ih =>
    rw [List.nodup_cons] at distinct
    rw [List.zipIdx_cons, List.foldl_cons, ih distinct.2]
    have own : (if tier.lookup head = some first then tier else tier.insert head first).lookup key =
        if key = head then some first else tier.lookup key := by
      split
      · rename_i there
        by_cases same : key = head
        · rw [if_pos same, same, there]
        · rw [if_neg same]
      · exact insert_lookup tier head first key
    rw [own]
    by_cases same : key = head
    · subst same
      simp [distinct.1]
    · by_cases later : key ∈ rest
      · rw [if_pos later, if_pos (List.mem_cons_of_mem _ later), List.idxOf_cons_ne _ (Ne.symm same)]
        congr 1
        omega
      · simp [same, later]

/-- The ranks of a ranking are the places in it. -/
theorem nextRanks_lookup {next : List String} (distinct : next.Nodup) (tier : Dict String Nat) (key : String) :
    (nextRanks next tier).lookup key = if key ∈ next then some (1 + next.idxOf key) else none := by
  unfold nextRanks
  rw [foldl_ranks distinct, keepKeys_lookup]
  by_cases member : key ∈ next <;> simp [member]

theorem rankQueries_keys {key : String} : key ∈ (rankQueries s now).queryTier.keys ↔ key ∈ nextTier s now := by
  rw [mem_keys_iff]
  show (nextRanks (nextTier s now) s.queryTier).lookup key ≠ none ↔ _
  rw [nextRanks_lookup (nextTier_nodup s now)]
  by_cases member : key ∈ nextTier s now <;> simp [member]

theorem rankQueries_length : (rankQueries s now).queryTier.keys.length ≤ seriesQueries := by
  have within : (rankQueries s now).queryTier.keys ⊆ nextTier s now := fun _ => (rankQueries_keys s now).mp
  exact ((rankQueries s now).queryTier.keys_nodup.subperm within).length_le.trans (nextTier_length s now)

end NextTier

end Rdst.Monitor.Ranking
