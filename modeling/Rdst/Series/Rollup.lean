import Rdst.Series.Rows

namespace Rdst.Series

open Assoc Buckets Totals

def everythingElse : String := "__everything_else__"

/-- A row of `incident_pin` whose item is still there. -/
structure Pin where
  queryKey : String
  start : Nat
  stop : Option Nat

/-- A row of `query_tier_period`. -/
structure TierPeriod where
  queryKey : String
  start : Nat
  stop : Option Nat
  tier : Nat

/-- The tables of one target that the statement rows depend on. -/
structure Store where
  series : StmtSeries
  /-- The settings `rollup_until_60`, `rollup_until_300` and `rollup_until_3600`; none is as good as zero. -/
  rollupUntil : Nat → Nat
  dirtyRollup : List (Nat × Nat)
  incidentPin : List Pin
  tierPeriod : List TierPeriod
  systemQuery : List String

def Store.empty : Store := ⟨∅, fun _ => 0, [], [], [], []⟩

/-- `zip(RESOLUTIONS, RESOLUTIONS[1:])`. -/
def levels : List (Nat × Nat) := [(60, 300), (300, 3600), (3600, 86400)]

/-- The resolution after one. -/
def parentRes (res : Nat) : Option Nat := levels.lookup res

section Periods

variable (periods : List TierPeriod) (pins : List Pin)

def inTier (tier : Nat) (queryKey : String) (begins width : Nat) : Bool :=
  periods.any fun p => p.queryKey = queryKey ∧ p.tier = tier ∧ p.start < begins + width ∧ p.stop.all (begins < ·)

/-- `_tail_period_sql` without a span. -/
def tailPeriod (row : RowKey) : Bool :=
  inTier periods 2 row.queryKey row.bucketStart row.res && !inTier periods 1 row.queryKey row.bucketStart row.res

/-- `_tail_period_sql` over the span of five minutes. -/
def tailSpan (row : RowKey) : Bool :=
  inTier periods 2 row.queryKey (start 300 row.bucketStart) 300 && !inTier periods 1 row.queryKey (start 300 row.bucketStart) 300

/-- `_unpinned_sql`. -/
def unpinned (row : RowKey) : Bool :=
  !pins.any fun p => p.queryKey = row.queryKey ∧ p.start ≤ row.bucketStart ∧ p.stop.all (row.bucketStart < ·)

/-- `tail_add`: whether a recomputed five-minute row takes the sum in addition to what it holds. -/
def tailAdd (row : RowKey) : Bool :=
  row.res = 300 && tailPeriod periods row && !pins.any fun p =>
    p.queryKey = row.queryKey ∧ p.start < row.bucketStart + 300 ∧ p.stop.all (row.bucketStart < ·)

end Periods

def Store.rowsWhere (s : Store) (test : RowKey → Bool) : List (Sigma fun _ : RowKey => Counters) :=
  s.series.entries.filter fun row => test row.1

/-- `AND NOT tail`, which the daily rows are summed with. -/
def Store.summedInto (s : Store) (dest : Nat) (row : RowKey) : Bool := dest ≠ 86400 || !tailPeriod s.tierPeriod row

def insertOrIgnore (series : StmtSeries) (row : RowKey) (sum : Counters) : StmtSeries :=
  if (series.lookup row).isSome then series else series.insert row sum

/-- `ON CONFLICT`, where `add` says whether the sum is added to the row or put in its place. -/
def upsert (add : RowKey → Bool) (series : StmtSeries) (row : RowKey) (sum : Counters) : StmtSeries :=
  match series.lookup row with
  | none => series.insert row sum
  | some old => series.insert row (if add row then old + sum else sum)

section Rollup

variable (s : Store)

/-- Sum the closed buckets of one level that were open at the level's last rollup. -/
def closeBuckets (now src dest : Nat) : Store :=
  let closed := start dest now
  let beginning := s.rollupUntil src
  if beginning < closed then
    let rows := s.rowsWhere fun row => row.res = src ∧ beginning ≤ row.bucketStart ∧ row.bucketStart < closed ∧
      s.summedInto dest row
    let sums := groupSums (fun row => (⟨row.1.queryKey, dest, start dest row.1.bucketStart⟩ : RowKey)) Sigma.snd rows
    { s with
      series := forItems sums s.series insertOrIgnore
      rollupUntil := Function.update s.rollupUntil src closed }
  else s

/-- Sum one bucket again that a late reading went into. -/
def recompute (src dest bucket : Nat) : Store :=
  let rows := s.rowsWhere fun row => row.res = src ∧ bucket ≤ row.bucketStart ∧ row.bucketStart < bucket + dest ∧
    s.summedInto dest row
  let sums := groupSums (fun row => (⟨row.1.queryKey, dest, bucket⟩ : RowKey)) Sigma.snd rows
  let dirty := s.dirtyRollup.erase (src, bucket)
  { s with
    series := forItems sums s.series (upsert (tailAdd s.tierPeriod s.incidentPin))
    dirtyRollup := match parentRes dest with
      | some parent => dirty.insert (dest, start parent bucket)
      | none => dirty }

/-- The buckets of a level that wait to be summed again and are closed. -/
def Store.dirtyBuckets (now src dest : Nat) : List Nat :=
  ((s.dirtyRollup.filter fun entry => entry.1 = src ∧ entry.2 < start dest now).map Prod.snd).mergeSort

def rollupLevel (now src dest : Nat) : Store :=
  let s := closeBuckets s now src dest
  (s.dirtyBuckets now src dest).foldl (fun s bucket => recompute s src dest bucket) s

/-- The minutes of second-tier identities whose five minutes are closed. -/
def middleMinute (now : Nat) (row : RowKey) : Bool :=
  row.res = 60 && row.bucketStart < start 300 now && tailSpan s.tierPeriod row && unpinned s.incidentPin row

def keepReadingsDays (preference : Nat) : Nat := if preference ∈ [7, 30, 90] then preference else 7

/-- Rows past `reading_retention()`. -/
def expired (now preference : Nat) (row : RowKey) : Bool :=
  match if row.res = 300 then some (keepReadingsDays preference * 86400) else retention row.res with
  | none => false
  | some age => row.bucketStart < start row.res (now - age) && (row.res ≠ 60 || unpinned s.incidentPin row)

def dropOld (now preference : Nat) : Store :=
  let s := { s with series := keepKeys (fun row => !middleMinute s now row) s.series }
  { s with series := keepKeys (fun row => !expired s now preference row) s.series }

def rollup (now preference : Nat) : Store :=
  dropOld (levels.foldl (fun s level => rollupLevel s now level.1 level.2) s) now preference

end Rollup

section Trim

variable (s : Store) (retained : List String)

/-- The identities that a trim folds into everything else. -/
def outside (queryKey : String) : Bool := queryKey ≠ everythingElse && !retained.contains queryKey

/-- Fill the missing parent buckets of identities that are to be folded. -/
def fillParents (child parent : Nat) : Store :=
  let rows := s.rowsWhere fun row => outside retained row.queryKey && row.res = child &&
    !(s.series.lookup ⟨row.queryKey, parent, start parent row.bucketStart⟩).isSome &&
    (s.series.lookup ⟨everythingElse, parent, start parent row.bucketStart⟩).isSome
  let sums := groupSums (fun row => (⟨row.1.queryKey, parent, start parent row.1.bucketStart⟩ : RowKey)) Sigma.snd rows
  { s with series := forItems sums s.series fun series row sum => series.insert row sum }

def foldDisplaced : Store :=
  let sums := groupSums (fun row => ({ row.1 with queryKey := everythingElse } : RowKey)) Sigma.snd
    (s.rowsWhere fun row => outside retained row.queryKey)
  let series := forItems sums s.series (upsert fun _ => true)
  { s with series := keepKeys (fun row => !outside retained row.queryKey) series }

/-- `_trim_tracked_queries`, given the identities that stay. -/
def trimTrackedQueries : Store :=
  foldDisplaced (levels.foldl (fun s level => fillParents s retained level.1 level.2) s) retained

end Trim

/-- One collector reading, and what the tables outside of this model answer about it. -/
structure Reception where
  ts : Nat
  statements : List (String × Counters)
  /-- Whether the reading has the counters of the database. -/
  hasDb : Bool
  untracked : Option (Int × ℚ)
  systemKeys : List String
  /-- The identities that stay, where the load of the reading displaces some. -/
  selected : Option (List String)
  /-- The periods after ranking. -/
  ranked : List TierPeriod
  /-- The identities with a rank. -/
  ranks : List String
  /-- The identities that are not workload. -/
  excluded : List String
  preference : Nat

/-- The counters of the statements without a row of their own. -/
def Reception.other (r : Reception) : Counters :=
  let outside := (r.statements.filter fun row => !r.excluded.contains row.1 && !r.ranks.contains row.1).map fun row =>
    (⟨row.2.calls, row.2.totalMs, 0, 0, 0, row.2.tempBlks⟩ : Counters)
  outside.sum + match r.untracked with
    | none => 0
    | some (calls, ms) => ⟨calls, ms, 0, 0, 0, 0⟩

/-- The rows of a reading: the ranked statements, and everything else. -/
def Reception.detailed (r : Reception) : List (String × Counters) :=
  (r.statements.filter fun row => !r.excluded.contains row.1 && r.ranks.contains row.1) ++
    if r.other.calls ≠ 0 ∨ r.other.totalMs ≠ 0 then [(everythingElse, r.other)] else []

section Record

variable (s : Store) (r : Reception)

def newSystemKeys : List String := r.systemKeys.filter fun key => !s.systemQuery.contains key

/-- Forget the history of identities that turn out not to be workload. -/
def forget : Store :=
  { s with
    systemQuery := s.systemQuery ++ (newSystemKeys s r).dedup
    series := keepKeys (fun row => !(newSystemKeys s r).contains row.queryKey) s.series }

def Reception.isLate : Bool := start 300 (start 60 r.ts) < s.rollupUntil 60

def markDirty : Store :=
  if (r.statements ≠ [] ∨ r.hasDb) ∧ r.isLate s then
    { s with dirtyRollup := s.dirtyRollup.insert (60, start 300 (start 60 r.ts)) }
  else s

def trimmed : Store :=
  match r.selected with
  | none => s
  | some selected => trimTrackedQueries s selected

def fileRows : Store :=
  { s with
    tierPeriod := r.ranked
    series := r.detailed.foldl (fun series row => upsert (fun _ => true) series ⟨row.1, 60, start 60 r.ts⟩ row.2)
      s.series }

def record : Store := rollup (fileRows (trimmed (markDirty (forget s r) r) r) r) r.ts r.preference

end Record

/-- Whether the storage budget may take a row: a parent holds it, and no pin or age does. -/
def prunable (s : Store) (clock : Nat) (row : RowKey) : Bool :=
  match parentRes row.res with
  | none => false
  | some parent => (s.series.lookup ⟨row.queryKey, parent, start parent row.bucketStart⟩).isSome &&
      (row.res ≠ 60 || unpinned s.incidentPin row) && (row.res ≠ 3600 || row.bucketStart < clock - 30 * 86400)

/-- One batch of `_enforce_budget` or `_enforce_install_budget`. -/
def enforceBudget (s : Store) (clock : Nat) (batch : List RowKey) : Store :=
  { s with series := keepKeys (fun row => !(batch.contains row && prunable s clock row)) s.series }

end Rdst.Series
