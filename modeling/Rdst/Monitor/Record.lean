import Mathlib.Algebra.Ring.Int.Defs
import Mathlib.Algebra.Ring.Rat
import Mathlib.Data.List.Basic
import Mathlib.Data.Rat.Defs

namespace Rdst.Monitor

variable {Key Process : Type} [DecidableEq Key] [DecidableEq Process]

def collectionGapSeconds : Int := 65

structure Counters where
  calls : Int
  totalMs : ℚ
  rows : Int
  blksHit : Int
  blksRead : Int
  tempBlks : Int
deriving DecidableEq

instance : Add Counters where
  add a b := ⟨a.calls + b.calls, a.totalMs + b.totalMs, a.rows + b.rows, a.blksHit + b.blksHit,
    a.blksRead + b.blksRead, a.tempBlks + b.tempBlks⟩

structure DbCounters where
  calls : Int
  totalMs : ℚ
  activeConns : Option Int
  maxConns : Option Int
  cacheHitRatio : Option ℚ
  xactCommit : Int
  xactRollback : Int
  deadlocks : Int
  blksHit : Option Int
  blksRead : Option Int
  lockWaits : Option Int
deriving DecidableEq

/-- What one collector cycle queues: the arguments of `record` that reach the history tables. -/
structure Reading (Key : Type) where
  ts : Int
  statements : List (Key × Counters)
  db : Option DbCounters
  systemKeys : List Key
  untracked : Option (Int × ℚ)

/-- A key of `stmt_series`: one identity, or `EVERYTHING_ELSE`. -/
inductive SeriesKey (Key : Type)
  | query (key : Key)
  | everythingElse
deriving DecidableEq

/-- The rows of one target. The series hold the 60-second resolution that `record` writes. -/
structure MonitorStore (Key Process : Type) where
  disabled : Bool
  collectorBaseline : Option (Process × Int)
  collectPulse : Bool
  systemQuery : List Key
  tier : List Key
  notWorkload : List Key
  stmtSeries : List ((SeriesKey Key × Int) × Counters)
  dbSeries : List (Int × DbCounters)

/-- `INSERT .. ON CONFLICT DO UPDATE`: combine with the row of the same primary key, or append. -/
def upsert {α β : Type} [DecidableEq α] (merge : β → β → β) (key : α) (value : β) :
    List (α × β) → List (α × β)
  | [] => [(key, value)]
  | (k, old) :: rest =>
    if k = key then (k, merge old value) :: rest else (k, old) :: upsert merge key value rest

def minuteBucket (ts : Int) : Int := ts / 60 * 60

/-- The deltas of a reading reach back to the reading before it, so they count only when this
    process took that one and it is recent. -/
def baselineBroken (process : Process) (store : MonitorStore Key Process) (ts : Int) : Bool :=
  match store.collectorBaseline with
  | some (recorded, reading) =>
    recorded ≠ process || ts < reading || ts - reading > collectionGapSeconds
  | none => store.collectPulse

/-- RDST's own statements are not workload: history from before they were recognized goes. -/
def forgetSystem (store : MonitorStore Key Process) (keys : List Key) : MonitorStore Key Process :=
  let fresh := keys.filter (· ∉ store.systemQuery)
  { store with
    systemQuery := store.systemQuery ++ fresh
    stmtSeries := store.stmtSeries.filter fun row => row.1.1 ∉ fresh.map SeriesKey.query
    tier := store.tier.filter (· ∉ fresh)
    notWorkload := store.notWorkload.filter (· ∉ fresh) }

/-- Ranked statements keep rows of their own, the others share the everything-else row. -/
def detailedRows (store : MonitorStore Key Process) (rows : List (Key × Counters))
    (outside : Option (Int × ℚ)) : List (SeriesKey Key × Counters) :=
  let workload := rows.filter fun row => row.1 ∉ store.notWorkload
  let detailed := workload.filter fun row => row.1 ∈ store.tier
  let unranked := workload.filter fun row => row.1 ∉ store.tier
  let other : Counters :=
    { calls := (unranked.map (·.2.calls)).sum + (outside.map (·.1)).getD 0
      totalMs := (unranked.map (·.2.totalMs)).sum + (outside.map (·.2)).getD 0
      rows := 0, blksHit := 0, blksRead := 0
      tempBlks := (unranked.map (·.2.tempBlks)).sum }
  let own := detailed.map fun row => (SeriesKey.query row.1, row.2)
  if other.calls ≠ 0 ∨ other.totalMs ≠ 0 then own ++ [(.everythingElse, other)] else own

def mergeDb (old new : DbCounters) : DbCounters :=
  { new with
    calls := old.calls + new.calls
    totalMs := old.totalMs + new.totalMs
    xactCommit := old.xactCommit + new.xactCommit
    xactRollback := old.xactRollback + new.xactRollback
    deadlocks := old.deadlocks + new.deadlocks
    blksHit := some (old.blksHit.getD 0 + new.blksHit.getD 0)
    blksRead := some (old.blksRead.getD 0 + new.blksRead.getD 0) }

def addHistory (store : MonitorStore Key Process) (ts : Int) (rows : List (Key × Counters))
    (counters : Option DbCounters) (outside : Option (Int × ℚ)) : MonitorStore Key Process :=
  let bucket := minuteBucket ts
  { store with
    stmtSeries := (detailedRows store rows outside).foldl
      (fun series row => upsert (· + ·) (row.1, bucket) row.2 series) store.stmtSeries
    dbSeries := match counters with
      | some db => upsert mergeDb bucket db store.dbSeries
      | none => store.dbSeries }

/-- One committed `record` transaction, and whether it adds the reading's deltas to the history.
    `housekeeping` is its tracking, ranking and rollup of rows that are already stored. -/
def record (housekeeping : MonitorStore Key Process → Reading Key → MonitorStore Key Process)
    (process : Process) (store : MonitorStore Key Process) (reading : Reading Key) :
    MonitorStore Key Process × Bool :=
  if store.disabled then (store, false)
  else
    let broken := baselineBroken process store reading.ts
    let stamped := { store with collectorBaseline := some (process, reading.ts) }
    let ranked := housekeeping (forgetSystem stamped reading.systemKeys) reading
    let added :=
      if broken then addHistory ranked reading.ts [] none none
      else addHistory ranked reading.ts reading.statements reading.db reading.untracked
    ({ added with collectPulse := true }, !broken)

end Rdst.Monitor
