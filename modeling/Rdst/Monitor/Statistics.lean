import Rdst.Lib.Totals
import Rdst.Monitor.Record

namespace Rdst.Monitor.Statistics

open Assoc Totals

/-- A schema and a table of it. -/
abbrev TableName := String × String

/-- A table, and an index of it. -/
abbrev IndexName := TableName × String

inductive Counter
  | ins
  | upd
  | del
  | hotUpd
  | seqScan
  | idxScan
  | scanRows
deriving DecidableEq

def counters : List Counter := [.ins, .upd, .del, .hotUpd, .seqScan, .idxScan, .scanRows]

structure TableFacts where
  liveRows : Int
  deadRows : Int
  sizeBytes : Int
  vacuumedAt : Option Int
  analyzedAt : Option Int

structure TableReading where
  name : TableName
  counters : Counter → Int
  facts : TableFacts

structure IndexFacts where
  sizeBytes : Int
  unique : Bool
  primary : Bool
  lastScanAt : Option Int
  valid : Bool

structure IndexReading where
  name : IndexName
  scans : Int
  facts : IndexFacts

structure Setting where
  value : String
  unit : Option String
  pendingRestart : Bool

/-- One reading of the engine's statistics views. -/
structure Reading where
  engine : String
  counterSince : Int
  takenAt : Int
  tables : List TableReading
  indexes : List IndexReading
  settings : Dict String Setting
  tablesDistinct : (tables.map TableReading.name).Nodup
  indexesDistinct : (indexes.map IndexReading.name).Nodup

structure StatsMeta where
  engine : String
  counterSince : Int
  observedSince : Int
  takenAt : Int

structure TableState where
  reading : TableReading
  updatedAt : Int

structure IndexState where
  reading : IndexReading
  firstSeen : Int
  updatedAt : Int

structure SettingState where
  setting : Setting
  changedAt : Option Int
  readAt : Int

structure SettingChange where
  name : String
  old : String
  new : String
  ts : Int

structure TableActivity where
  counters : Counter → Int
  seconds : Int

/-- The statistics of one target. -/
structure Store where
  statsMeta : Option StatsMeta
  tableState : List TableState
  tableActivity : List ((TableName × Int) × TableActivity)
  indexState : List IndexState
  indexActivity : List ((IndexName × Int) × Int)
  settingState : Dict String SettingState
  settingChange : List SettingChange

def Store.empty : Store := ⟨none, [], [], [], [], ∅, []⟩

def delta (new : Int) (old : Option Int) : Int :=
  match old with
  | none => 0
  | some old => if new < old then new else new - old

section RecordStats

variable (s : Store) (r : Reading)

def hourBucket (ts : Int) : Int := ts / 3600 * 3600

def seconds : Int :=
  match s.statsMeta with
  | some last => max 0 (r.takenAt - last.takenAt)
  | none => 0

def reset : Bool :=
  match s.statsMeta with
  | some last => r.counterSince > last.counterSince + 120
  | none => false

def oldTable (name : TableName) : Option TableState := s.tableState.find? fun old => old.reading.name = name

def oldIndex (name : IndexName) : Option IndexState := s.indexState.find? fun old => old.reading.name = name

/-- Whether a counter of a table is below its last value. -/
def fell (row : TableReading) : Bool :=
  (oldTable s row.name).any fun old => counters.any fun name => old.reading.counters name > row.counters name

def moved (row : TableReading) : Counter → Int :=
  if fell s row then row.counters
  else if reset s r && (oldTable s row.name).isSome then row.counters
  else fun name => delta (row.counters name) ((oldTable s row.name).map fun old => old.reading.counters name)

def since : Int :=
  let reported := match s.statsMeta with
    | some last => if reset s r then r.counterSince else last.counterSince
    | none => r.counterSince
  r.tables.foldl (fun since row =>
    if fell s row then max since ((s.statsMeta.map StatsMeta.takenAt).getD r.takenAt) else since) reported

def addActivity (old new : TableActivity) : TableActivity :=
  ⟨fun name => old.counters name + new.counters name, old.seconds + new.seconds⟩

def writesTable (row : TableReading) : Bool := seconds s r ≠ 0 && counters.any fun name => moved s r row name ≠ 0

def scansMoved (row : IndexReading) : Int :=
  if reset s r && (oldIndex s row.name).isSome then row.scans
  else delta row.scans ((oldIndex s row.name).map fun old => old.reading.scans)

def writesIndex (row : IndexReading) : Bool := seconds s r ≠ 0 && scansMoved s r row ≠ 0

/-- Write the rows of a reading that pass into the hour's rows. -/
def addRows {Row Name Activity : Type} [DecidableEq Name] (merge : Activity → Activity → Activity) (name : Row → Name)
    (value : Row → Activity) (writes : Row → Bool) (bucket : Int) (rows : List Row)
    (activity : List ((Name × Int) × Activity)) : List ((Name × Int) × Activity) :=
  rows.foldl (fun activity row => if writes row then upsert merge (name row, bucket) (value row) activity else activity)
    activity

def changes : List SettingChange :=
  r.settings.entries.filterMap fun item =>
    (s.settingState.lookup item.1).bind fun old =>
      if old.setting.value ≠ item.2.value then some ⟨item.1, old.setting.value, item.2.value, r.takenAt⟩ else none

def storeSettings : Dict String SettingState :=
  r.settings.entries.foldl (fun state item =>
    let changedAt := (s.settingState.lookup item.1).bind fun old =>
      if old.setting.value ≠ item.2.value then some r.takenAt else old.changedAt
    state.insert item.1 ⟨item.2, changedAt, r.takenAt⟩) s.settingState

/-- Store one reading and return the changes of settings. -/
def recordStats : Store × List SettingChange :=
  let bucket := hourBucket r.takenAt
  let stored : Store := {
    statsMeta := some ⟨r.engine, since s r, (s.statsMeta.map StatsMeta.observedSince).getD r.takenAt, r.takenAt⟩
    tableState := r.tables.map fun row => ⟨row, r.takenAt⟩
    tableActivity := addRows addActivity TableReading.name (fun row => ⟨moved s r row, seconds s r⟩) (writesTable s r) bucket
      r.tables s.tableActivity
    indexState := r.indexes.map fun row =>
      ⟨row, ((oldIndex s row.name).map IndexState.firstSeen).getD r.takenAt, r.takenAt⟩
    indexActivity := addRows (fun old new => old + new) IndexReading.name (scansMoved s r) (writesIndex s r) bucket r.indexes
      s.indexActivity
    settingState := storeSettings s r
    settingChange := s.settingChange ++ changes s r }
  (stored, changes s r)

end RecordStats

/-- A counter of a table or of an index. -/
inductive Gauge
  | table (name : TableName) (counter : Counter)
  | index (name : IndexName)
deriving DecidableEq

/-- The sum of the recorded activity of a counter. -/
def Store.recorded (s : Store) : Gauge → Int
  | .table name counter => total (fun row => row.2.counters counter) (fun row => row.1.1 = name) s.tableActivity
  | .index name => total (fun row => row.2) (fun row => row.1.1 = name) s.indexActivity

/-- What a reading shows of a counter. -/
def Reading.shows (r : Reading) : Gauge → Option Int
  | .table name counter => (r.tables.find? fun row => row.name = name).map fun row => row.counters counter
  | .index name => (r.indexes.find? fun row => row.name = name).map IndexReading.scans

/-- What the store holds of it. -/
def Store.held (s : Store) : Gauge → Option Int
  | .table name counter => (oldTable s name).map fun old => old.reading.counters counter
  | .index name => (oldIndex s name).map fun old => old.reading.scans

/-- The table or the index that a counter is of. -/
def Gauge.row : Gauge → TableName ⊕ IndexName
  | .table name _ => .inl name
  | .index name => .inr name

/-- What a reading adds to the recorded activity of a counter. -/
def gain (s : Store) (r : Reading) : Gauge → Int
  | .table name counter =>
    (r.tables.find? fun row => row.name = name).elim 0 fun row => if seconds s r ≠ 0 then moved s r row counter else 0
  | .index name =>
    (r.indexes.find? fun row => row.name = name).elim 0 fun row => if seconds s r ≠ 0 then scansMoved s r row else 0

section Sums

theorem total_upsert {Key Value M : Type} [DecidableEq Key] [AddCommMonoid M] {merge : Value → Value → Value}
    (worth : Value → M) (additive : ∀ old new, worth (merge old new) = worth old + worth new) (test : Key → Prop)
    [DecidablePred test] (key : Key) (value : Value) (rows : List (Key × Value)) :
    total (fun row => worth row.2) (fun row => test row.1) (upsert merge key value rows) =
      total (fun row => worth row.2) (fun row => test row.1) rows + if test key then worth value else 0 := by
  induction rows with
  | nil => simp [upsert, total_cons]
  | cons row rest ih =>
    obtain ⟨first, old⟩ := row
    by_cases same : first = key
    · subst same
      rw [upsert, if_pos rfl, total_cons, total_cons]
      by_cases met : test first
      · rw [if_pos met, if_pos met, if_pos met, additive, add_right_comm]
      · rw [if_neg met, if_neg met, if_neg met, add_zero]
    · rw [upsert, if_neg same, total_cons, total_cons, ih, add_assoc]

theorem total_addRows {Row Name Activity : Type} [DecidableEq Name] {merge : Activity → Activity → Activity}
    (worth : Activity → Int) (additive : ∀ old new, worth (merge old new) = worth old + worth new) (name : Row → Name)
    (value : Row → Activity) (writes : Row → Bool) (bucket : Int) (rows : List Row)
    (activity : List ((Name × Int) × Activity)) (key : Name) :
    total (fun row => worth row.2) (fun row => row.1.1 = key) (addRows merge name value writes bucket rows activity) =
      total (fun row => worth row.2) (fun row => row.1.1 = key) activity +
        total (fun row => worth (value row)) (fun row => name row = key ∧ writes row = true) rows := by
  induction rows generalizing activity with
  | nil => simp [addRows]
  | cons row rest ih =>
    have turn : addRows merge name value writes bucket (row :: rest) activity = addRows merge name value writes bucket rest
        (if writes row then upsert merge (name row, bucket) (value row) activity else activity) := rfl
    rw [turn, ih, total_cons]
    cases written : writes row with
    | false => simp
    | true =>
      simp only [if_true, and_true]
      rw [total_upsert worth additive (fun key' : Name × Int => key'.1 = key), add_assoc]

/-- Of rows with names of their own, one counts at a name. -/
theorem total_found {Row Name : Type} [DecidableEq Name] (name : Row → Name) (worth : Row → Int) (writes : Row → Bool)
    (rows : List Row) (distinct : (rows.map name).Nodup) (key : Name) :
    total worth (fun row => name row = key ∧ writes row = true) rows =
      (rows.find? fun row => name row = key).elim 0 fun row => if writes row then worth row else 0 := by
  induction rows with
  | nil => rfl
  | cons row rest ih =>
    rw [List.map_cons, List.nodup_cons] at distinct
    rw [total_cons]
    by_cases own : name row = key
    · have others : total worth (fun row => name row = key ∧ writes row = true) rest = 0 := by
        apply total_eq_zero
        intro other member both
        exact distinct.1 (own ▸ both.1 ▸ List.mem_map_of_mem member)
      rw [others, List.find?_cons_of_pos (by simpa using own)]
      simp [own]
    · rw [List.find?_cons_of_neg (by simpa using own), ih distinct.2]
      simp [own]

theorem mem_counters (counter : Counter) : counter ∈ counters := by
  cases counter <;> decide

end Sums

section Recorded

variable (s : Store) (r : Reading)

theorem writesTable_counts (row : TableReading) (counter : Counter) :
    (if writesTable s r row then moved s r row counter else 0) = if seconds s r ≠ 0 then moved s r row counter else 0 := by
  by_cases timed : seconds s r = 0
  · simp [writesTable, timed]
  · by_cases still : moved s r row counter = 0
    · simp [still]
    · have written : writesTable s r row = true := by
        have any : (counters.any fun name => moved s r row name ≠ 0) = true :=
          List.any_eq_true.mpr ⟨counter, mem_counters counter, by simpa using still⟩
        rw [writesTable, any]
        simpa using timed
      rw [if_pos written, if_pos timed]

theorem writesIndex_counts (row : IndexReading) :
    (if writesIndex s r row then scansMoved s r row else 0) = if seconds s r ≠ 0 then scansMoved s r row else 0 := by
  by_cases timed : seconds s r = 0
  · simp [writesIndex, timed]
  · by_cases still : scansMoved s r row = 0 <;> simp [writesIndex, timed, still]

theorem recorded_recordStats (gauge : Gauge) :
    (recordStats s r).1.recorded gauge = s.recorded gauge + gain s r gauge := by
  cases gauge with
  | table name counter =>
    have additive : ∀ old new, (addActivity old new).counters counter = old.counters counter + new.counters counter :=
      fun _ _ => rfl
    have added := total_addRows (fun activity : TableActivity => activity.counters counter) additive TableReading.name
      (fun row => (⟨moved s r row, seconds s r⟩ : TableActivity)) (writesTable s r)
      (hourBucket r.takenAt) r.tables s.tableActivity name
    rw [total_found TableReading.name (fun row => moved s r row counter) (writesTable s r) r.tables r.tablesDistinct] at added
    simp only [writesTable_counts] at added
    exact added
  | index name =>
    have additive : ∀ old new : Int, (fun old new => old + new) old new = old + new := fun _ _ => rfl
    have added := total_addRows (fun scans : Int => scans) additive IndexReading.name (scansMoved s r) (writesIndex s r)
      (hourBucket r.takenAt) r.indexes s.indexActivity name
    rw [total_found IndexReading.name (fun row => scansMoved s r row) (writesIndex s r) r.indexes r.indexesDistinct] at added
    simp only [writesIndex_counts] at added
    exact added

theorem held_recordStats (gauge : Gauge) : (recordStats s r).1.held gauge = r.shows gauge := by
  cases gauge with
  | table name counter =>
    simp only [Store.held, oldTable, recordStats, Reading.shows, List.find?_map, Option.map_map]
    rfl
  | index name =>
    simp only [Store.held, oldIndex, recordStats, Reading.shows, List.find?_map, Option.map_map]
    rfl

variable {s r}

theorem gain_untimed (untimed : seconds s r = 0) (gauge : Gauge) : gain s r gauge = 0 := by
  cases gauge with
  | table name counter => cases found : r.tables.find? fun row => row.name = name <;> simp [gain, found, untimed]
  | index name => cases found : r.indexes.find? fun row => row.name = name <;> simp [gain, found, untimed]

theorem gain_unseen {gauge : Gauge} (unseen : r.shows gauge = none) : gain s r gauge = 0 := by
  cases gauge with
  | table name counter =>
    rw [Reading.shows, Option.map_eq_none_iff] at unseen
    simp [gain, unseen]
  | index name =>
    rw [Reading.shows, Option.map_eq_none_iff] at unseen
    simp [gain, unseen]

/-- A counter without a value before only sets one. -/
theorem gain_fresh {gauge : Gauge} (fresh : s.held gauge = none) : gain s r gauge = 0 := by
  cases gauge with
  | table name counter =>
    rw [Store.held, Option.map_eq_none_iff] at fresh
    rw [gain]
    cases found : r.tables.find? fun row => row.name = name with
    | none => rfl
    | some row =>
      have own : row.name = name := by simpa using List.find?_some found
      simp [moved, fell, own, fresh, delta]
  | index name =>
    rw [Store.held, Option.map_eq_none_iff] at fresh
    rw [gain]
    cases found : r.indexes.find? fun row => row.name = name with
    | none => rfl
    | some row =>
      have own : row.name = name := by simpa using List.find?_some found
      simp [scansMoved, own, fresh, delta]

/-- One with a value before counts what it grew by, or in full: after a reset, or where a counter of its row fell. -/
theorem gain_held {gauge : Gauge} {old new : Int} (held : s.held gauge = some old) (shown : r.shows gauge = some new)
    (timed : seconds s r ≠ 0) :
    (gain s r gauge = new - old ∧ reset s r = false) ∨ (gain s r gauge = new ∧ (reset s r = true ∨
      ∃ other before after, other.row = gauge.row ∧ s.held other = some before ∧ r.shows other = some after ∧
        after < before)) := by
  cases gauge with
  | table name counter =>
    obtain ⟨state, oldFound, rfl⟩ := Option.map_eq_some_iff.mp held
    obtain ⟨row, found, rfl⟩ := Option.map_eq_some_iff.mp shown
    have own : row.name = name := by simpa using List.find?_some found
    have gained : gain s r (.table name counter) = moved s r row counter := by
      rw [gain, found]
      exact if_pos timed
    rw [gained, moved]
    cases down : fell s row with
    | true =>
      rw [fell, own, oldFound, Option.any_some, List.any_eq_true] at down
      obtain ⟨other, -, below⟩ := down
      refine .inr ⟨rfl, .inr ⟨.table name other, _, _, rfl, ?_, ?_, of_decide_eq_true below⟩⟩
      · rw [Store.held, oldFound, Option.map_some]
      · rw [Reading.shows, found, Option.map_some]
    | false =>
      cases restarted : reset s r with
      | true => simp [own, oldFound]
      | false =>
        have above : ¬ row.counters counter < state.reading.counters counter := by
          rw [fell, own, oldFound, Option.any_some, List.any_eq_false] at down
          have level := down counter (mem_counters counter)
          simpa using level
        simp [own, oldFound, delta, above]
  | index name =>
    obtain ⟨state, oldFound, rfl⟩ := Option.map_eq_some_iff.mp held
    obtain ⟨row, found, rfl⟩ := Option.map_eq_some_iff.mp shown
    have own : row.name = name := by simpa using List.find?_some found
    have gained : gain s r (.index name) = scansMoved s r row := by
      rw [gain, found]
      exact if_pos timed
    rw [gained, scansMoved]
    cases restarted : reset s r with
    | true => simp [own, oldFound]
    | false =>
      by_cases below : row.scans < state.reading.scans
      · refine .inr ⟨by simp [own, oldFound, delta, below], .inr ⟨.index name, _, _, rfl, held, shown, below⟩⟩
      · simp [own, oldFound, delta, below]

end Recorded

end Rdst.Monitor.Statistics
