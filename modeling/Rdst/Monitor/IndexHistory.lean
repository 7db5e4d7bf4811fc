import Mathlib.Data.List.Sort
import Rdst.Lib.Journal
import Rdst.Lib.RowTable
import Rdst.Lib.Run

namespace Rdst.Monitor.IndexHistory

open Assoc Journal Machine RowTable

structure IndexKey where
  schema : String
  table : String
  indexName : String
  deriving DecidableEq

/-- The order of the tuples in which `sorted` puts the keys. -/
def IndexKey.le (a b : IndexKey) : Prop :=
  a.schema < b.schema ∨ a.schema = b.schema ∧
    (a.table < b.table ∨ a.table = b.table ∧ (a.indexName < b.indexName ∨ a.indexName = b.indexName))

instance : DecidableRel IndexKey.le := fun a b =>
  inferInstanceAs (Decidable (a.schema < b.schema ∨ a.schema = b.schema ∧
    (a.table < b.table ∨ a.table = b.table ∧ (a.indexName < b.indexName ∨ a.indexName = b.indexName))))

structure IndexRow where
  key : IndexKey
  definition : String

structure SnapshotRow where
  target : String
  key : IndexKey
  definition : String
  capturedAt : Int
  deriving DecidableEq

structure IndexChange where
  target : String
  ts : Int
  change : Entry IndexKey String
  deriving DecidableEq

/-- `index_snapshot`, with its primary key. -/
structure SnapshotTable where
  rows : List SnapshotRow
  primaryKey : (rows.map fun row => (row.target, row.key)).Nodup

def SnapshotTable.of (table : SnapshotTable) (target : String) : List SnapshotRow :=
  table.rows.filter fun row => row.target = target

/-- Delete the rows of a target and insert one for each item. -/
def SnapshotTable.replace (table : SnapshotTable) (target : String) (items : Dict IndexKey String) (ts : Int) :
    SnapshotTable where
  rows := table.rows.filter (fun row => row.target ≠ target) ++
    items.entries.map fun item => ⟨target, item.1, item.2, ts⟩
  primaryKey := by
    rw [List.map_append, List.nodup_append]
    refine ⟨table.primaryKey.sublist (List.filter_sublist.map _), ?_, ?_⟩
    · have keys : (items.entries.map Sigma.fst).Nodup := items.nodupKeys
      rw [List.map_map]
      refine List.Nodup.of_map Prod.snd ?_
      rwa [List.map_map]
    · rintro _ kept _ fresh rfl
      obtain ⟨row, outside, equal⟩ := List.mem_map.mp kept
      simp only [List.map_map, List.mem_map, Function.comp_apply] at fresh
      obtain ⟨item, _, same⟩ := fresh
      have other := (List.mem_filter.mp outside).2
      rw [← same, Prod.mk.injEq] at equal
      simp [equal.1] at other

structure Store where
  indexSnapshot : SnapshotTable
  indexChange : Table IndexChange
  /-- `monitor_setting`, by target and key. -/
  monitorSetting : Dict (String × String) String

def Store.empty : Store := ⟨⟨[], List.nodup_nil⟩, Table.empty, ∅⟩

/-- A call of `sync_indexes`. -/
structure Sync where
  target : String
  indexes : List IndexRow
  ts : Int

/-- A dict built from rows: where a key comes twice, the last row stands. -/
def dictOf {Row : Type} (key : Row → IndexKey) (definition : Row → String) (rows : List Row) : Dict IndexKey String :=
  rows.foldl (fun dict row => dict.insert (key row) (definition row)) ∅

def Store.snapshot (store : Store) (target : String) : Dict IndexKey String :=
  dictOf SnapshotRow.key SnapshotRow.definition (store.indexSnapshot.of target)

def Store.seeded (store : Store) (target : String) : Bool :=
  (store.monitorSetting.lookup (target, "index_seeded")).isSome

def Sync.new (sync : Sync) : Dict IndexKey String := dictOf IndexRow.key IndexRow.definition sync.indexes

/-- The entries that a call records, in order, for a target that was read before. -/
def changes (old new : Dict IndexKey String) : List (Entry IndexKey String) :=
  let changed := new.keys.filter fun key => key ∈ old.keys ∧ new.lookup key ≠ old.lookup key
  let dropped := old.keys.filter (fun key => key ∉ new.keys) ++ changed
  let added := new.keys.filter (fun key => key ∉ old.keys) ++ changed
  entriesOf .dropped (dropped.insertionSort IndexKey.le) old ++
    entriesOf .added (added.insertionSort IndexKey.le) new

/-- Insert the changes one after the other; the new rows come with their ids. -/
def insertChanges (target : String) (ts : Int) :
    Table IndexChange → List (Entry IndexKey String) → Table IndexChange × List (Nat × IndexChange)
  | table, [] => (table, [])
  | table, entry :: rest =>
    let row : IndexChange := ⟨target, ts, entry⟩
    let final := insertChanges target ts (table.insert row) rest
    (final.1, (table.nextId, row) :: final.2)

def syncIndexes (store : Store) (sync : Sync) : Store × List (Nat × IndexChange) :=
  let old := store.snapshot sync.target
  let new := sync.new
  let recorded := insertChanges sync.target sync.ts store.indexChange
    (if store.seeded sync.target then changes old new else [])
  let setting := (sync.target, "index_seeded")
  ({ indexSnapshot := store.indexSnapshot.replace sync.target new sync.ts
     indexChange := recorded.1
     monitorSetting :=
       if (store.monitorSetting.lookup setting).isSome then store.monitorSetting
       else store.monitorSetting.insert setting "1" },
    recorded.2)

/-- The changes of a target among the rows of `index_change`, in the order of their ids. -/
def changesOf (target : String) (rows : List (Nat × IndexChange)) : List (Entry IndexKey String) :=
  (rows.filter fun row => row.2.target = target).map fun row => row.2.change

theorem insertChanges_rows (target : String) (ts : Int) (table : Table IndexChange)
    (entries : List (Entry IndexKey String)) :
    (insertChanges target ts table entries).1.rows = table.rows ++ (insertChanges target ts table entries).2 := by
  induction entries generalizing table with
  | nil => simp [insertChanges]
  | cons entry rest ih => simp [insertChanges, ih, Table.insert]

theorem insertChanges_changes (target : String) (ts : Int) (table : Table IndexChange)
    (entries : List (Entry IndexKey String)) :
    (insertChanges target ts table entries).2.map Prod.snd = entries.map fun entry => ⟨target, ts, entry⟩ := by
  induction entries generalizing table with
  | nil => rfl
  | cons entry rest ih => simp [insertChanges, ih]

theorem changesOf_insertChanges (asked target : String) (ts : Int) (table : Table IndexChange)
    (entries : List (Entry IndexKey String)) :
    changesOf asked (insertChanges target ts table entries).2 = if target = asked then entries else [] := by
  induction entries generalizing table with
  | nil => simp [insertChanges, changesOf]
  | cons entry rest ih =>
    have later := ih (table.insert ⟨target, ts, entry⟩)
    by_cases same : target = asked
    · simpa [insertChanges, changesOf, same] using later
    · simpa [insertChanges, changesOf, same] using later

theorem changesOf_append (target : String) (first second : List (Nat × IndexChange)) :
    changesOf target (first ++ second) = changesOf target first ++ changesOf target second := by
  simp [changesOf]

theorem dictOf_items (dict : Dict IndexKey String) (target : String) (ts : Int) (k : IndexKey) :
    (dictOf SnapshotRow.key SnapshotRow.definition
      (dict.entries.map fun item => ⟨target, item.1, item.2, ts⟩)).lookup k = dict.lookup k := by
  have isLocal : Local fun (d : Dict IndexKey String) key value => d.insert key value :=
    ⟨fun d key value k other => AList.lookup_insert_ne other,
      fun d d' key value _ => by rw [AList.lookup_insert, AList.lookup_insert]⟩
  have copied := forItems_lookup isLocal dict ∅ k
  have rows : dictOf SnapshotRow.key SnapshotRow.definition
      (dict.entries.map fun item => (⟨target, item.1, item.2, ts⟩ : SnapshotRow)) =
      forItems dict ∅ fun d key value => d.insert key value := by
    rw [dictOf, List.foldl_map, forItems]
  rw [rows, copied]
  cases dict.lookup k with
  | none => exact AList.lookup_empty k
  | some value => exact AList.lookup_insert _

theorem replace_own (table : SnapshotTable) (target : String) (items : Dict IndexKey String) (ts : Int) :
    (table.replace target items ts).of target = items.entries.map fun item => ⟨target, item.1, item.2, ts⟩ := by
  have gone : (table.rows.filter fun row => decide (row.target ≠ target)).filter
      (fun row => decide (row.target = target)) = [] := by
    simp [List.filter_filter]
  rw [SnapshotTable.of, SnapshotTable.replace, List.filter_append, gone, List.nil_append, List.filter_eq_self]
  intro row member
  obtain ⟨item, _, rfl⟩ := List.mem_map.mp member
  simp

theorem replace_other (table : SnapshotTable) {target asked : String} (other : asked ≠ target)
    (items : Dict IndexKey String) (ts : Int) : (table.replace target items ts).of asked = table.of asked := by
  have fresh : (items.entries.map fun item => (⟨target, item.1, item.2, ts⟩ : SnapshotRow)).filter
      (fun row => decide (row.target = asked)) = [] := by
    rw [List.filter_eq_nil_iff]
    intro row member
    obtain ⟨item, _, rfl⟩ := List.mem_map.mp member
    simpa using other.symm
  rw [SnapshotTable.of, SnapshotTable.replace, List.filter_append, fresh, List.append_nil, List.filter_filter]
  apply List.filter_congr
  intro row _
  by_cases here : row.target = asked
  · simp [here, other]
  · simp [here]

theorem snapshot_syncIndexes (store : Store) (sync : Sync) (target : String) (k : IndexKey) :
    ((syncIndexes store sync).1.snapshot target).lookup k =
      if target = sync.target then sync.new.lookup k else (store.snapshot target).lookup k := by
  by_cases same : target = sync.target
  · subst same
    simp only [syncIndexes, Store.snapshot, replace_own, if_true]
    exact dictOf_items sync.new sync.target sync.ts k
  · simp only [syncIndexes, Store.snapshot, replace_other _ same, same, if_false]

theorem seeded_syncIndexes (store : Store) (sync : Sync) (target : String) :
    (syncIndexes store sync).1.seeded target = (decide (target = sync.target) || store.seeded target) := by
  simp only [syncIndexes, Store.seeded]
  by_cases before : (store.monitorSetting.lookup (sync.target, "index_seeded")).isSome
  · by_cases same : target = sync.target
    · subst same
      simp [before]
    · simp [before, same]
  · by_cases same : target = sync.target
    · subst same
      simp [before, AList.lookup_insert]
    · have other : (target, "index_seeded") ≠ (sync.target, "index_seeded") := by simp [same]
      simp [before, same, AList.lookup_insert_ne other]

theorem changesOf_syncIndexes (store : Store) (sync : Sync) (target : String) :
    changesOf target (syncIndexes store sync).2 =
      if sync.target = target ∧ store.seeded target then changes (store.snapshot target) sync.new else [] := by
  simp only [syncIndexes, changesOf_insertChanges]
  by_cases same : sync.target = target
  · subst same
    simp
  · simp [same]

section Changes

variable (old new : Dict IndexKey String)

def changed : List IndexKey := new.keys.filter fun key => key ∈ old.keys ∧ new.lookup key ≠ old.lookup key

theorem mem_dropped (key : IndexKey) :
    key ∈ (old.keys.filter (fun key => key ∉ new.keys) ++ changed old new).insertionSort IndexKey.le ↔
      old.lookup key ≠ none ∧ new.lookup key ≠ old.lookup key := by
  simp only [List.mem_insertionSort, List.mem_append, List.mem_filter, changed, decide_eq_true_eq,
    mem_keys_iff]
  constructor
  · rintro (⟨before, gone⟩ | ⟨_, before, differs⟩)
    · rw [not_not] at gone
      exact ⟨before, gone ▸ before.symm⟩
    · exact ⟨before, differs⟩
  · rintro ⟨before, differs⟩
    by_cases gone : new.lookup key = none
    · exact Or.inl ⟨before, not_not.mpr gone⟩
    · exact Or.inr ⟨gone, before, differs⟩

theorem mem_added (key : IndexKey) :
    key ∈ (new.keys.filter (fun key => key ∉ old.keys) ++ changed old new).insertionSort IndexKey.le ↔
      new.lookup key ≠ none ∧ new.lookup key ≠ old.lookup key := by
  simp only [List.mem_insertionSort, List.mem_append, List.mem_filter, changed, decide_eq_true_eq,
    mem_keys_iff]
  constructor
  · rintro (⟨now, fresh⟩ | ⟨now, _, differs⟩)
    · rw [not_not] at fresh
      exact ⟨now, fresh ▸ now⟩
    · exact ⟨now, differs⟩
  · rintro ⟨now, differs⟩
    by_cases fresh : old.lookup key = none
    · exact Or.inl ⟨now, not_not.mpr fresh⟩
    · exact Or.inr ⟨now, fresh, differs⟩

theorem mem_changes (entry : Entry IndexKey String) : entry ∈ changes old new ↔ IsChange old new entry :=
  mem_difference (mem_dropped old new) (mem_added old new) entry

theorem replay_changes {start : Dict IndexKey String} (same : ∀ key, start.lookup key = old.lookup key) (k : IndexKey) :
    (replay start (changes old new)).lookup k = new.lookup k :=
  replay_difference (mem_dropped old new) (mem_added old new) same k

theorem changes_nodup : (changes old new).Nodup := by
  have apart (dict other : Dict IndexKey String) (outside : ∀ key ∈ changed old new, key ∈ other.keys) :
      (dict.keys.filter (fun key => key ∉ other.keys) ++ changed old new).Nodup := by
    rw [List.nodup_append]
    refine ⟨dict.nodupKeys.filter _, new.nodupKeys.filter _, ?_⟩
    rintro key alone _ both rfl
    have absent := (List.mem_filter.mp alone).2
    simp [outside key both] at absent
  have mem {key : IndexKey} (member : key ∈ changed old new) : key ∈ new.keys ∧ key ∈ old.keys := by
    obtain ⟨here, facts⟩ := List.mem_filter.mp member
    exact ⟨here, (of_decide_eq_true facts).1⟩
  apply difference_nodup
  · exact (List.perm_insertionSort _ _).nodup_iff.mpr (apart old new fun key member => (mem member).1)
  · exact (List.perm_insertionSort _ _).nodup_iff.mpr (apart new old fun key member => (mem member).2)

end Changes

/-- The rows that a call records: the differences of the two snapshots, and each of them once. -/
structure RecordedOnce (old new : Dict IndexKey String) (sync : Sync) (rows : List (Nat × IndexChange)) : Prop where
  own : ∀ row ∈ rows, row.2.target = sync.target ∧ row.2.ts = sync.ts
  exact_ : ∀ entry, entry ∈ rows.map (fun row => row.2.change) ↔ IsChange old new entry
  once : (rows.map fun row => row.2.change).Nodup

theorem syncIndexes_recorded {store : Store} {sync : Sync} (seeded : store.seeded sync.target = true) :
    RecordedOnce (store.snapshot sync.target) sync.new sync (syncIndexes store sync).2 := by
  have recorded := insertChanges_changes sync.target sync.ts store.indexChange
    (changes (store.snapshot sync.target) sync.new)
  have entries : (syncIndexes store sync).2.map (fun row => row.2.change) =
      changes (store.snapshot sync.target) sync.new := by
    have both := congrArg (List.map IndexChange.change) recorded
    simpa [syncIndexes, seeded, Function.comp_def] using both
  constructor
  · intro row member
    have inside := List.mem_map_of_mem (f := Prod.snd) member
    simp only [syncIndexes, seeded, if_true, recorded] at inside
    obtain ⟨_, _, same⟩ := List.mem_map.mp inside
    rw [← same]
    exact ⟨rfl, rfl⟩
  · intro entry
    rw [entries, mem_changes]
  · rw [entries]
    exact changes_nodup _ _

/-- The rows so far lead from the first snapshot of a target to the one that is stored. -/
structure Replays (target : String) (start : Dict IndexKey String) (store : Store) (trace : List (Nat × IndexChange)) :
    Prop where
  seeded : store.seeded target = true
  leads : ∀ key, (replay start (changesOf target trace)).lookup key = (store.snapshot target).lookup key

theorem Replays.step {target : String} {start : Dict IndexKey String} {store : Store}
    {trace : List (Nat × IndexChange)} (replays : Replays target start store trace) (sync : Sync) :
    Replays target start (syncIndexes store sync).1 (trace ++ (syncIndexes store sync).2) where
  seeded := by simp [seeded_syncIndexes, replays.seeded]
  leads := by
    intro key
    rw [changesOf_append, changesOf_syncIndexes, snapshot_syncIndexes, replay_append]
    by_cases same : sync.target = target
    · subst same
      simp only [replays.seeded, and_self, if_true]
      exact replay_changes _ _ replays.leads key
    · simp only [same, Ne.symm same, false_and, if_false]
      exact replays.leads key

theorem exec_rows (store : Store) (calls : List Sync) :
    (exec syncIndexes store calls).1.indexChange.rows =
      store.indexChange.rows ++ (exec syncIndexes store calls).2 := by
  apply exec_invariant (fun (s : Store) trace => s.indexChange.rows = store.indexChange.rows ++ trace) (fun _ _ => True)
  · intro s trace sync _ rows
    rw [← List.append_assoc, ← rows]
    exact insertChanges_rows _ _ _ _
  · exact everyStep_trivial _ _
  · simp

theorem exec_replays {store : Store} {target : String} (seeded : store.seeded target = true) (calls : List Sync) :
    Replays target (store.snapshot target) (exec syncIndexes store calls).1 (exec syncIndexes store calls).2 := by
  apply exec_invariant (Replays target (store.snapshot target)) (fun _ _ => True)
  · intro s trace sync _ replays
    exact replays.step sync
  · exact everyStep_trivial _ _
  · exact ⟨seeded, fun _ => rfl⟩

/-- Whatever a store holds and whatever the calls find: the rows of `index_change` since a target's first snapshot, applied
in order, make its first snapshot its current one, and each difference of two snapshots is recorded once. -/
theorem index_history_replays (store : Store) (first : Sync) (calls : List Sync) :
    let begun := (syncIndexes store first).1
    let final := exec syncIndexes begun calls
    (∀ key, (begun.snapshot first.target).lookup key = first.new.lookup key) ∧
      (store.seeded first.target = false → begun.indexChange.rows = store.indexChange.rows) ∧
      final.1.indexChange.rows = begun.indexChange.rows ++ final.2 ∧
      (∀ key, (replay (begun.snapshot first.target) (changesOf first.target final.2)).lookup key =
        (final.1.snapshot first.target).lookup key) ∧
      ∀ before sync after, calls = before ++ sync :: after → sync.target = first.target →
        let middle := exec syncIndexes begun before
        final.2 = middle.2 ++ (syncIndexes middle.1 sync).2 ++ (exec syncIndexes (syncIndexes middle.1 sync).1 after).2 ∧
        RecordedOnce (middle.1.snapshot first.target) sync.new sync (syncIndexes middle.1 sync).2 := by
  intro begun final
  have seeded : begun.seeded first.target = true := by simp [begun, seeded_syncIndexes]
  refine ⟨?_, ?_, exec_rows begun calls, (exec_replays seeded calls).leads, ?_⟩
  · intro key
    simp [begun, snapshot_syncIndexes]
  · intro unseeded
    simp [begun, syncIndexes, unseeded, insertChanges]
  · rintro before sync after rfl same middle
    constructor
    · simp only [final, middle, exec_append, exec_cons, List.append_assoc]
    · have seen := (exec_replays seeded before).seeded
      rw [← same] at seen ⊢
      exact syncIndexes_recorded seen

/-- An index that is dropped, built anew with another definition and changed once more. -/
def rebuilt : List Sync :=
  let index (definition : String) : IndexRow := ⟨⟨"public", "events", "events_kind"⟩, definition⟩
  [⟨"db", [], 2⟩, ⟨"other", [index "(at)"], 3⟩, ⟨"db", [index "(kind)"], 4⟩, ⟨"db", [index "(kind, at)"], 5⟩]

theorem index_history_replays_rebuilt :
    let first : Sync := ⟨"db", [⟨⟨"public", "events", "events_kind"⟩, "(at)"⟩], 1⟩
    let begun := (syncIndexes Store.empty first).1
    begun.indexChange.rows = [] ∧
      RecordedOnce ((exec syncIndexes begun (rebuilt.take 3)).1.snapshot "db") (rebuilt.getD 3 first).new
        (rebuilt.getD 3 first) (syncIndexes (exec syncIndexes begun (rebuilt.take 3)).1 (rebuilt.getD 3 first)).2 :=
  let law := index_history_replays Store.empty ⟨"db", [⟨⟨"public", "events", "events_kind"⟩, "(at)"⟩], 1⟩ rebuilt
  ⟨law.2.1 rfl, (law.2.2.2.2 (rebuilt.take 3) (rebuilt.getD 3 ⟨"", [], 0⟩) [] rfl rfl).2⟩

end Rdst.Monitor.IndexHistory
