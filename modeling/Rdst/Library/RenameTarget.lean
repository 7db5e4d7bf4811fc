import Rdst.Library.Targets

namespace Rdst.Library.Assessments

open Assoc RowTable

/-- A field of a stored body: a text, or anything else in its encoded form. -/
inductive Value
  | text (text : String)
  | encoded (encoded : String)
deriving DecidableEq

/-- What `_decode_analysis_payload` makes of a stored body: the fields of an object, or nothing. -/
inductive Payload
  | object (fields : Dict String Value)
  | unreadable (text : String)

/-- A row of `query_analysis`. -/
structure Analysis where
  queryHash : String
  analysisId : String
  createdAt : String
  target : String
  payload : Payload

/-- The columns of `query_identity` that name a target. -/
structure Named where
  lastTarget : String
  askTarget : String
  lastCacheTarget : String

variable {Query Snapshot : Type}

/-- The tables that a rename touches. A snapshot is kept by target, identity of the target and hash of its tables. -/
structure Tables (Query Snapshot : Type) where
  targetQueries : Dict (Nat × String) Query
  assessments : Table Assessment
  snapshots : Dict (String × String × String) Snapshot
  analyses : Table Analysis
  identities : Dict Nat Named

def Payload.retargeted (new : String) : Payload → Payload
  | .object fields => if fields.entries = [] then .object fields else .object (fields.insert "target" (.text new))
  | .unreadable text => .unreadable text

def Analysis.retargeted (new : String) (row : Analysis) : Analysis :=
  { row with target := new, payload := row.payload.retargeted new }

def Named.renamed (old new : String) (row : Named) : Named where
  lastTarget := if row.lastTarget = old then new else row.lastTarget
  askTarget := if row.askTarget = old then new else row.askTarget
  lastCacheTarget := if row.lastCacheTarget = old then new else row.lastCacheTarget

def ofTarget (target : String) (key : String × String × String) : Bool := decide (key.1 = target)

/-- The snapshots after a rename: those under the new name are deleted first. -/
def renameSnapshots (old new : String) (rows : Dict (String × String × String) Snapshot) :
    Dict (String × String × String) Snapshot :=
  moveKeys (ofTarget old) (fun key => (new, key.2)) (keepKeys (fun key => !ofTarget new key) rows)

/-- `rename_target`, its statements in one transaction. -/
def Tables.renameTarget (t : Tables Query Snapshot) (old new : String) : Tables Query Snapshot where
  targetQueries := renameTargetQueries old new t.targetQueries
  assessments := (t.assessments.delete fun _ row => decide (row.targetKey = new)).update fun _ row => row.renamed old new
  snapshots := renameSnapshots old new t.snapshots
  analyses := t.analyses.update fun _ row => if row.target = old then row.retargeted new else row
  identities := mapItems (fun _ row => row.renamed old new) t.identities

/-- The rows of the old name are those of the new one, and no others are. -/
structure Moved (old new : String) (t t' : Tables Query Snapshot) : Prop where
  queries : ∀ identityId, t'.targetQueries.lookup (identityId, new) = t.targetQueries.lookup (identityId, old)
  assessments : ∀ id row', (t'.assessments.lookup id = some row' ∧ row'.targetKey = new) ↔
    ∃ row, t.assessments.lookup id = some row ∧ row.targetKey = old ∧ row' = { row with targetKey := new }
  snapshots : ∀ kept, t'.snapshots.lookup (new, kept) = t.snapshots.lookup (old, kept)
  analyses : ∀ id row', (t'.analyses.lookup id = some row' ∧ row'.target = new) ↔
    ∃ row, t.analyses.lookup id = some row ∧ row.target = old ∧ row' = row.retargeted new

/-- No table has a row of a target. -/
structure Empty (target : String) (t : Tables Query Snapshot) : Prop where
  queries : ∀ identityId, t.targetQueries.lookup (identityId, target) = none
  assessments : ∀ id row, t.assessments.lookup id = some row → row.targetKey ≠ target
  snapshots : ∀ kept, t.snapshots.lookup (target, kept) = none
  analyses : ∀ id row, t.analyses.lookup id = some row → row.target ≠ target

/-- The rows of a target are the same in both. -/
structure Untouched (target : String) (t t' : Tables Query Snapshot) : Prop where
  queries : ∀ identityId, t'.targetQueries.lookup (identityId, target) = t.targetQueries.lookup (identityId, target)
  assessments : ∀ id row, row.targetKey = target → (t'.assessments.lookup id = some row ↔ t.assessments.lookup id = some row)
  snapshots : ∀ kept, t'.snapshots.lookup (target, kept) = t.snapshots.lookup (target, kept)
  analyses : ∀ id row, row.target = target → (t'.analyses.lookup id = some row ↔ t.analyses.lookup id = some row)

/-- A rename moves one database and nothing else. -/
structure Renames (old new : String) (t t' : Tables Query Snapshot) : Prop where
  moved : Moved old new t t'
  emptied : Empty old t'
  others : ∀ target, target ≠ old → target ≠ new → Untouched target t t'

/-- What stands under the new name before: queries only that give way, no analysis, and nothing where it is the old name. -/
structure Clear (old new : String) (t : Tables Query Snapshot) : Prop where
  queries : ∀ identityId, t.targetQueries.lookup (identityId, new) ≠ none →
    old ≠ new ∧ t.targetQueries.lookup (identityId, old) ≠ none
  analyses : ∀ id row, t.analyses.lookup id = some row → row.target ≠ new
  itself : old = new → Empty new t

section Lookups

variable {old new : String} (t : Tables Query Snapshot)

theorem renamed_analysis (id : Nat) (row' : Analysis) : (t.renameTarget old new).analyses.lookup id = some row' ↔
    ∃ row, t.analyses.lookup id = some row ∧ (if row.target = old then row.retargeted new else row) = row' := by
  show (t.analyses.update _).lookup id = some row' ↔ _
  rw [Table.lookup_update, Option.map_eq_some_iff]

theorem renamed_row (id : Nat) (row' : Assessment) : (t.renameTarget old new).assessments.lookup id = some row' ↔
    ∃ row, t.assessments.lookup id = some row ∧ row.targetKey ≠ new ∧ row.renamed old new = row' :=
  renamed_assessment ⟨t.assessments, ∅, ∅⟩ old new id row'

theorem ofTarget_iff {target : String} {key : String × String × String} : ofTarget target key = true ↔ key.1 = target :=
  decide_eq_true_iff

@[simp] theorem ofTarget_self (target : String) (kept : String × String) : ofTarget target (target, kept) = true :=
  ofTarget_iff.mpr rfl

theorem left_snapshot (kept : String × String) (target : String) :
    (keepKeys (fun key => !ofTarget new key) t.snapshots).lookup (target, kept) =
      if target = new then none else t.snapshots.lookup (target, kept) := by
  rw [keepKeys_lookup]
  by_cases under : target = new <;> simp [ofTarget, under]

theorem snapshot_new (differ : old ≠ new) (kept : String × String) :
    (t.renameTarget old new).snapshots.lookup (new, kept) = t.snapshots.lookup (old, kept) := by
  show (renameSnapshots old new t.snapshots).lookup (new, kept) = _
  have left : (keepKeys (fun key => !ofTarget new key) t.snapshots).lookup (old, kept) = t.snapshots.lookup (old, kept) := by
    rw [left_snapshot, if_neg differ]
  cases found : t.snapshots.lookup (old, kept) with
  | some row =>
    apply @moveKeys_lookup _ _ _ _ (fun key : String × String × String => (new, key.2)) _ _ (old, kept) (ofTarget_self old kept)
    · rw [left, found]
    · intro a b first second same
      exact Prod.ext ((ofTarget_iff.mp first).trans (ofTarget_iff.mp second).symm) (Prod.ext_iff.mp same).2
  | none =>
    rw [renameSnapshots, moveKeys_lookup_other, if_neg fun moved => differ (ofTarget_iff.mp moved).symm, left_snapshot,
      if_pos rfl]
    rintro ⟨target, kept'⟩ moved present same
    obtain rfl : target = old := ofTarget_iff.mp moved
    obtain rfl : kept' = kept := (Prod.ext_iff.mp same).2
    exact present (left.trans found)

theorem snapshot_other {target : String} (differs : target ≠ new) (kept : String × String) :
    (t.renameTarget old new).snapshots.lookup (target, kept) =
      if target = old then none else t.snapshots.lookup (target, kept) := by
  show (renameSnapshots old new t.snapshots).lookup (target, kept) = _
  rw [renameSnapshots, moveKeys_lookup_other, left_snapshot, if_neg differs]
  · by_cases under : target = old <;> simp [ofTarget, under]
  · intro key _ _ same
    exact differs (Prod.ext_iff.mp same).1.symm

/-- A target renamed to itself loses its snapshots. -/
theorem snapshot_self (target : String) (kept : String × String) :
    (t.renameTarget target target).snapshots.lookup (target, kept) = none := by
  show (renameSnapshots target target t.snapshots).lookup (target, kept) = none
  rw [renameSnapshots, moveKeys_lookup_other, if_pos (ofTarget_self _ _)]
  rintro ⟨name, kept'⟩ moved present same
  obtain rfl : name = target := ofTarget_iff.mp moved
  rw [left_snapshot, if_pos rfl] at present
  exact present rfl

end Lookups

section Rename

variable {old new : String} {t : Tables Query Snapshot}

theorem moved_of_clear (differ : old ≠ new) (clear : Clear old new t) : Moved old new t (t.renameTarget old new) := by
  refine ⟨?_, ?_, ?_, ?_⟩
  · intro identityId
    show (renameTargetQueries old new t.targetQueries).lookup (identityId, new) = _
    rw [renamed_new differ]
    cases found : t.targetQueries.lookup (identityId, old) with
    | some row => rfl
    | none =>
      have nothing : t.targetQueries.lookup (identityId, new) = none := by
        by_contra some_
        exact (clear.queries identityId some_).2 found
      rw [nothing]
      rfl
  · intro id row'
    rw [renamed_row]
    constructor
    · rintro ⟨⟨row, found, apart, rfl⟩, under⟩
      by_cases moves : row.targetKey = old
      · exact ⟨row, found, moves, if_pos moves⟩
      · rw [renamed_key, if_neg moves] at under
        exact absurd under apart
    · rintro ⟨row, found, moves, rfl⟩
      exact ⟨⟨row, found, fun under => differ (moves.symm.trans under), if_pos moves⟩, rfl⟩
  · exact snapshot_new t differ
  · intro id row'
    rw [renamed_analysis]
    constructor
    · rintro ⟨⟨row, found, rfl⟩, under⟩
      by_cases moves : row.target = old
      · exact ⟨row, found, moves, if_pos moves⟩
      · rw [if_neg moves] at under
        exact absurd under (clear.analyses id row found)
    · rintro ⟨row, found, moves, rfl⟩
      exact ⟨⟨row, found, if_pos moves⟩, rfl⟩

theorem emptied (differ : old ≠ new) : Empty old (t.renameTarget old new) := by
  refine ⟨renamed_old differ t.targetQueries, ?_, ?_, ?_⟩
  · intro id row' found
    obtain ⟨row, -, -, rfl⟩ := (renamed_row t id row').mp found
    rw [renamed_key]
    split
    · exact Ne.symm differ
    · assumption
  · intro kept
    rw [snapshot_other t differ, if_pos rfl]
  · intro id row' found
    obtain ⟨row, -, rfl⟩ := (renamed_analysis t id row').mp found
    split
    · exact Ne.symm differ
    · assumption

theorem untouched {target : String} (old_ : target ≠ old) (new_ : target ≠ new) :
    Untouched target t (t.renameTarget old new) := by
  refine ⟨fun identityId => renamed_other t.targetQueries old_ new_, ?_, ?_, ?_⟩
  · intro id row' under
    rw [renamed_row]
    constructor
    · rintro ⟨row, found, -, rfl⟩
      by_cases moves : row.targetKey = old
      · rw [renamed_key, if_pos moves] at under
        exact absurd under.symm new_
      · rwa [Assessment.renamed, if_neg moves]
    · intro found
      exact ⟨row', found, under ▸ new_, if_neg (under ▸ old_)⟩
  · intro kept
    rw [snapshot_other t new_, if_neg old_]
  · intro id row' under
    rw [renamed_analysis]
    constructor
    · rintro ⟨row, found, rfl⟩
      split at under
      · exact absurd under.symm new_
      · rwa [if_neg (by assumption)]
    · intro found
      exact ⟨row', found, if_neg (under ▸ old_)⟩

/-- A name without rows, renamed to itself. -/
theorem renames_itself {name : String} (empty : Empty name t) : Renames name name t (t.renameTarget name name) := by
  have rows (id : Nat) (row : Assessment) : ¬ ((t.renameTarget name name).assessments.lookup id = some row ∧ row.targetKey = name) := by
    rintro ⟨found, under⟩
    obtain ⟨before, -, apart, rfl⟩ := (renamed_row t id row).mp found
    rw [renamed_key] at under
    split at under
    · exact apart (by assumption)
    · exact apart under
  have analyses (id : Nat) (row : Analysis) : ¬ ((t.renameTarget name name).analyses.lookup id = some row ∧ row.target = name) := by
    rintro ⟨found, under⟩
    obtain ⟨before, there, rfl⟩ := (renamed_analysis t id row).mp found
    rw [if_neg (empty.analyses id before there)] at under
    exact empty.analyses id before there under
  refine ⟨⟨?_, ?_, ?_, ?_⟩, ⟨renamed_self name t.targetQueries, ?_, snapshot_self t name, ?_⟩, fun target old_ new_ => untouched old_ new_⟩
  · intro identityId
    rw [empty.queries]
    exact renamed_self name t.targetQueries identityId
  · intro id row'
    refine iff_of_false (rows id row') ?_
    rintro ⟨row, found, under, -⟩
    exact empty.assessments id row found under
  · intro kept
    rw [empty.snapshots]
    exact snapshot_self t name kept
  · intro id row'
    refine iff_of_false (analyses id row') ?_
    rintro ⟨row, found, under, -⟩
    exact empty.analyses id row found under
  · exact fun id row found under => rows id row ⟨found, under⟩
  · exact fun id row found under => analyses id row ⟨found, under⟩

theorem clear_of_renames (renames : Renames old new t (t.renameTarget old new)) : Clear old new t := by
  have gone (identityId : Nat) (same : old = new) : t.targetQueries.lookup (identityId, new) = none := by
    subst same
    rw [← renames.moved.queries]
    exact renamed_self old t.targetQueries identityId
  have analyses (id : Nat) (row : Analysis) (found : t.analyses.lookup id = some row) : row.target ≠ new := by
    intro under
    by_cases moves : row.target = old
    · have after : (t.renameTarget old new).analyses.lookup id = some (row.retargeted new) :=
        (renamed_analysis t id _).mpr ⟨row, found, if_pos moves⟩
      exact renames.emptied.analyses id _ after (under.symm.trans moves)
    · have after : (t.renameTarget old new).analyses.lookup id = some row :=
        (renamed_analysis t id row).mpr ⟨row, found, if_neg moves⟩
      obtain ⟨other, there, stale, -⟩ := (renames.moved.analyses id row).mp ⟨after, under⟩
      rw [found] at there
      cases there
      exact moves stale
  refine ⟨?_, analyses, ?_⟩
  · intro identityId some_
    have differ : old ≠ new := fun same => some_ (gone identityId same)
    refine ⟨differ, ?_⟩
    intro none_
    have after := renames.moved.queries identityId
    rw [none_] at after
    have before := renamed_new differ t.targetQueries identityId
    rw [none_, Option.none_or] at before
    exact some_ (before.symm.trans after)
  · rintro rfl
    refine ⟨fun identityId => gone identityId rfl, ?_, ?_, analyses⟩
    · intro id row found under
      have after := (renames.moved.assessments id { row with targetKey := old }).mpr ⟨row, found, under, rfl⟩
      exact renames.emptied.assessments id _ after.1 rfl
    · intro kept
      rw [← renames.moved.snapshots]
      exact snapshot_self t old kept

/-- A rename moves exactly the rows of the old name, if nothing of another database stays under the new one. -/
theorem rename_moves_iff (old new : String) (t : Tables Query Snapshot) :
    Renames old new t (t.renameTarget old new) ↔ Clear old new t := by
  refine ⟨clear_of_renames, fun clear => ?_⟩
  by_cases same : old = new
  · subst same
    exact renames_itself (clear.itself rfl)
  · exact ⟨moved_of_clear same clear, emptied same, fun target old_ new_ => untouched old_ new_⟩

/-- A query and an analysis that a removed database left. -/
def leftover : Tables Unit Unit where
  targetQueries := (∅ : Dict (Nat × String) Unit).insert (1, "store") ()
  assessments := Table.empty
  snapshots := ∅
  analyses := Table.empty.insert ⟨"a1", "run", "", "store", .unreadable ""⟩
  identities := ∅

/-- They are the renamed database's from then on. -/
theorem leftover_attributed : ¬ Renames "shop" "store" leftover (leftover.renameTarget "shop" "store") := by
  intro renames
  have stays := renames.moved.queries 1
  exact absurd stays (by decide +kernel)

end Rename

end Rdst.Library.Assessments
