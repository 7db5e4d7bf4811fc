import Rdst.Library.Assessments

namespace Rdst.Library.Assessments

open Assoc RowTable Machine

/-- A row as `prepare_assessments` inserts it. -/
def pendingAssessment (identityId : Nat) (target targetIdentity : String) (at_ : ℚ) : Assessment where
  identityId := identityId
  targetKey := target
  targetIdentity := targetIdentity
  status := .pending
  createdAt := at_
  updatedAt := at_
  nextAttemptAt := 0
  attemptCount := 0
  claimOwner := ""
  claimExpiry := 0
  generation := 0
  requestId := ""
  inputFingerprint := ""
  model := ""
  rubricVersion := ""
  schemaFingerprint := ""
  schemaCollectedAt := ""
  schemaCoverage := ""
  assessedAt := ""
  resultJson := "{}"
  priorityScore := none
  band := ""
  confidence := none
  errorCode := ""
  invalidResponseRetries := 0

/-- The assessment of a query of a target under an identity of that target. -/
def Assessment.isOf (row : Assessment) (key : Nat × String) (targetIdentity : String) : Bool :=
  decide (row.identityId = key.1 ∧ row.targetKey = key.2 ∧ row.targetIdentity = targetIdentity)

/-- Whether a row of `target_query` asks for an assessment. -/
def Store.unassessed (s : Store) (target targetIdentity : String) (eligibleKeys : Option (List String))
    (key : Nat × String) : Bool :=
  decide (key.2 = target) &&
    ((s.identities.lookup key.1).any fun identity => eligibleKeys.all fun keys => decide (identity.hash ∈ keys)) &&
      !s.assessments.rows.any fun row => row.2.isOf key targetIdentity

/-- The queries to insert: newest first, `limit` of them, but one at least. -/
def Store.toPrepare (s : Store) (target targetIdentity : String) (limit : Int) (eligibleKeys : Option (List String)) :
    List Nat :=
  (((s.targetQueries.keys.filter (s.unassessed target targetIdentity eligibleKeys)).map Prod.fst).insertionSort
    fun a b => b ≤ a).take (max 1 limit).toNat

def prepareAssessments (s : Store) (target targetIdentity : String) (limit : Int) (at_ : ℚ)
    (eligibleKeys : Option (List String)) : Store :=
  let reset := fun (key : Nat × String) (projection : Projection) =>
    if key.2 = target ∧ projection.rmJevTargetIdentity ≠ targetIdentity then ⟨-1, 0, targetIdentity⟩ else projection
  { s with
    targetQueries := mapItems reset s.targetQueries
    assessments := (s.toPrepare target targetIdentity limit eligibleKeys).foldl
      (fun table identityId => table.insert (pendingAssessment identityId target targetIdentity at_)) s.assessments }

def deleteTargetAssessments (s : Store) (target : String) : Store :=
  let cleared := fun (key : Nat × String) (projection : Projection) =>
    if key.2 = target then { projection with rmJevPriority := -1, rmJevTargetIdentity := "" } else projection
  { s with
    assessments := s.assessments.delete fun _ row => decide (row.targetKey = target)
    targetQueries := mapItems cleared s.targetQueries }

def onTarget (target : String) (key : Nat × String) : Bool := decide (key.2 = target)

/-- The rows of `target_query` after a rename: a row under the new name gives way where the old one has its query. -/
def renameTargetQueries {Row : Type} (old new : String) (rows : Dict (Nat × String) Row) : Dict (Nat × String) Row :=
  moveKeys (onTarget old) (fun key => (key.1, new))
    (keepKeys (fun key => !(onTarget new key && (rows.lookup (key.1, old)).isSome)) rows)

def Assessment.renamed (old new : String) (row : Assessment) : Assessment :=
  if row.targetKey = old then { row with targetKey := new } else row

/-- What `rename_target` does to the queries of a target and their assessments. -/
def renameTarget (s : Store) (old new : String) : Store :=
  { s with
    targetQueries := renameTargetQueries old new s.targetQueries
    assessments := (s.assessments.delete fun _ row => decide (row.targetKey = new)).update fun _ row =>
      row.renamed old new }

/-- A query that a target has from now on. -/
def observe (s : Store) (identityId : Nat) (target : String) : Store :=
  match s.targetQueries.lookup (identityId, target) with
  | some _ => s
  | none => { s with targetQueries := s.targetQueries.insert (identityId, target) ⟨-1, 0, ""⟩ }

/-- No two rows assess one query of a target under one identity. -/
def Distinct (table : Table Assessment) : Prop :=
  ∀ id id' row row', table.lookup id = some row → table.lookup id' = some row' →
    row.isOf (row'.identityId, row'.targetKey) row'.targetIdentity = true → id = id'

theorem isOf_iff {row : Assessment} {key : Nat × String} {targetIdentity : String} :
    row.isOf key targetIdentity = true ↔ row.identityId = key.1 ∧ row.targetKey = key.2 ∧ row.targetIdentity = targetIdentity :=
  decide_eq_true_iff

section Prepare

variable {s : Store} {target targetIdentity : String} {limit : Int} {eligibleKeys : Option (List String)} {at_ : ℚ}

theorem toPrepare_nodup : (s.toPrepare target targetIdentity limit eligibleKeys).Nodup := by
  refine List.Sublist.nodup (List.take_sublist _ _) ((List.perm_insertionSort _ _).nodup_iff.mpr ?_)
  rw [List.nodup_map_iff_inj_on (s.targetQueries.keys_nodup.filter _)]
  intro a first b second same
  have under : ∀ key ∈ s.targetQueries.keys.filter (s.unassessed target targetIdentity eligibleKeys), key.2 = target := by
    intro key member
    have asks := (List.mem_filter.mp member).2
    simp only [Store.unassessed, Bool.and_eq_true, decide_eq_true_iff] at asks
    exact asks.1.1
  exact Prod.ext same ((under a first).trans (under b second).symm)

theorem toPrepare_mem {identityId : Nat} (member : identityId ∈ s.toPrepare target targetIdentity limit eligibleKeys) :
    s.targetQueries.lookup (identityId, target) ≠ none ∧ ∀ id row, s.assessments.lookup id = some row →
      row.isOf (identityId, target) targetIdentity = false := by
  have sorted := (List.mem_insertionSort _).mp (List.mem_of_mem_take member)
  obtain ⟨⟨id, name⟩, inside, rfl⟩ := List.mem_map.mp sorted
  obtain ⟨present, asks⟩ := List.mem_filter.mp inside
  simp only [Store.unassessed, Bool.and_eq_true, decide_eq_true_iff, Bool.not_eq_true'] at asks
  obtain ⟨⟨rfl, -⟩, none_⟩ := asks
  refine ⟨mem_keys_iff.mp present, ?_⟩
  intro other row found
  have member := s.assessments.mem_rows_iff.mpr found
  simpa using List.any_eq_false.mp none_ (other, row) member

theorem prepare_cases (ids : List Nat) (table : Table Assessment) :
    let after := ids.foldl (fun table identityId =>
      table.insert (pendingAssessment identityId target targetIdentity at_)) table
    (∀ id row, table.lookup id = some row → after.lookup id = some row) ∧
      ∀ id row, after.lookup id = some row → table.lookup id = some row ∨
        ∃ identityId ∈ ids, row = pendingAssessment identityId target targetIdentity at_ := by
  induction ids generalizing table with
  | nil => exact ⟨fun _ _ found => found, fun _ _ found => .inl found⟩
  | cons first rest ih =>
    obtain ⟨stays, fresh⟩ := ih (table.insert (pendingAssessment first target targetIdentity at_))
    constructor
    · intro id row found
      apply stays
      rw [Table.lookup_insert, if_neg]
      · exact found
      · rintro rfl
        rw [Table.lookup_nextId] at found
        cases found
    · intro id row found
      rcases fresh id row found with there | ⟨identityId, later, rfl⟩
      · rw [Table.lookup_insert] at there
        split at there
        · cases there
          exact .inr ⟨first, List.mem_cons_self, rfl⟩
        · exact .inl there
      · exact .inr ⟨identityId, List.mem_cons_of_mem _ later, rfl⟩

theorem Distinct.insert {table : Table Assessment} (distinct : Distinct table) {row : Assessment}
    (fresh : ∀ id old, table.lookup id = some old → old.isOf (row.identityId, row.targetKey) row.targetIdentity = false) :
    Distinct (table.insert row) := by
  intro id id' a b found found' of
  rw [Table.lookup_insert] at found found'
  split at found <;> split at found'
  · rename_i one two
    exact one.trans two.symm
  · cases found
    obtain ⟨one, two, three⟩ := isOf_iff.mp of
    have clash : b.isOf (row.identityId, row.targetKey) row.targetIdentity = true :=
      isOf_iff.mpr ⟨one.symm, two.symm, three.symm⟩
    rw [fresh id' b found'] at clash
    cases clash
  · cases found'
    rw [fresh id a found] at of
    cases of
  · exact distinct id id' a b found found' of

theorem Distinct.prepared {ids : List Nat} (nodup : ids.Nodup) {table : Table Assessment} (distinct : Distinct table)
    (fresh : ∀ identityId ∈ ids, ∀ id row, table.lookup id = some row → row.isOf (identityId, target) targetIdentity = false) :
    Distinct (ids.foldl (fun table identityId => table.insert (pendingAssessment identityId target targetIdentity at_)) table) := by
  induction ids generalizing table with
  | nil => exact distinct
  | cons first rest ih =>
    rw [List.nodup_cons] at nodup
    apply ih nodup.2 (distinct.insert (fresh first List.mem_cons_self))
    intro identityId later id row found
    rw [Table.lookup_insert] at found
    split at found
    · cases found
      rw [Bool.eq_false_iff]
      intro of
      obtain rfl : first = identityId := (isOf_iff.mp of).1
      exact nodup.1 later
    · exact fresh identityId (List.mem_cons_of_mem first later) id row found

end Prepare

section Rename

variable {Row : Type} {rows : Dict (Nat × String) Row} {old new : String}

theorem kept_lookup (old new : String) (rows : Dict (Nat × String) Row) (key : Nat × String) :
    (keepKeys (fun key => !(onTarget new key && (rows.lookup (key.1, old)).isSome)) rows).lookup key =
      if key.2 = new ∧ rows.lookup (key.1, old) ≠ none then none else rows.lookup key := by
  rw [keepKeys_lookup]
  by_cases under : key.2 = new
  · cases rows.lookup (key.1, old) <;> simp [onTarget, under]
  · simp [onTarget, under]

theorem onTarget_iff {target : String} {key : Nat × String} : onTarget target key = true ↔ key.2 = target := decide_eq_true_iff

@[simp] theorem onTarget_self (target : String) (identityId : Nat) : onTarget target (identityId, target) = true :=
  onTarget_iff.mpr rfl

/-- Under the new name stand the rows of the old one, and such rows of the new one as collide with none. -/
theorem renamed_new (differ : old ≠ new) (rows : Dict (Nat × String) Row) (identityId : Nat) :
    (renameTargetQueries old new rows).lookup (identityId, new) =
      (rows.lookup (identityId, old)).or (rows.lookup (identityId, new)) := by
  have under (key : Nat × String) (moved : onTarget old key = true) :
      (keepKeys (fun key => !(onTarget new key && (rows.lookup (key.1, old)).isSome)) rows).lookup key = rows.lookup key := by
    rw [kept_lookup, if_neg]
    rintro ⟨fresh, -⟩
    exact differ ((onTarget_iff.mp moved).symm.trans fresh)
  cases found : rows.lookup (identityId, old) with
  | some row =>
    apply @moveKeys_lookup _ _ _ _ (fun key => (key.1, new)) _ _ _ (onTarget_self old identityId)
    · rw [under _ (onTarget_self old identityId), found]
    · intro a b first second same
      exact Prod.ext (Prod.ext_iff.mp same).1 ((onTarget_iff.mp first).trans (onTarget_iff.mp second).symm)
  | none =>
    rw [renameTargetQueries, moveKeys_lookup_other, if_neg, kept_lookup, if_neg]
    · rfl
    · rintro ⟨-, some_⟩
      exact some_ found
    · rw [onTarget_iff]
      exact Ne.symm differ
    · rintro ⟨id, target⟩ moved present same
      obtain rfl : target = old := onTarget_iff.mp moved
      obtain rfl : id = identityId := (Prod.ext_iff.mp same).1
      exact present ((under _ moved).trans found)

theorem renamed_old (differ : old ≠ new) (rows : Dict (Nat × String) Row) (identityId : Nat) :
    (renameTargetQueries old new rows).lookup (identityId, old) = none := by
  rw [renameTargetQueries, moveKeys_lookup_other, if_pos (onTarget_self _ _)]
  intro key _ _ same
  exact differ (Prod.ext_iff.mp same).2.symm

theorem renamed_other (rows : Dict (Nat × String) Row) {key : Nat × String} (old_ : key.2 ≠ old) (new_ : key.2 ≠ new) :
    (renameTargetQueries old new rows).lookup key = rows.lookup key := by
  rw [renameTargetQueries, moveKeys_lookup_other, if_neg fun moved => old_ (onTarget_iff.mp moved), kept_lookup,
    if_neg fun both => new_ both.1]
  intro other _ _ same
  exact new_ (same ▸ rfl)

/-- A target renamed to itself loses its queries. -/
theorem renamed_self (target : String) (rows : Dict (Nat × String) Row) (identityId : Nat) :
    (renameTargetQueries target target rows).lookup (identityId, target) = none := by
  have gone (id : Nat) :
      (keepKeys (fun key => !(onTarget target key && (rows.lookup (key.1, target)).isSome)) rows).lookup (id, target) = none := by
    rw [kept_lookup]
    cases found : rows.lookup (id, target) <;> simp
  rw [renameTargetQueries, moveKeys_lookup_other, if_pos (onTarget_self _ _)]
  rintro ⟨id, name⟩ moved present same
  obtain rfl : name = target := onTarget_iff.mp moved
  exact present (gone id)

theorem renamed_assessment (s : Store) (old new : String) (id : Nat) (row' : Assessment) :
    (renameTarget s old new).assessments.lookup id = some row' ↔
      ∃ row, s.assessments.lookup id = some row ∧ row.targetKey ≠ new ∧ row.renamed old new = row' := by
  show ((s.assessments.delete _).update _).lookup id = some row' ↔ _
  rw [Table.lookup_update, Table.lookup_delete, Option.map_eq_some_iff]
  simp only [Option.filter_eq_some_iff, Bool.not_eq_true', decide_eq_false_iff_not, and_assoc, ne_eq]

theorem renamed_key (row : Assessment) : (row.renamed old new).targetKey = if row.targetKey = old then new else row.targetKey := by
  unfold Assessment.renamed
  split <;> rfl

theorem renamed_rest (row : Assessment) : (row.renamed old new).identityId = row.identityId ∧
    (row.renamed old new).targetIdentity = row.targetIdentity ∧ (row.renamed old new).status = row.status ∧
      (row.renamed old new).priorityScore = row.priorityScore ∧ (row.renamed old new).resultJson = row.resultJson := by
  unfold Assessment.renamed
  split <;> exact ⟨rfl, rfl, rfl, rfl, rfl⟩

end Rename

end Rdst.Library.Assessments
