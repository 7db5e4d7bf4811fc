import Rdst.Library.Targets

namespace Rdst.Library.Assessments

open Assoc RowTable Machine

/-- What changes the assessments of targets or their projection. A completion comes with the mask of its result. -/
inductive Act
  | observe (identityId : Nat) (target : String)
  | prepare (target targetIdentity : String) (limit : Int) (at_ : ℚ) (eligibleKeys : Option (List String))
  | work (call : Call)
  | delete (target : String)
  | rename (old new : String)

/-- The call with the mask that the worker computes from the result. -/
def Call.masked (findingMask : String → Int) : Call → Call
  | .complete id generation owner outcome at_ =>
    .complete id generation owner { outcome with findingMask := findingMask outcome.result } at_
  | other => other

def Act.apply (findingMask : String → Int) (s : Store) (act : Act) : Store :=
  match act with
  | .observe identityId target => Assessments.observe s identityId target
  | .prepare target targetIdentity limit at_ eligibleKeys => prepareAssessments s target targetIdentity limit at_ eligibleKeys
  | .work call => (step s (call.masked findingMask)).1
  | .delete target => deleteTargetAssessments s target
  | .rename old new => renameTarget s old new

/-- The complete assessment of a query of a target under an identity. -/
def Store.Complete (s : Store) (key : Nat × String) (targetIdentity : String) (row : Assessment) : Prop :=
  ∃ id, s.assessments.lookup id = some row ∧ row.isOf key targetIdentity = true ∧ row.status = .complete

/-- What a row of `target_query` ought to show. -/
structure Shows (findingMask : String → Int) (s : Store) (key : Nat × String) (projection : Projection) : Prop where
  complete : ∀ row, s.Complete key projection.rmJevTargetIdentity row →
    projection.rmJevPriority = row.priorityScore.getD (-1) ∧ projection.rmJevFindings = findingMask row.resultJson
  otherwise : (¬ ∃ row, s.Complete key projection.rmJevTargetIdentity row) →
    projection.rmJevPriority = -1 ∧ projection.rmJevFindings = 0

def Projected (findingMask : String → Int) (s : Store) : Prop :=
  ∀ key projection, s.targetQueries.lookup key = some projection → Shows findingMask s key projection

/-- What makes the projection hold: an assessment a query, and the query is one of the target's. -/
structure Sound (findingMask : String → Int) (s : Store) : Prop where
  unique : Distinct s.assessments
  owned : ∀ id row, s.assessments.lookup id = some row → s.targetQueries.lookup (row.identityId, row.targetKey) ≠ none
  projected : Projected findingMask s

/-- What keeps the projection: an identity comes back only where its assessments project nothing, a target whose
    assessments are deleted shows no findings, and what gives no way to a rename shows nothing. -/
def Keeps (findingMask : String → Int) (s : Store) : Act → Prop
  | .prepare target targetIdentity _ _ _ => ∀ key projection row, s.targetQueries.lookup key = some projection →
      key.2 = target → projection.rmJevTargetIdentity ≠ targetIdentity → s.Complete key targetIdentity row →
        row.priorityScore.getD (-1) = -1 ∧ findingMask row.resultJson = 0
  | .delete target => ∀ key projection, s.targetQueries.lookup key = some projection → key.2 = target →
      projection.rmJevFindings = 0
  | .rename old new => ∀ identityId projection, s.targetQueries.lookup (identityId, new) = some projection →
      s.targetQueries.lookup (identityId, old) = none → projection.rmJevPriority = -1 ∧ projection.rmJevFindings = 0
  | _ => True

section Steps

variable {findingMask : String → Int} {s s' : Store}

theorem Shows.congr {key : Nat × String} {projection : Projection} (shows_ : Shows findingMask s key projection)
    (same : ∀ row, s'.Complete key projection.rmJevTargetIdentity row ↔ s.Complete key projection.rmJevTargetIdentity row) :
    Shows findingMask s' key projection :=
  ⟨fun row complete => shows_.complete row ((same row).mp complete),
    fun none_ => shows_.otherwise fun ⟨row, complete⟩ => none_ ⟨row, (same row).mpr complete⟩⟩

theorem Sound.observe (sound : Sound findingMask s) (identityId : Nat) (target : String) :
    Sound findingMask (Assessments.observe s identityId target) := by
  unfold Assessments.observe
  cases found : s.targetQueries.lookup (identityId, target) with
  | some projection => exact sound
  | none =>
    refine ⟨sound.unique, ?_, ?_⟩
    · intro id row there
      rw [insert_lookup]
      split
      · exact Option.some_ne_none _
      · exact sound.owned id row there
    · intro key projection there
      rw [insert_lookup] at there
      split at there
      · rename_i same
        subst same
        cases there
        refine ⟨?_, fun _ => ⟨rfl, rfl⟩⟩
        rintro row ⟨id, there, of, -⟩
        obtain ⟨same, same', -⟩ := isOf_iff.mp of
        have owned := sound.owned id row there
        rw [same, same'] at owned
        exact absurd found owned
      · exact (sound.projected key projection there).congr fun row => Iff.rfl

/-- Assessments change, but none is completed and a complete one stays. -/
def Untold (row row' : Assessment) : Prop :=
  row'.identityId = row.identityId ∧ row'.targetKey = row.targetKey ∧ row'.targetIdentity = row.targetIdentity ∧
    (row.status = .complete ∨ row'.status = .complete → row' = row)

theorem Untold.refl (row : Assessment) : Untold row row := ⟨rfl, rfl, rfl, fun _ => rfl⟩

theorem Sound.untold (sound : Sound findingMask s) (rows : s'.targetQueries = s.targetQueries)
    (change : ∃ f : Nat → Assessment → Assessment, (∀ id, s'.assessments.lookup id = (s.assessments.lookup id).map (f id)) ∧
      ∀ id row, s.assessments.lookup id = some row → Untold row (f id row)) : Sound findingMask s' := by
  obtain ⟨f, lookups, untold⟩ := change
  have back : ∀ {id row'}, s'.assessments.lookup id = some row' →
      ∃ row, s.assessments.lookup id = some row ∧ Untold row row' := by
    intro id row' found
    rw [lookups, Option.map_eq_some_iff] at found
    obtain ⟨row, there, rfl⟩ := found
    exact ⟨row, there, untold id row there⟩
  refine ⟨?_, ?_, ?_⟩
  · intro id id' row row' found found' of
    obtain ⟨old, there, one, two, three, -⟩ := back found
    obtain ⟨old', there', one', two', three', -⟩ := back found'
    apply sound.unique id id' old old' there there'
    rw [isOf_iff] at of ⊢
    rw [← one, ← two, ← three, ← one', ← two', ← three']
    exact of
  · intro id row found
    obtain ⟨old, there, one, two, -⟩ := back found
    rw [rows, one, two]
    exact sound.owned id old there
  · intro key projection found
    rw [rows] at found
    apply (sound.projected key projection found).congr
    intro row
    constructor
    · rintro ⟨id, there, of, complete⟩
      obtain ⟨old, before, -, -, -, same⟩ := back there
      have equal := same (.inr complete)
      rw [equal] at of complete ⊢
      exact ⟨id, before, of, complete⟩
    · rintro ⟨id, there, of, complete⟩
      have equal := (untold id row there).2.2.2 (.inl complete)
      refine ⟨id, ?_, of, complete⟩
      rw [lookups, there, Option.map_some, equal]

theorem Sound.updateWhere (sound : Sound findingMask s) {test : Nat → Assessment → Bool} {change : Assessment → Assessment}
    (untold : ∀ id row, test id row = true → Untold row (change row)) : Sound findingMask (s.updateWhere test change) := by
  apply @Sound.untold _ s (s.updateWhere test change) sound rfl
  refine ⟨fun id row => if test id row = true then change row else row, lookup_updateWhere s test change, ?_⟩
  intro id row _
  show Untold row (if test id row = true then change row else row)
  split
  · rename_i passes
    exact untold id row passes
  · exact Untold.refl row

theorem Sound.claim (sound : Sound findingMask s) (target targetIdentity owner requestId : String) (leaseSeconds at_ : ℚ)
    (preferNew : Bool) (eligibleKeys : Option (List String)) :
    Sound findingMask (claimAssessment s target targetIdentity owner requestId leaseSeconds preferNew at_ eligibleKeys).1 := by
  unfold claimAssessment
  split
  · exact sound
  · simp only
    split
    · apply sound.updateWhere
      intro id row passes
      refine ⟨rfl, rfl, rfl, ?_⟩
      rintro (complete | complete)
      · simp [complete] at passes
      · cases complete
    · exact sound

theorem project_lookup (s : Store) (row : Assessment) (outcome : Outcome) (key : Nat × String) :
    (s.project row outcome).targetQueries.lookup key = (s.targetQueries.lookup key).map fun projection =>
      if key = (row.identityId, row.targetKey) ∧ projection.rmJevTargetIdentity = row.targetIdentity then
        ⟨outcome.priorityScore.getD (-1), outcome.findingMask, row.targetIdentity⟩
      else projection := by
  have idle (differs : ∀ projection, s.targetQueries.lookup key = some projection →
      ¬ (key = (row.identityId, row.targetKey) ∧ projection.rmJevTargetIdentity = row.targetIdentity)) :
      s.targetQueries.lookup key = (s.targetQueries.lookup key).map fun projection =>
        if key = (row.identityId, row.targetKey) ∧ projection.rmJevTargetIdentity = row.targetIdentity then
          ⟨outcome.priorityScore.getD (-1), outcome.findingMask, row.targetIdentity⟩
        else projection := by
    cases found : s.targetQueries.lookup key with
    | none => rfl
    | some projection => rw [Option.map_some, if_neg (differs projection found)]
  unfold Store.project
  cases found : s.targetQueries.lookup (row.identityId, row.targetKey) with
  | none =>
    apply idle
    rintro projection there ⟨rfl, -⟩
    rw [found] at there
    cases there
  | some projection =>
    simp only
    split
    · rename_i same
      rw [insert_lookup]
      by_cases own : key = (row.identityId, row.targetKey)
      · subst own
        simp [found, same]
      · rw [if_neg own]
        exact idle fun _ _ both => own both.1
    · rename_i differs
      apply idle
      rintro other there ⟨rfl, same⟩
      rw [found] at there
      cases there
      exact differs same

theorem Sound.complete (sound : Sound findingMask s) (id generation : Nat) (owner : String) (outcome : Outcome) (at_ : ℚ)
    (masked : outcome.findingMask = findingMask outcome.result) :
    Sound findingMask (completeAssessment s id generation owner outcome at_).1 := by
  unfold completeAssessment
  cases found : s.assessments.rows.find? fun row => heldBy id generation owner row.1 row.2 with
  | none => exact sound
  | some here =>
    obtain ⟨other, row⟩ := here
    obtain ⟨same, there, old, there', -, -, running⟩ := held_of_find found
    simp only at there same
    cases same
    rw [there] at there'
    cases there'
    simp only
    generalize final : (s.updateWhere (fun other _ => decide (other = id)) fun found => found.completed outcome at_).project
      row outcome = s'
    have lookups (other : Nat) : s'.assessments.lookup other =
        (s.assessments.lookup other).map fun row => if other = id then row.completed outcome at_ else row := by
      rw [← final, project_assessments, lookup_updateWhere]
      simp only [decide_eq_true_iff]
    have queries (key : Nat × String) : s'.targetQueries.lookup key = (s.targetQueries.lookup key).map fun projection =>
        if key = (row.identityId, row.targetKey) ∧ projection.rmJevTargetIdentity = row.targetIdentity then
          ⟨outcome.priorityScore.getD (-1), outcome.findingMask, row.targetIdentity⟩
        else projection := by
      rw [← final, project_lookup]
      rfl
    have back {other : Nat} {row' : Assessment} (found : s'.assessments.lookup other = some row') :
        ∃ before, s.assessments.lookup other = some before ∧ before.identityId = row'.identityId ∧
          before.targetKey = row'.targetKey ∧ before.targetIdentity = row'.targetIdentity := by
      rw [lookups, Option.map_eq_some_iff] at found
      obtain ⟨before, here, rfl⟩ := found
      exact ⟨before, here, by split <;> rfl, by split <;> rfl, by split <;> rfl⟩
    -- the only complete assessment that is new is the one held
    have told (key : Nat × String) (targetIdentity : String) (found : Assessment) :
        s'.Complete key targetIdentity found ↔
          (found = row.completed outcome at_ ∧ row.isOf key targetIdentity = true) ∨ s.Complete key targetIdentity found := by
      constructor
      · rintro ⟨other, here, of, complete⟩
        rw [lookups, Option.map_eq_some_iff] at here
        obtain ⟨before, here, rfl⟩ := here
        by_cases own : other = id
        · subst own
          rw [there] at here
          cases here
          rw [if_pos rfl] at of ⊢
          exact .inl ⟨rfl, of⟩
        · rw [if_neg own] at of complete ⊢
          exact .inr ⟨other, here, of, complete⟩
      · rintro (⟨rfl, of⟩ | ⟨other, here, of, complete⟩)
        · exact ⟨id, by rw [lookups, there, Option.map_some, if_pos rfl], of, rfl⟩
        · refine ⟨other, ?_, of, complete⟩
          rw [lookups, here, Option.map_some, if_neg]
          rintro rfl
          rw [there] at here
          cases here
          rw [running] at complete
          cases complete
    refine ⟨?_, ?_, ?_⟩
    · intro one two first second found found' of
      obtain ⟨a, here, a1, a2, a3⟩ := back found
      obtain ⟨b, here', b1, b2, b3⟩ := back found'
      apply sound.unique one two a b here here'
      rw [isOf_iff] at of ⊢
      rw [a1, a2, a3, b1, b2, b3]
      exact of
    · intro other found there
      obtain ⟨a, here, a1, a2, -⟩ := back there
      rw [queries, ← a1, ← a2]
      simpa using sound.owned other a here
    · intro key shown there
      rw [queries, Option.map_eq_some_iff] at there
      obtain ⟨projection, there, rfl⟩ := there
      by_cases own : key = (row.identityId, row.targetKey) ∧ projection.rmJevTargetIdentity = row.targetIdentity
      · rw [if_pos own]
        obtain ⟨rfl, -⟩ := own
        have of : row.isOf (row.identityId, row.targetKey) row.targetIdentity = true := isOf_iff.mpr ⟨rfl, rfl, rfl⟩
        constructor
        · intro found complete
          rcases (told _ _ found).mp complete with ⟨rfl, -⟩ | ⟨other, here, of', complete⟩
          · exact ⟨rfl, masked⟩
          · obtain rfl := sound.unique other id found row here (by assumption) of'
            have clash := here.symm.trans (by assumption : s.assessments.lookup other = some row)
            cases clash
            rw [running] at complete
            cases complete
        · intro none_
          exact absurd ⟨_, (told _ _ _).mpr (.inl ⟨rfl, of⟩)⟩ none_
      · rw [if_neg own]
        apply (sound.projected key projection there).congr
        intro found
        rw [told]
        refine or_iff_right ?_
        rintro ⟨-, of⟩
        obtain ⟨one, two, three⟩ := isOf_iff.mp of
        exact own ⟨Prod.ext one.symm two.symm, three.symm⟩

theorem Sound.work (sound : Sound findingMask s) (call : Call) : Sound findingMask (step s (call.masked findingMask)).1 := by
  cases call with
  | recoverExpired at_ =>
    apply sound.updateWhere
    intro id row passes
    refine ⟨rfl, rfl, rfl, ?_⟩
    rintro (complete | complete)
    · simp [complete] at passes
    · cases complete
  | setTargetState target targetIdentity status errorCode at_ =>
    show Sound findingMask (setTargetAssessmentState s target targetIdentity status errorCode at_)
    unfold setTargetAssessmentState
    split
    · exact sound
    · rename_i allowed
      apply sound.updateWhere
      intro id row passes
      refine ⟨rfl, rfl, rfl, ?_⟩
      rintro (complete | complete)
      · simp [complete] at passes
      · simp only at complete
        simp [complete, targetStates] at allowed
  | claim target targetIdentity owner requestId leaseSeconds preferNew at_ eligibleKeys =>
    exact sound.claim target targetIdentity owner requestId leaseSeconds at_ preferNew eligibleKeys
  | retry id generation owner errorCode nextAttemptAt status freshRequest at_ =>
    show Sound findingMask (retryAssessment s id generation owner errorCode nextAttemptAt status freshRequest at_).1
    unfold retryAssessment
    split
    · exact sound
    · rename_i allowed
      apply sound.updateWhere
      intro other row passes
      refine ⟨rfl, rfl, rfl, ?_⟩
      rintro (complete | complete)
      · have running := (heldBy_iff.mp passes).2.2.2
        rw [complete] at running
        cases running
      · simp only at complete
        simp [complete, retryStates] at allowed
  | complete id generation owner outcome at_ => exact sound.complete id generation owner _ at_ rfl

theorem Sound.prepare (sound : Sound findingMask s) {target targetIdentity : String} {limit : Int} {at_ : ℚ}
    {eligibleKeys : Option (List String)}
    (keeps : Keeps findingMask s (.prepare target targetIdentity limit at_ eligibleKeys)) :
    Sound findingMask (prepareAssessments s target targetIdentity limit at_ eligibleKeys) := by
  obtain ⟨stays, fresh⟩ := @prepare_cases target targetIdentity at_ (s.toPrepare target targetIdentity limit eligibleKeys)
    s.assessments
  have told (key : Nat × String) (identity : String) (row : Assessment) :
      (prepareAssessments s target targetIdentity limit at_ eligibleKeys).Complete key identity row ↔
        s.Complete key identity row := by
    constructor
    · rintro ⟨id, there, of, complete⟩
      rcases fresh id row there with before | ⟨identityId, -, rfl⟩
      · exact ⟨id, before, of, complete⟩
      · cases complete
    · rintro ⟨id, there, of, complete⟩
      exact ⟨id, stays id row there, of, complete⟩
  refine ⟨sound.unique.prepared toPrepare_nodup fun identityId member => (toPrepare_mem member).2, ?_, ?_⟩
  · intro id row there
    show (mapItems _ s.targetQueries).lookup _ ≠ none
    rw [mapItems_lookup]
    rcases fresh id row there with before | ⟨identityId, member, rfl⟩
    · simpa using sound.owned id row before
    · simpa [pendingAssessment] using (toPrepare_mem member).1
  · intro key shown there
    change (mapItems _ s.targetQueries).lookup key = some shown at there
    rw [mapItems_lookup, Option.map_eq_some_iff] at there
    obtain ⟨projection, there, rfl⟩ := there
    split
    · rename_i resets
      constructor
      · intro row complete
        obtain ⟨priority, findings⟩ := keeps key projection row there resets.1 resets.2 ((told _ _ _).mp complete)
        exact ⟨priority.symm, findings.symm⟩
      · exact fun _ => ⟨rfl, rfl⟩
    · exact (sound.projected key projection there).congr fun row => told key _ row

theorem Sound.delete (sound : Sound findingMask s) {target : String} (keeps : Keeps findingMask s (.delete target)) :
    Sound findingMask (deleteTargetAssessments s target) := by
  have lookups (id : Nat) (row : Assessment) : (deleteTargetAssessments s target).assessments.lookup id = some row ↔
      s.assessments.lookup id = some row ∧ row.targetKey ≠ target := by
    show (s.assessments.delete fun _ row => decide (row.targetKey = target)).lookup id = some row ↔ _
    rw [Table.lookup_delete, Option.filter_eq_some_iff]
    simp
  refine ⟨?_, ?_, ?_⟩
  · intro id id' row row' found found' of
    exact sound.unique id id' row row' ((lookups id row).mp found).1 ((lookups id' row').mp found').1 of
  · intro id row there
    show (mapItems _ s.targetQueries).lookup _ ≠ none
    rw [mapItems_lookup]
    simpa using sound.owned id row ((lookups id row).mp there).1
  · intro key shown there
    change (mapItems _ s.targetQueries).lookup key = some shown at there
    rw [mapItems_lookup, Option.map_eq_some_iff] at there
    obtain ⟨projection, there, rfl⟩ := there
    split
    · rename_i under
      constructor
      · rintro row ⟨id, there, of, -⟩
        exact absurd ((isOf_iff.mp of).2.1.trans under) ((lookups id row).mp there).2
      · exact fun _ => ⟨rfl, keeps key projection there under⟩
    · rename_i other
      apply (sound.projected key projection there).congr
      intro row
      constructor
      · rintro ⟨id, there, of, complete⟩
        exact ⟨id, ((lookups id row).mp there).1, of, complete⟩
      · rintro ⟨id, there, of, complete⟩
        refine ⟨id, (lookups id row).mpr ⟨there, fun under => other ?_⟩, of, complete⟩
        exact (isOf_iff.mp of).2.1.symm.trans under

theorem complete_other {old new : String} {key : Nat × String} (old_ : key.2 ≠ old) (new_ : key.2 ≠ new)
    (targetIdentity : String) (row : Assessment) :
    (renameTarget s old new).Complete key targetIdentity row ↔ s.Complete key targetIdentity row := by
  constructor
  · rintro ⟨id, there, of, complete⟩
    obtain ⟨a, before, apart, rfl⟩ := (renamed_assessment s old new id row).mp there
    by_cases under : a.targetKey = old
    · have named := (isOf_iff.mp of).2.1
      rw [renamed_key, if_pos under] at named
      exact absurd named.symm new_
    · have same : a.renamed old new = a := if_neg under
      rw [same] at of complete ⊢
      exact ⟨id, before, of, complete⟩
  · rintro ⟨id, there, of, complete⟩
    have named := (isOf_iff.mp of).2.1
    refine ⟨id, (renamed_assessment s old new id row).mpr ⟨row, there, ?_, if_neg ?_⟩, of, complete⟩
    · exact fun under => new_ (named.symm.trans under)
    · exact fun under => old_ (named.symm.trans under)

theorem complete_new {old new : String} (differ : old ≠ new) (identityId : Nat) (targetIdentity : String) (row' : Assessment) :
    (renameTarget s old new).Complete (identityId, new) targetIdentity row' ↔
      ∃ row, s.Complete (identityId, old) targetIdentity row ∧ row.renamed old new = row' := by
  constructor
  · rintro ⟨id, there, of, complete⟩
    obtain ⟨a, before, apart, rfl⟩ := (renamed_assessment s old new id row').mp there
    obtain ⟨one, two, three⟩ := isOf_iff.mp of
    by_cases under : a.targetKey = old
    · simp only [renamed_rest] at one three complete
      exact ⟨a, ⟨id, before, isOf_iff.mpr ⟨one, under, three⟩, complete⟩, rfl⟩
    · rw [renamed_key, if_neg under] at two
      exact absurd two apart
  · rintro ⟨row, ⟨id, there, of, complete⟩, rfl⟩
    obtain ⟨one, two, three⟩ := isOf_iff.mp of
    refine ⟨id, (renamed_assessment s old new id _).mpr ⟨row, there, fun under => differ (two.symm.trans under), rfl⟩, ?_, ?_⟩
    · rw [isOf_iff, renamed_key, if_pos two]
      simp only [renamed_rest]
      exact ⟨one, trivial, three⟩
    · simp only [renamed_rest, complete]

theorem Sound.rename (sound : Sound findingMask s) {old new : String} (keeps : Keeps findingMask s (.rename old new)) :
    Sound findingMask (renameTarget s old new) := by
  have rows (identityId : Nat) (target : String) : (renameTarget s old new).targetQueries.lookup (identityId, target) =
      (renameTargetQueries old new s.targetQueries).lookup (identityId, target) := rfl
  refine ⟨?_, ?_, ?_⟩
  · intro id id' row row' found found' of
    obtain ⟨a, there, apart, rfl⟩ := (renamed_assessment s old new id row).mp found
    obtain ⟨b, there', apart', rfl⟩ := (renamed_assessment s old new id' row').mp found'
    apply sound.unique id id' a b there there'
    rw [isOf_iff] at of ⊢
    simp only [renamed_key, renamed_rest] at of
    refine ⟨of.1, ?_, of.2.2⟩
    have same := of.2.1
    split at same <;> split at same
    · rename_i one two
      exact one.trans two.symm
    · exact absurd same.symm apart'
    · exact absurd same apart
    · exact same
  · intro id row found
    obtain ⟨a, there, apart, rfl⟩ := (renamed_assessment s old new id row).mp found
    have owned := sound.owned id a there
    rw [rows, renamed_key, (renamed_rest a).1]
    by_cases under : a.targetKey = old
    · rw [under] at owned
      rw [if_pos under, renamed_new (fun same => apart (under.trans same))]
      simpa using fun none_ => absurd none_ owned
    · rwa [if_neg under, renamed_other _ under apart]
  · rintro ⟨identityId, target⟩ projection found
    rw [rows] at found
    by_cases fresh : target = new
    · subst fresh
      have differ : old ≠ target := by
        rintro rfl
        rw [renamed_self] at found
        cases found
      rw [renamed_new differ] at found
      cases before : s.targetQueries.lookup (identityId, old) with
      | some moved =>
        rw [before] at found
        cases found
        have shows_ := sound.projected _ _ before
        constructor
        · intro row complete
          obtain ⟨a, done, rfl⟩ := (complete_new differ identityId _ row).mp complete
          simp only [renamed_rest]
          exact shows_.complete a done
        · intro none_
          apply shows_.otherwise
          rintro ⟨row, complete⟩
          exact none_ ⟨_, (complete_new differ identityId _ _).mpr ⟨row, complete, rfl⟩⟩
      | none =>
        rw [before] at found
        constructor
        · intro row complete
          obtain ⟨a, ⟨id, there, of, -⟩, -⟩ := (complete_new differ identityId _ row).mp complete
          have owned := sound.owned id a there
          rw [(isOf_iff.mp of).1, (isOf_iff.mp of).2.1] at owned
          exact absurd before owned
        · exact fun _ => keeps identityId projection found before
    · by_cases stale : target = old
      · subst stale
        rw [renamed_old fresh] at found
        cases found
      · rw [renamed_other _ stale fresh] at found
        exact (sound.projected _ projection found).congr fun row => complete_other stale fresh _ row

theorem Sound.step (sound : Sound findingMask s) (act : Act) (keeps : Keeps findingMask s act) :
    Sound findingMask (act.apply findingMask s) := by
  cases act with
  | observe identityId target => exact sound.observe identityId target
  | prepare target targetIdentity limit at_ eligibleKeys => exact sound.prepare keeps
  | work call => exact sound.work call
  | delete target => exact sound.delete keeps
  | rename old new => exact sound.rename keeps

end Steps

section Runs

variable (findingMask : String → Int)

/-- A store of which no assessment has been asked. -/
structure Fresh (s : Store) : Prop where
  unasked : s.assessments.rows = []
  blank : ∀ key projection, s.targetQueries.lookup key = some projection →
    projection.rmJevPriority = -1 ∧ projection.rmJevFindings = 0

theorem Fresh.sound {s : Store} (fresh : Fresh s) : Sound findingMask s := by
  have nothing (id : Nat) (row : Assessment) : s.assessments.lookup id ≠ some row := by
    intro found
    have member := s.assessments.mem_rows_iff.mpr found
    rw [fresh.unasked] at member
    cases member
  refine ⟨fun id _ row _ found => absurd found (nothing id row), fun id row found => absurd found (nothing id row), ?_⟩
  intro key projection found
  exact ⟨fun row ⟨id, there, _⟩ => absurd there (nothing id row), fun _ => fresh.blank key projection found⟩

/-- In every state of a run whose steps keep the projection, every row of `target_query` shows the complete
    assessment of its query under the row's identity, and nothing where there is none. -/
theorem projection_kept (s : Store) (fresh : Fresh s) (acts : List Act)
    (meets : EveryTurn (Act.apply findingMask) (Keeps findingMask) s acts) (front back : List Act)
    (split : acts = front ++ back) : Projected findingMask (front.foldl (Act.apply findingMask) s) := by
  subst split
  have early := (everyTurn_append.mp meets).1
  have sound : Sound findingMask (front.foldl (Act.apply findingMask) s) :=
    foldl_invariant (Sound findingMask) (fun s act _ keeps sound => sound.step act keeps) early (fresh.sound findingMask)
  exact sound.projected

/-- A library with one query, which no target has yet. -/
def oneQuery : Store := ⟨Table.empty, ∅, (∅ : Dict Nat Identity).insert 1 ⟨"a1", "SELECT a FROM t", ""⟩⟩

def urgent : Outcome where
  result := "\x7b\"findings\":[\x7b\"id\":\"index_coverage\"\x7d]\x7d"
  priorityScore := some 70
  band := "high"
  confidence := 1
  findingMask := 2
  model := "jev"
  rubricVersion := "1"
  inputFingerprint := ""
  schemaFingerprint := ""
  schemaCollectedAt := ""
  schemaCoverage := ""
  assessedAt := ""

/-- A query of a target is assessed. -/
def assessed : List Act :=
  [.observe 1 "shop", .prepare "shop" "first" 200 0 none, .work (.claim "shop" "first" "worker" "r" 120 true 0 none),
    .work (.complete 1 1 "worker" urgent 1)]

def maskOf (result : String) : Int := if result = urgent.result then 2 else 0

theorem projection_kept_urgent : Projected maskOf (assessed.foldl (Act.apply maskOf) oneQuery) := by
  have fresh : Fresh oneQuery := ⟨rfl, fun key projection found => nomatch found⟩
  have unasked : Keeps maskOf (Act.apply maskOf oneQuery (.observe 1 "shop")) (.prepare "shop" "first" 200 0 none) :=
    fun _ _ _ _ _ _ ⟨_, there, _⟩ => nomatch there
  exact projection_kept maskOf oneQuery fresh assessed ⟨True.intro, unasked, True.intro, True.intro, True.intro⟩ assessed []
    (by simp)

def returned : List Act := assessed ++ [.prepare "shop" "second" 200 2 none, .prepare "shop" "first" 200 3 none]

/-- The database behind a target is another one for a while: the assessment is current again, but shown no more. -/
theorem returning_identity_lost :
    ¬ ∀ acts : List Act, Projected maskOf (acts.foldl (Act.apply maskOf) oneQuery) := by
  intro all
  have shown := all returned (1, "shop") ⟨-1, 0, "first"⟩ (by decide +kernel)
  have current : ∃ row, (returned.foldl (Act.apply maskOf) oneQuery).assessments.lookup 1 = some row ∧
      row.isOf (1, "shop") "first" = true ∧ row.status = .complete ∧ row.priorityScore = some (70 : Int) := by
    refine ⟨_, rfl, ?_⟩
    decide +kernel
  obtain ⟨row, there, of, complete, score⟩ := current
  have priority := (shown.complete row ⟨1, there, of, complete⟩).1
  rw [score] at priority
  exact absurd priority (by decide)

end Runs

end Rdst.Library.Assessments
