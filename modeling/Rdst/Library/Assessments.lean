import Mathlib.Algebra.Order.Ring.Unbundled.Rat
import Mathlib.Data.List.Sort
import Rdst.Lib.Assoc
import Rdst.Lib.RowTable
import Rdst.Lib.Run

namespace Rdst.Library.Assessments

open Assoc RowTable Machine

inductive Status
  | pending
  | waitingConnection
  | waitingSchema
  | waitingAuth
  | retryWait
  | running
  | paused
  | unsupported
  | complete
deriving DecidableEq

/-- A row of `query_assessment`. -/
structure Assessment where
  identityId : Nat
  targetKey : String
  targetIdentity : String
  status : Status
  createdAt : ℚ
  updatedAt : ℚ
  nextAttemptAt : ℚ
  attemptCount : Nat
  claimOwner : String
  claimExpiry : ℚ
  generation : Nat
  requestId : String
  inputFingerprint : String
  model : String
  rubricVersion : String
  schemaFingerprint : String
  schemaCollectedAt : String
  schemaCoverage : String
  assessedAt : String
  resultJson : String
  priorityScore : Option Int
  band : String
  confidence : Option ℚ
  errorCode : String
  invalidResponseRetries : Nat
deriving DecidableEq

/-- What an assessment projects into a row of `target_query`. -/
structure Projection where
  rmJevPriority : Int
  rmJevFindings : Int
  rmJevTargetIdentity : String
deriving DecidableEq

/-- A row of `query_identity`. -/
structure Identity where
  hash : String
  sql : String
  originalSql : String

structure Store where
  assessments : Table Assessment
  /-- By identity and target. -/
  targetQueries : Dict (Nat × String) Projection
  identities : Dict Nat Identity

/-- What a worker holds of an assessment that it claimed. -/
structure Claim where
  id : Nat
  generation : Nat
  requestId : String
  invalidResponseRetries : Nat
  hash : String
  sql : String
  originalSql : String
  target : String
  targetIdentity : String

/-- The text of an error code, cut to 64 characters. -/
def errorText (errorCode : String) : String := String.ofList (errorCode.toList.take 64)

/-- Change the rows that meet a test. -/
def Store.updateWhere (s : Store) (test : Nat → Assessment → Bool) (change : Assessment → Assessment) : Store :=
  { s with assessments := s.assessments.update fun id row => if test id row = true then change row else row }

def recoverExpiredAssessmentClaims (s : Store) (at_ : ℚ) : Store :=
  s.updateWhere (fun _ row => decide (row.status = .running ∧ row.claimExpiry ≤ at_)) fun row =>
    { row with
      status := .retryWait
      claimOwner := ""
      claimExpiry := 0
      nextAttemptAt := at_
      updatedAt := at_
      errorCode := "claim_expired" }

/-- The states that `set_target_assessment_state` does not refuse. -/
def targetStates : List Status := [.pending, .waitingConnection, .waitingSchema, .waitingAuth, .paused]

def setTargetAssessmentState (s : Store) (target targetIdentity : String) (status : Status) (errorCode : String)
    (at_ : ℚ) : Store :=
  if status ∉ targetStates then s
  else
    s.updateWhere (fun _ row => decide (row.targetKey = target ∧ row.targetIdentity = targetIdentity ∧
      row.status ∉ [.complete, .unsupported, .running])) fun row =>
      { row with status := status, updatedAt := at_, errorCode := errorText errorCode }

def claimable : List Status := [.pending, .waitingConnection, .waitingSchema, .waitingAuth, .retryWait]

/-- The row and the identity that a claim of a target finds to be due. -/
def due (s : Store) (target targetIdentity : String) (at_ : ℚ) (eligibleKeys : Option (List String))
    (row : Nat × Assessment) : Option (Nat × Assessment × Identity) :=
  match s.identities.lookup row.2.identityId, s.targetQueries.lookup (row.2.identityId, row.2.targetKey) with
  | some identity, some _ =>
    if row.2.targetKey = target ∧ row.2.targetIdentity = targetIdentity ∧ row.2.status ∈ claimable ∧
        row.2.nextAttemptAt ≤ at_ ∧ (eligibleKeys.all fun keys => decide (identity.hash ∈ keys)) = true then
      some (row.1, row.2, identity)
    else none
  | _, _ => none

/-- Fewer attempts first, and among equal ones the newest or the oldest. -/
def claimsBefore (preferNew : Bool) (a b : Nat × Assessment × Identity) : Bool :=
  decide (a.2.1.attemptCount < b.2.1.attemptCount ∨ a.2.1.attemptCount = b.2.1.attemptCount ∧
    if preferNew = true then
      b.2.1.createdAt < a.2.1.createdAt ∨ b.2.1.createdAt = a.2.1.createdAt ∧ b.2.1.identityId ≤ a.2.1.identityId
    else a.2.1.createdAt < b.2.1.createdAt ∨ a.2.1.createdAt = b.2.1.createdAt ∧ a.2.1.identityId ≤ b.2.1.identityId)

def nextDue (s : Store) (target targetIdentity : String) (at_ : ℚ) (preferNew : Bool)
    (eligibleKeys : Option (List String)) : Option (Nat × Assessment × Identity) :=
  ((s.assessments.rows.filterMap (due s target targetIdentity at_ eligibleKeys)).insertionSort
    fun a b => claimsBefore preferNew a b = true).head?

/-- The row under a claim. -/
def Assessment.claimed (row : Assessment) (owner requestId : String) (leaseSeconds at_ : ℚ) : Assessment :=
  { row with
    status := .running
    claimOwner := owner
    claimExpiry := at_ + max 10 leaseSeconds
    generation := row.generation + 1
    requestId := if row.requestId = "" then requestId else row.requestId
    attemptCount := row.attemptCount + 1
    updatedAt := at_
    errorCode := "" }

def claimAssessment (s : Store) (target targetIdentity owner requestId : String) (leaseSeconds : ℚ) (preferNew : Bool)
    (at_ : ℚ) (eligibleKeys : Option (List String)) : Store × Option Claim :=
  match nextDue s target targetIdentity at_ preferNew eligibleKeys with
  | none => (s, none)
  | some (id, row, identity) =>
    let test := fun other (found : Assessment) =>
      decide (other = id ∧ found.generation = row.generation ∧ found.status ≠ .complete)
    if s.assessments.rows.countP (fun found => test found.1 found.2) = 1 then
      (s.updateWhere test fun found => found.claimed owner requestId leaseSeconds at_,
        some ⟨id, row.generation + 1, if row.requestId = "" then requestId else row.requestId,
          row.invalidResponseRetries, identity.hash, identity.sql, identity.originalSql, target, targetIdentity⟩)
    else (s, none)

/-- The row that a claim may write: it is running under the claim's generation and owner. -/
def heldBy (id generation : Nat) (owner : String) (other : Nat) (row : Assessment) : Bool :=
  decide (other = id ∧ row.generation = generation ∧ row.claimOwner = owner ∧ row.status = .running)

/-- The states that `retry_assessment` does not refuse. -/
def retryStates : List Status := [.retryWait, .waitingConnection, .waitingSchema, .waitingAuth, .paused, .unsupported]

def retryAssessment (s : Store) (id generation : Nat) (owner errorCode : String) (nextAttemptAt : ℚ) (status : Status)
    (freshRequest : Bool) (at_ : ℚ) : Store × Bool :=
  if status ∉ retryStates then (s, false)
  else
    (s.updateWhere (heldBy id generation owner) fun row =>
      { row with
        status := status
        errorCode := errorText errorCode
        nextAttemptAt := nextAttemptAt
        claimOwner := ""
        claimExpiry := 0
        updatedAt := at_
        requestId := if freshRequest = true then "" else row.requestId
        invalidResponseRetries := row.invalidResponseRetries + freshRequest.toNat },
      decide (s.assessments.rows.countP (fun row => heldBy id generation owner row.1 row.2) = 1))

/-- What a worker has found out; the result is its encoded text. -/
structure Outcome where
  result : String
  priorityScore : Option Int
  band : String
  confidence : ℚ
  findingMask : Int
  model : String
  rubricVersion : String
  inputFingerprint : String
  schemaFingerprint : String
  schemaCollectedAt : String
  schemaCoverage : String
  assessedAt : String

def Assessment.completed (row : Assessment) (outcome : Outcome) (at_ : ℚ) : Assessment :=
  { row with
    status := .complete
    updatedAt := at_
    nextAttemptAt := 0
    claimOwner := ""
    claimExpiry := 0
    inputFingerprint := outcome.inputFingerprint
    model := outcome.model
    rubricVersion := outcome.rubricVersion
    schemaFingerprint := outcome.schemaFingerprint
    schemaCollectedAt := outcome.schemaCollectedAt
    schemaCoverage := outcome.schemaCoverage
    assessedAt := outcome.assessedAt
    resultJson := outcome.result
    priorityScore := outcome.priorityScore
    band := outcome.band
    confidence := some outcome.confidence
    errorCode := "" }

/-- The update of `target_query`, which is of this target identity only. -/
def Store.project (s : Store) (row : Assessment) (outcome : Outcome) : Store :=
  match s.targetQueries.lookup (row.identityId, row.targetKey) with
  | none => s
  | some projection =>
    if projection.rmJevTargetIdentity = row.targetIdentity then
      let projected := ⟨outcome.priorityScore.getD (-1), outcome.findingMask, row.targetIdentity⟩
      { s with targetQueries := s.targetQueries.insert (row.identityId, row.targetKey) projected }
    else s

def completeAssessment (s : Store) (id generation : Nat) (owner : String) (outcome : Outcome) (at_ : ℚ) :
    Store × Bool :=
  match s.assessments.rows.find? fun row => heldBy id generation owner row.1 row.2 with
  | none => (s, false)
  | some (_, row) =>
    ((s.updateWhere (fun other _ => decide (other = id)) fun found => found.completed outcome at_).project row outcome,
      true)

/-- A call of the store by any worker, each of them in a transaction of its own and at a clock of its own. -/
inductive Call
  | recoverExpired (at_ : ℚ)
  | setTargetState (target targetIdentity : String) (status : Status) (errorCode : String) (at_ : ℚ)
  | claim (target targetIdentity owner requestId : String) (leaseSeconds : ℚ) (preferNew : Bool) (at_ : ℚ)
      (eligibleKeys : Option (List String))
  | retry (id generation : Nat) (owner errorCode : String) (nextAttemptAt : ℚ) (status : Status) (freshRequest : Bool)
      (at_ : ℚ)
  | complete (id generation : Nat) (owner : String) (outcome : Outcome) (at_ : ℚ)

/-- A claim that was granted. -/
structure Grant where
  id : Nat
  generation : Nat
  owner : String
deriving DecidableEq

def step (s : Store) : Call → Store × List Grant
  | .recoverExpired at_ => (recoverExpiredAssessmentClaims s at_, [])
  | .setTargetState target targetIdentity status errorCode at_ =>
    (setTargetAssessmentState s target targetIdentity status errorCode at_, [])
  | .claim target targetIdentity owner requestId leaseSeconds preferNew at_ eligibleKeys =>
    let claimed := claimAssessment s target targetIdentity owner requestId leaseSeconds preferNew at_ eligibleKeys
    (claimed.1, (claimed.2.map fun claim => Grant.mk claim.id claim.generation owner).toList)
  | .retry id generation owner errorCode nextAttemptAt status freshRequest at_ =>
    ((retryAssessment s id generation owner errorCode nextAttemptAt status freshRequest at_).1, [])
  | .complete id generation owner outcome at_ => ((completeAssessment s id generation owner outcome at_).1, [])

/-- The claim that a retry or a completion carries. -/
def Call.grant : Call → Option Grant
  | .retry id generation owner _ _ _ _ _ => some ⟨id, generation, owner⟩
  | .complete id generation owner _ _ => some ⟨id, generation, owner⟩
  | _ => none

/-- Whether a retry or a completion reports that it wrote. -/
def Call.writes (s : Store) : Call → Bool
  | .retry id generation owner errorCode nextAttemptAt status freshRequest at_ =>
    (retryAssessment s id generation owner errorCode nextAttemptAt status freshRequest at_).2
  | .complete id generation owner outcome at_ => (completeAssessment s id generation owner outcome at_).2
  | _ => false

section Updates

variable {s : Store} {id generation : Nat} {owner : String} {row : Assessment}

theorem lookup_updateWhere (s : Store) (test : Nat → Assessment → Bool) (change : Assessment → Assessment) (id : Nat) :
    (s.updateWhere test change).assessments.lookup id =
      (s.assessments.lookup id).map fun row => if test id row = true then change row else row :=
  Table.lookup_update s.assessments _ id

/-- A statement whose test no row meets changes nothing. -/
theorem updateWhere_nothing {test : Nat → Assessment → Bool} {change : Assessment → Assessment}
    (none : ∀ id row, s.assessments.lookup id = some row → test id row = false) : s.updateWhere test change = s := by
  have same : (s.assessments.update fun id row => if test id row = true then change row else row) = s.assessments := by
    apply Table.update_same
    intro row member
    have fails := none row.1 row.2 (s.assessments.mem_rows_iff.mp member)
    simp [fails]
  rw [Store.updateWhere, same]

@[simp] theorem project_assessments (s : Store) (row : Assessment) (outcome : Outcome) :
    (s.project row outcome).assessments = s.assessments := by
  unfold Store.project
  split
  · rfl
  · split <;> rfl

theorem heldBy_iff {other : Nat} : heldBy id generation owner other row = true ↔
    other = id ∧ row.generation = generation ∧ row.claimOwner = owner ∧ row.status = .running := by
  rw [heldBy, decide_eq_true_iff]

/-- Who may write an assessment. -/
def Held (s : Store) (grant : Grant) : Prop :=
  ∃ row, s.assessments.lookup grant.id = some row ∧ row.generation = grant.generation ∧
    row.claimOwner = grant.owner ∧ row.status = .running

theorem held_of_count (counted : s.assessments.rows.countP (fun row => heldBy id generation owner row.1 row.2) ≠ 0) :
    Held s ⟨id, generation, owner⟩ := by
  obtain ⟨row, member, held⟩ := List.countP_pos_iff.mp (Nat.pos_of_ne_zero counted)
  obtain ⟨same, rest⟩ := heldBy_iff.mp held
  refine ⟨row.2, ?_, rest⟩
  rw [← same]
  exact s.assessments.mem_rows_iff.mp member

theorem held_of_find {found : Nat × Assessment}
    (here : s.assessments.rows.find? (fun row => heldBy id generation owner row.1 row.2) = some found) :
    found.1 = id ∧ s.assessments.lookup id = some found.2 ∧ Held s ⟨id, generation, owner⟩ := by
  have held := List.find?_some here
  have there := s.assessments.mem_rows_iff.mp (List.mem_of_find?_eq_some here)
  obtain ⟨same, rest⟩ := heldBy_iff.mp held
  rw [same] at there
  exact ⟨same, there, found.2, there, rest⟩

/-- Where no row is held under a claim, no row passes its test. -/
theorem not_heldBy (free : ¬ Held s ⟨id, generation, owner⟩) (other : Nat) (row : Assessment)
    (found : s.assessments.lookup other = some row) : heldBy id generation owner other row = false := by
  rw [Bool.eq_false_iff]
  intro held
  obtain ⟨same, rest⟩ := heldBy_iff.mp held
  rw [same] at found
  exact free ⟨row, found, rest⟩

/-- Only a row that is not complete is due. -/
theorem nextDue_spec {target targetIdentity : String} {at_ : ℚ} {preferNew : Bool}
    {eligibleKeys : Option (List String)} {identity : Identity}
    (next : nextDue s target targetIdentity at_ preferNew eligibleKeys = some (id, row, identity)) :
    s.assessments.lookup id = some row ∧ row.status ∈ claimable := by
  have member := List.mem_insertionSort _ |>.mp (List.mem_of_mem_head? next)
  obtain ⟨found, there, passes⟩ := List.mem_filterMap.mp member
  unfold due at passes
  split at passes
  · split at passes
    · rename_i meets
      cases passes
      exact ⟨s.assessments.mem_rows_iff.mp there, meets.2.2.1⟩
    · cases passes
  · cases passes

/-- A granted claim takes a row that is not complete to the next generation, and leaves the other rows. -/
theorem claimAssessment_spec (s : Store) (target targetIdentity owner requestId : String) (leaseSeconds at_ : ℚ)
    (preferNew : Bool) (eligibleKeys : Option (List String)) :
    (claimAssessment s target targetIdentity owner requestId leaseSeconds preferNew at_ eligibleKeys = (s, none)) ∨
      ∃ claim row, (claimAssessment s target targetIdentity owner requestId leaseSeconds preferNew at_ eligibleKeys).2 =
          some claim ∧ s.assessments.lookup claim.id = some row ∧ row.status ≠ .complete ∧
        claim.generation = row.generation + 1 ∧ ∀ other,
          (claimAssessment s target targetIdentity owner requestId leaseSeconds preferNew at_
            eligibleKeys).1.assessments.lookup other =
          if other = claim.id then some (row.claimed owner requestId leaseSeconds at_)
          else s.assessments.lookup other := by
  unfold claimAssessment
  cases next : nextDue s target targetIdentity at_ preferNew eligibleKeys with
  | none => exact .inl rfl
  | some found =>
    obtain ⟨id, row, identity⟩ := found
    simp only
    split
    · right
      obtain ⟨there, status⟩ := nextDue_spec next
      have open_ : row.status ≠ .complete := by
        intro complete
        rw [complete] at status
        exact absurd status (by decide)
      refine ⟨_, row, rfl, there, open_, rfl, ?_⟩
      intro other
      rw [lookup_updateWhere]
      by_cases same : other = id
      · subst same
        simp [there, open_]
      · cases s.assessments.lookup other with
        | none => simp [same]
        | some b => simp [same]
    · exact .inl rfl

theorem completeAssessment_spec (s : Store) (id generation : Nat) (owner : String) (outcome : Outcome) (at_ : ℚ) :
    (completeAssessment s id generation owner outcome at_ = (s, false) ∧ ¬ Held s ⟨id, generation, owner⟩) ∨
      (Held s ⟨id, generation, owner⟩ ∧ (completeAssessment s id generation owner outcome at_).2 = true ∧ ∀ other,
        (completeAssessment s id generation owner outcome at_).1.assessments.lookup other =
          (s.assessments.lookup other).map fun row => if other = id then row.completed outcome at_ else row) := by
  unfold completeAssessment
  cases found : s.assessments.rows.find? fun row => heldBy id generation owner row.1 row.2 with
  | none =>
    left
    refine ⟨rfl, ?_⟩
    rintro ⟨row, there, rest⟩
    have fails := List.find?_eq_none.mp found (id, row) (s.assessments.mem_rows_iff.mpr there)
    exact fails (heldBy_iff.mpr ⟨rfl, rest⟩)
  | some here =>
    right
    refine ⟨(held_of_find found).2.2, rfl, ?_⟩
    intro other
    show ((s.updateWhere _ _).project _ _).assessments.lookup other = _
    rw [project_assessments, lookup_updateWhere]
    simp only [decide_eq_true_iff]

/-- A row after a call: a complete one is as it was, and the generation is that of the claim granted, if one was. -/
structure Follows (row row' : Assessment) : Prop where
  generation : row.generation ≤ row'.generation
  complete : row.status = .complete → row' = row

theorem Follows.refl (row : Assessment) : Follows row row := ⟨Nat.le_refl _, fun _ => rfl⟩

theorem updateWhere_follows {test : Nat → Assessment → Bool} {change : Assessment → Assessment}
    (keeps : ∀ row, (change row).generation = row.generation)
    (open_ : ∀ id row, test id row = true → row.status ≠ .complete) (found : s.assessments.lookup id = some row) :
    ∃ row', (s.updateWhere test change).assessments.lookup id = some row' ∧ Follows row row' := by
  refine ⟨if test id row = true then change row else row, by rw [lookup_updateWhere, found]; rfl, ?_⟩
  split
  · rename_i passes
    exact ⟨(keeps row).ge, fun complete => absurd complete (open_ id row passes)⟩
  · exact Follows.refl row

theorem step_row (call : Call) (found : s.assessments.lookup id = some row) :
    ∃ row', (step s call).1.assessments.lookup id = some row' ∧ Follows row row' ∧
      ∀ grant ∈ (step s call).2, grant.id = id → row.generation < grant.generation ∧
        grant.generation = row'.generation ∧ row.status ≠ .complete := by
  have silent : ∀ row' : Assessment, ∀ grant ∈ ([] : List Grant), grant.id = id → row.generation < grant.generation ∧
      grant.generation = row'.generation ∧ row.status ≠ .complete :=
    fun _ _ member => absurd member List.not_mem_nil
  cases call with
  | recoverExpired at_ =>
    have moved : ∃ row', (recoverExpiredAssessmentClaims s at_).assessments.lookup id = some row' ∧ Follows row row' := by
      apply updateWhere_follows _ _ found
      · exact fun _ => rfl
      · intro _ row passes complete
        simp [complete] at passes
    obtain ⟨row', there, follows⟩ := moved
    exact ⟨row', there, follows, silent row'⟩
  | setTargetState target targetIdentity status errorCode at_ =>
    have moved : ∃ row', (setTargetAssessmentState s target targetIdentity status errorCode at_).assessments.lookup id =
        some row' ∧ Follows row row' := by
      unfold setTargetAssessmentState
      split
      · exact ⟨row, found, Follows.refl row⟩
      · apply updateWhere_follows _ _ found
        · exact fun _ => rfl
        · intro _ row passes complete
          simp [complete] at passes
    obtain ⟨row', there, follows⟩ := moved
    exact ⟨row', there, follows, silent row'⟩
  | claim target targetIdentity owner requestId leaseSeconds preferNew at_ eligibleKeys =>
    simp only [step]
    rcases claimAssessment_spec s target targetIdentity owner requestId leaseSeconds at_ preferNew eligibleKeys with nothing | ⟨claim, old, granted, there, open_, next, after⟩
    · rw [nothing]
      exact ⟨row, found, Follows.refl row, silent row⟩
    · rw [granted, after id]
      by_cases same : id = claim.id
      · subst same
        rw [found] at there
        cases there
        refine ⟨_, if_pos rfl, ⟨Nat.le_succ _, fun complete => absurd complete open_⟩, ?_⟩
        intro grant member _
        rw [List.mem_singleton.mp member]
        exact ⟨by simp [next], next, open_⟩
      · refine ⟨row, (if_neg same).trans found, Follows.refl row, ?_⟩
        intro grant member own
        rw [List.mem_singleton.mp member] at own
        exact absurd own.symm same
  | retry id' generation owner errorCode nextAttemptAt status freshRequest at_ =>
    have moved : ∃ row', (retryAssessment s id' generation owner errorCode nextAttemptAt status freshRequest
        at_).1.assessments.lookup id = some row' ∧ Follows row row' := by
      unfold retryAssessment
      split
      · exact ⟨row, found, Follows.refl row⟩
      · apply updateWhere_follows _ _ found
        · exact fun _ => rfl
        · intro _ row passes complete
          rw [(heldBy_iff.mp passes).2.2.2] at complete
          cases complete
    obtain ⟨row', there, follows⟩ := moved
    exact ⟨row', there, follows, silent row'⟩
  | complete id' generation owner outcome at_ =>
    simp only [step]
    rcases completeAssessment_spec s id' generation owner outcome at_ with ⟨nothing, -⟩ | ⟨held, -, after⟩
    · rw [nothing]
      exact ⟨row, found, Follows.refl row, silent row⟩
    · rw [after id, found]
      refine ⟨_, rfl, ?_, silent _⟩
      split
      · rename_i same
        obtain ⟨old, there, -, -, running⟩ := held
        rw [same] at found
        rw [found] at there
        cases there
        exact ⟨Nat.le_refl _, fun complete => absurd (running.symm.trans complete) (by decide)⟩
      · exact Follows.refl row

/-- A claim is granted of a row. -/
theorem step_grant {call : Call} {grant : Grant} (member : grant ∈ (step s call).2) :
    ∃ row, s.assessments.lookup grant.id = some row := by
  cases call with
  | claim target targetIdentity owner requestId leaseSeconds preferNew at_ eligibleKeys =>
    simp only [step] at member
    rcases claimAssessment_spec s target targetIdentity owner requestId leaseSeconds at_ preferNew eligibleKeys with nothing | ⟨claim, old, granted, there, -⟩
    · rw [nothing] at member
      cases member
    · rw [granted] at member
      rw [List.mem_singleton.mp member]
      exact ⟨old, there⟩
  | _ => cases member

/-- One call grants at most one claim. -/
theorem step_grants (s : Store) (call : Call) : (step s call).2.length ≤ 1 := by
  cases call with
  | claim target targetIdentity owner requestId leaseSeconds preferNew at_ eligibleKeys =>
    simp only [step]
    cases (claimAssessment s target targetIdentity owner requestId leaseSeconds preferNew at_ eligibleKeys).2 with
    | none => exact Nat.zero_le 1
    | some claim => exact Nat.le_refl 1
  | _ => exact Nat.zero_le 1

/-- A retry or a completion writes where its claim holds the row, and elsewhere leaves the store as it is. -/
theorem carried_held {call : Call} {grant : Grant} (carries : call.grant = some grant) :
    (¬ Held s grant → (step s call).1 = s) ∧ (call.writes s = true → Held s grant) := by
  cases call with
  | retry id generation owner errorCode nextAttemptAt status freshRequest at_ =>
    cases carries
    simp only [step, Call.writes, retryAssessment]
    split
    · exact ⟨fun _ => rfl, fun wrote => absurd wrote (by simp)⟩
    · constructor
      · intro free
        exact updateWhere_nothing (not_heldBy free)
      · intro wrote
        apply held_of_count
        rw [of_decide_eq_true wrote]
        exact Nat.one_ne_zero
  | complete id generation owner outcome at_ =>
    cases carries
    simp only [step, Call.writes]
    rcases completeAssessment_spec s id generation owner outcome at_ with ⟨nothing, -⟩ | ⟨held, -, -⟩
    · rw [nothing]
      exact ⟨fun _ => rfl, fun wrote => absurd wrote (by simp)⟩
    · exact ⟨fun free => absurd held free, fun _ => held⟩
  | _ => cases carries

theorem Held.unique {first second : Grant} (held : Held s first) (also : Held s second) (same : first.id = second.id) :
    first = second := by
  obtain ⟨row, found, generation, owner, -⟩ := held
  obtain ⟨row', found', generation', owner', -⟩ := also
  rw [same, found'] at found
  cases found
  obtain ⟨id, _, _⟩ := first
  obtain ⟨id', _, _⟩ := second
  simp only at same generation owner generation' owner'
  rw [same, ← generation, ← owner, ← generation', ← owner']

end Updates

section Runs

variable {s : Store}

/-- The claims granted so far: each is of a row that is in no earlier generation now, and later ones of a row are of
later generations. -/
structure Fenced (s : Store) (grants : List Grant) : Prop where
  known : ∀ grant ∈ grants, ∃ row, s.assessments.lookup grant.id = some row ∧ grant.generation ≤ row.generation
  increasing : grants.Pairwise fun a b => a.id = b.id → a.generation < b.generation

theorem step_fenced (s : Store) (grants : List Grant) (call : Call) (fenced : Fenced s grants) :
    Fenced (step s call).1 (grants ++ (step s call).2) := by
  constructor
  · intro grant member
    rcases List.mem_append.mp member with before | now
    · obtain ⟨row, found, least⟩ := fenced.known grant before
      obtain ⟨row', there, follows, -⟩ := step_row call found
      exact ⟨row', there, least.trans follows.generation⟩
    · obtain ⟨row, found⟩ := step_grant now
      obtain ⟨row', there, -, granted⟩ := step_row call found
      exact ⟨row', there, (granted grant now rfl).2.1.le⟩
  · rw [List.pairwise_append]
    refine ⟨fenced.increasing, ?_, ?_⟩
    · have few := step_grants s call
      generalize (step s call).2 = granted at few
      match granted, few with
      | [], _ => exact List.Pairwise.nil
      | [_], _ => exact List.pairwise_singleton _ _
    · intro old before new now same
      obtain ⟨row, found, least⟩ := fenced.known old before
      obtain ⟨row', -, -, granted⟩ := step_row call found
      exact least.trans_lt (granted new now same.symm).1

theorem run_fenced (s : Store) (calls : List Call) : Fenced (exec step s calls).1 (exec step s calls).2 :=
  exec_invariant Fenced (fun _ _ => True) (fun s grants call _ fenced => step_fenced s grants call fenced) s calls
    (everyStep_trivial s calls) ⟨fun _ member => absurd member List.not_mem_nil, List.Pairwise.nil⟩

/-- A complete assessment stays as it is, and is not claimed. -/
theorem complete_stays {id : Nat} {row : Assessment} (found : s.assessments.lookup id = some row)
    (complete : row.status = .complete) (calls : List Call) :
    (exec step s calls).1.assessments.lookup id = some row ∧ ∀ grant ∈ (exec step s calls).2, grant.id ≠ id := by
  induction calls generalizing s with
  | nil => exact ⟨found, fun _ member => absurd member List.not_mem_nil⟩
  | cons call rest ih =>
    obtain ⟨row', there, follows, granted⟩ := step_row call found
    rw [follows.complete complete] at there
    obtain ⟨stays, later⟩ := ih there
    refine ⟨stays, ?_⟩
    intro grant member same
    rcases List.mem_append.mp member with now | after
    · exact (granted grant now same).2.2 complete
    · exact later grant after same

/-- Whatever the workers call, in any order and at any clocks: claims of an assessment come with increasing
generations, one claim of it at most can write, an older one changes nothing, and a complete assessment stays. -/
theorem assessment_fenced (s : Store) (calls : List Call) :
    (exec step s calls).2.Pairwise (fun a b => a.id = b.id → a.generation < b.generation) ∧
      (∀ (call other : Call) (grant grant' : Grant), call.grant = some grant → other.grant = some grant' →
        grant.id = grant'.id → call.writes (exec step s calls).1 = true → other.writes (exec step s calls).1 = true →
          grant = grant') ∧
      (∀ (call : Call) (grant : Grant), call.grant = some grant → ∀ later ∈ (exec step s calls).2,
        later.id = grant.id → grant.generation < later.generation →
          (step (exec step s calls).1 call).1 = (exec step s calls).1) ∧
      ∀ (id : Nat) (row : Assessment), (exec step s calls).1.assessments.lookup id = some row →
        row.status = .complete → ∀ more : List Call,
          (exec step (exec step s calls).1 more).1.assessments.lookup id = some row ∧
            ∀ grant ∈ (exec step (exec step s calls).1 more).2, grant.id ≠ id := by
  have fenced := run_fenced s calls
  refine ⟨fenced.increasing, ?_, ?_, ?_⟩
  · intro call other grant grant' carries carries' same writes writes'
    exact ((carried_held carries).2 writes).unique ((carried_held carries').2 writes') same
  · intro call grant carries later member same older
    apply (carried_held carries).1
    rintro ⟨row, found, generation, -⟩
    obtain ⟨row', there, least⟩ := fenced.known later member
    rw [same, found] at there
    cases there
    omega
  · exact fun id row found complete more => complete_stays found complete more

end Runs

end Rdst.Library.Assessments
