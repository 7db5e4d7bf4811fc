import Mathlib.Data.List.TakeWhile
import Rdst.Analysis.Edits

namespace Rdst.Analysis

open RowTable Relation Machine

/-- A run of the calls from a file in which no job was ever queued. -/
def queueRun (calendar : Calendar) (s : Store) (calls : List Call) : Store × List Event :=
  exec (queueStep calendar) { s with jobs := Table.empty } calls

section OneLive

variable {call : Call} {id : Nat} {target key : String} {job later : Job}

theorem Edit.isLive (edit : Edit call id job later) (live : later.isLive target key = true) :
    job.isLive target key = true := by
  rw [isLive_iff] at live ⊢
  obtain ⟨same, same'⟩ := edit.same_query
  exact ⟨same.symm.trans live.1, same'.symm.trans live.2.1, edit.live⟩

theorem Edits.isLive (edits : Edits call id job later) (live : later.isLive target key = true) :
    job.isLive target key = true := by
  induction edits with
  | refl => exact live
  | tail _ edit ih => exact ih (edit.isLive live)

theorem inserted_live {s : Store} (new : Inserted s call job) (live : job.isLive target key = true) :
    s.jobs.count (Job.isLive target key) = 0 := by
  rw [isLive_iff] at live
  cases new with
  | queued target' key' reason priority now cap alone =>
    obtain ⟨same, same', -⟩ := live
    simp only [blankJob] at same same'
    subst same same'
    exact s.jobs.count_eq_zero.mpr (s.jobs.last_none.mp alone)
  | skipped => simp [blankJob] at live
  | recorded => simp [blankJob] at live

theorem step_oneLive (calendar : Calendar) (s : Store) (call : Call) (target key : String)
    (few : s.jobs.count (Job.isLive target key) ≤ 1) :
    (call.apply calendar s).jobs.count (Job.isLive target key) ≤ 1 := by
  have before : ∀ id job, (call.apply calendar s).jobs.lookup id = some job → job.isLive target key = true →
      (∃ old, s.jobs.lookup id = some old ∧ old.isLive target key = true) ∨
        (id = s.jobs.nextId ∧ s.jobs.count (Job.isLive target key) = 0) := by
    intro id job found live
    have fate := fate calendar s call id
    rw [found] at fate
    generalize old : s.jobs.lookup id = row at fate
    cases fate with
    | edited edits => exact .inl ⟨_, rfl, edits.isLive live⟩
    | inserted new => exact .inr ⟨rfl, inserted_live new live⟩
  by_cases none : s.jobs.count (Job.isLive target key) = 0
  · have grows : (call.apply calendar s).jobs.count (Job.isLive target key) ≤
        s.jobs.count (Job.isLive target key) + 1 := by
      apply Table.count_le_succ s.jobs.nextId
      intro id job other found live
      exact (before id job found live).resolve_right fun new => other new.1
    omega
  · have kept : (call.apply calendar s).jobs.count (Job.isLive target key) ≤
        s.jobs.count (Job.isLive target key) := by
      apply Table.count_le
      intro id job found live
      exact (before id job found live).resolve_right fun new => none new.2
    omega

/-- Whatever the calls, a query of a target has at most one analysis that is queued or running. -/
theorem one_live_analysis (calendar : Calendar) (s : Store) (calls : List Call) (target key : String) :
    (queueRun calendar s calls).1.jobs.count (Job.isLive target key) ≤ 1 := by
  have step : ∀ (s : Store) (trace : List Event) (call : Call), True →
      s.jobs.count (Job.isLive target key) ≤ 1 →
        (queueStep calendar s call).1.jobs.count (Job.isLive target key) ≤ 1 :=
    fun s _ call _ few => step_oneLive calendar s call target key few
  exact exec_invariant (fun (s : Store) _ => s.jobs.count (Job.isLive target key) ≤ 1) (fun _ _ => True) step _ calls
    (everyStep_trivial _ _) (by simp)

end OneLive

section Since

/-- The events of the job that has this id now: an id can come again once its row is deleted. -/
def since (id : Nat) (trace : List Event) : List Event :=
  (trace.reverse.takeWhile fun event => event ≠ .deleted id).reverse

theorem since_append_kept {id : Nat} {trace events : List Event} (kept : .deleted id ∉ events) :
    since id (trace ++ events) = since id trace ++ events := by
  have all : ∀ event ∈ events.reverse, decide (event ≠ .deleted id) = true := by
    intro event member
    simp only [ne_eq, decide_eq_true_eq]
    rintro rfl
    exact kept (List.mem_reverse.mp member)
  rw [since, List.reverse_append, List.takeWhile_append_of_pos all]
  simp [since]

theorem since_append_deleted {id : Nat} {trace events : List Event} (gone : .deleted id ∈ events) :
    since id (trace ++ events) = since id events := by
  unfold since
  rw [List.reverse_append, List.takeWhile_append]
  split
  · rename_i whole
    exfalso
    have all := List.takeWhile_eq_self_iff.mp
      ((List.takeWhile_prefix fun event => decide (event ≠ Event.deleted id)).eq_of_length whole)
    simpa using all (.deleted id) (List.mem_reverse.mpr gone)
  · rfl

theorem mem_of_mem_since {id : Nat} {trace : List Event} {event : Event} (member : event ∈ since id trace) :
    event ∈ trace :=
  List.mem_reverse.mp (List.takeWhile_subset _ (List.mem_reverse.mp member))

end Since

section Events

variable {calendar : Calendar} {s : Store} {call : Call}

theorem mem_idsWhere {test : Job → Bool} {id : Nat} :
    id ∈ s.idsWhere test ↔ ∃ job, s.jobs.lookup id = some job ∧ test job = true := s.jobs.mem_passing test

theorem mem_missing {before after : Store} {event : Event} (member : event ∈ missing before after) :
    ∃ id, event = .deleted id := by
  obtain ⟨id, -, rfl⟩ := List.mem_map.mp member
  exact ⟨id, rfl⟩

/-- The events of a call that is neither a claim nor a recovery are deletions. -/
theorem events_cases (calendar : Calendar) (s : Store) (call : Call) :
    (∃ process target now options, call = .claim process target now options) ∨
    (∃ process now timeout, call = .recover process now timeout) ∨
    call.events calendar s = missing s (call.apply calendar s) := by
  cases call with
  | claim process target now options => exact .inl ⟨process, target, now, options, rfl⟩
  | recover process now timeout => exact .inr (.inl ⟨process, now, timeout, rfl⟩)
  | enqueue | skipOnce | hold | retry | updatePriorities | reprioritize | trim | drop | finish | cancel
  | recordUser | setSetting | addBucket => exact .inr (.inr rfl)

theorem deleted_event {id : Nat} {job : Job} (present : s.jobs.lookup id = some job)
    (absent : (call.apply calendar s).jobs.lookup id = none) : .deleted id ∈ call.events calendar s := by
  have gone : Deletes job call := by
    have fate := fate calendar s call id
    rw [present, absent] at fate
    cases fate with
    | deleted gone => exact gone
  rcases events_cases calendar s call with ⟨process, target, now, options, rfl⟩ | ⟨process, now, timeout, rfl⟩ | same
  · exact gone.elim
  · exact gone.elim
  · rw [same]
    have member := List.mem_map_of_mem (f := Prod.fst) (s.jobs.mem_rows_iff.mpr present)
    exact List.mem_map_of_mem (List.mem_filter.mpr ⟨member, by simpa using absent⟩)

/-- The events of a claim: jobs put back first, then one started. -/
theorem claim_events (calendar : Calendar) (s : Store) (process : Process) (target : String) (now : Int) (options : ClaimOptions) :
    ∃ back last, (Call.claim process target now options).events calendar s = back ++ last ∧
      (∀ event ∈ back, ∃ id, event = .putBack id ∧ id ∈ s.idsWhere (isDead process target)) ∧
      (last = [] ∨ ∃ row, last = [.started now row] ∧
        (claimAnalysis calendar process s target now options).2 = .started row) := by
  simp only [Call.events]
  have back : ∀ event ∈ (s.idsWhere (isDead process target)).map Event.putBack,
      ∃ id, event = .putBack id ∧ id ∈ s.idsWhere (isDead process target) := by
    intro event member
    obtain ⟨id, inside, rfl⟩ := List.mem_map.mp member
    exact ⟨id, rfl, inside⟩
  cases result : (claimAnalysis calendar process s target now options).2 with
  | raised => exact ⟨[], [], rfl, by simp, .inl rfl⟩
  | nothing => exact ⟨_, [], (List.append_nil _).symm, back, .inl rfl⟩
  | started row => exact ⟨_, [.started now row], rfl, back, .inr ⟨row, rfl, rfl⟩⟩

theorem not_deleted_claim {process : Process} {target : String} {now : Int} {options : ClaimOptions} {id : Nat} :
    .deleted id ∉ (Call.claim process target now options).events calendar s := by
  obtain ⟨back, last, same, puts, starts⟩ := claim_events calendar s process target now options
  rw [same, List.mem_append]
  rintro (member | member)
  · obtain ⟨id', other, -⟩ := puts _ member
    cases other
  · rcases starts with rfl | ⟨row, rfl, -⟩
    · cases member
    · cases List.mem_singleton.mp member

theorem not_deleted_recover {process : Process} {now timeout : Int} {id : Nat} :
    .deleted id ∉ (Call.recover process now timeout).events calendar s := by
  simp only [Call.events, List.mem_append, List.mem_map]
  rintro (⟨id', -, other⟩ | ⟨id', -, other⟩) <;> cases other

/-- Only the calls that delete rows record a deletion. -/
theorem events_of_deleted {id : Nat} (gone : .deleted id ∈ call.events calendar s) :
    ∀ event ∈ call.events calendar s, ∃ id, event = .deleted id := by
  rcases events_cases calendar s call with ⟨process, target, now, options, rfl⟩ | ⟨process, now, timeout, rfl⟩ | same
  · exact absurd gone not_deleted_claim
  · exact absurd gone not_deleted_recover
  · rw [same]
    exact fun event => mem_missing

end Events

section Fencing

variable {calendar : Calendar} {s : Store} {call : Call} {id : Nat} {job later : Job}

theorem Edit.attempt_le (edit : Edit call id job later) : job.attempt ≤ later.attempt := by
  cases edit <;> simp [Job.start]

theorem Edits.attempt_le (edits : Edits call id job later) : job.attempt ≤ later.attempt := by
  induction edits with
  | refl => exact Nat.le_refl _
  | tail _ edit ih => exact ih.trans edit.attempt_le

theorem reclaim_attempt_le (process : Process) (target : String) (job : Job) :
    job.attempt ≤ (job.reclaim process target).attempt := by
  unfold Job.reclaim
  split
  · exact Nat.le_succ _
  · exact Nat.le_refl _

/-- A started job is the one in the table, and its attempt is new. -/
theorem started_spec {process : Process} {target : String} {now : Int} {options : ClaimOptions} {row : Row}
    (started : (claimAnalysis calendar process s target now options).2 = .started row) :
    ∃ before, s.jobs.lookup row.1 = some before ∧ before.attempt < row.2.attempt ∧
      (claimAnalysis calendar process s target now options).1.jobs.lookup row.1 = some row.2 := by
  obtain ⟨job, own, -, chosen, same, result⟩ := started_cases started
  have here := (claimChoice_spec chosen).1
  simp only [reclaimDead, Table.lookup_update] at here
  obtain ⟨before, found, reclaimed⟩ := Option.map_eq_some_iff.mp here
  refine ⟨before, found, ?_, ?_⟩
  · have older := reclaim_attempt_le process target before
    rw [reclaimed] at older
    simp only [same, Job.start]
    omega
  · rw [result]
    simp only [Store.updateJob, reclaimDead, Table.lookup_update, found, Option.map_some, if_true, reclaimed, same]

/-- The claims of one job. -/
def DistinctClaims (id : Nat) : Event → Event → Prop
  | .started _ row, .started _ row' =>
    row.1 = id → row'.1 = id → (row.2.owner, row.2.attempt) ≠ (row'.2.owner, row'.2.attempt)
  | _, _ => True

/-- The row of a job has the attempt of its latest claim, or a greater one. -/
structure ClaimsInvariant (s : Store) (trace : List Event) : Prop where
  distinct : ∀ id, (since id trace).Pairwise (DistinctClaims id)
  newest : ∀ now row, .started now row ∈ since row.1 trace →
    ∃ job, s.jobs.lookup row.1 = some job ∧ row.2.attempt ≤ job.attempt

theorem events_distinct (calendar : Calendar) (s : Store) (call : Call) (id : Nat) :
    (call.events calendar s).Pairwise (DistinctClaims id) := by
  have unstarted : ∀ events : List Event, (∀ event ∈ events, ∀ now row, event ≠ .started now row) →
      events.Pairwise (DistinctClaims id) := by
    intro events none
    apply List.pairwise_iff_getElem.mpr
    intro i j hi hj _
    have other := none events[i] (List.getElem_mem hi)
    cases event : events[i] with
    | started now row => exact absurd event (other now row)
    | putBack | gaveUp | deleted => trivial
  rcases events_cases calendar s call with ⟨process, target, now, options, rfl⟩ | ⟨process, now, timeout, rfl⟩ | same
  · obtain ⟨back, last, same, puts, starts⟩ := claim_events calendar s process target now options
    rw [same, List.pairwise_append]
    refine ⟨unstarted back ?_, ?_, ?_⟩
    · intro event member now row started
      obtain ⟨id', same, -⟩ := puts event member
      rw [same] at started
      cases started
    · rcases starts with rfl | ⟨row, rfl, -⟩
      · exact List.Pairwise.nil
      · exact List.pairwise_singleton _ _
    · intro event member last' _
      obtain ⟨id', same, -⟩ := puts event member
      rw [same]
      trivial
  · apply unstarted
    simp only [Call.events, List.mem_append, List.mem_map]
    rintro event (⟨id', -, rfl⟩ | ⟨id', -, rfl⟩) now row <;> simp
  · apply unstarted
    intro event member now row started
    rw [same] at member
    obtain ⟨id', same⟩ := mem_missing member
    rw [same] at started
    cases started

/-- A started event of a call comes from a claim. -/
theorem started_event {now : Int} {row : Row} (member : .started now row ∈ call.events calendar s) :
    ∃ process target options, call = .claim process target now options ∧
      (claimAnalysis calendar process s target now options).2 = .started row := by
  rcases events_cases calendar s call with ⟨process, target, at_, options, rfl⟩ | ⟨process, at_, timeout, rfl⟩ | same
  · obtain ⟨back, last, same, puts, starts⟩ := claim_events calendar s process target at_ options
    rw [same, List.mem_append] at member
    rcases member with member | member
    · obtain ⟨id', other, -⟩ := puts _ member
      cases other
    · rcases starts with rfl | ⟨row', rfl, started⟩
      · cases member
      · cases List.mem_singleton.mp member
        exact ⟨process, target, options, rfl, started⟩
  · simp only [Call.events, List.mem_append, List.mem_map] at member
    rcases member with ⟨id', -, other⟩ | ⟨id', -, other⟩ <;> cases other
  · rw [same] at member
    obtain ⟨id', other⟩ := mem_missing member
    cases other

/-- Where no deletion is recorded the row stays, edited at most. -/
theorem kept_row (present : s.jobs.lookup id = some job) (kept : .deleted id ∉ call.events calendar s) :
    ∃ later, (call.apply calendar s).jobs.lookup id = some later ∧ Edits call id job later := by
  have fate := fate calendar s call id
  rw [present] at fate
  cases found : (call.apply calendar s).jobs.lookup id with
  | none => exact absurd (deleted_event present found) kept
  | some later =>
    rw [found] at fate
    cases fate with
    | edited edits => exact ⟨later, rfl, edits⟩

theorem step_claims (calendar : Calendar) (s : Store) (trace : List Event) (call : Call)
    (inv : ClaimsInvariant s trace) :
    ClaimsInvariant (call.apply calendar s) (trace ++ call.events calendar s) := by
  have new : ∀ now row, .started now row ∈ call.events calendar s →
      ∃ before, s.jobs.lookup row.1 = some before ∧ before.attempt < row.2.attempt ∧
        (call.apply calendar s).jobs.lookup row.1 = some row.2 := by
    intro now row member
    obtain ⟨process, target, options, rfl, started⟩ := started_event member
    exact started_spec started
  constructor
  · intro id
    by_cases gone : .deleted id ∈ call.events calendar s
    · rw [since_append_deleted gone]
      exact (events_distinct calendar s call id).sublist
        (List.reverse_sublist.mp (by simpa [since] using List.takeWhile_sublist _))
    · rw [since_append_kept gone, List.pairwise_append]
      refine ⟨inv.distinct id, events_distinct calendar s call id, ?_⟩
      intro old early event member
      cases old with
      | putBack | gaveUp | deleted => trivial
      | started now row =>
        cases event with
        | putBack | gaveUp | deleted => trivial
        | started now' row' =>
          intro same same' equal
          subst same
          obtain ⟨job, here, older⟩ := inv.newest now row early
          obtain ⟨before, found, newer, -⟩ := new now' row' member
          rw [same', here] at found
          cases found
          have := (Prod.mk.inj equal).2
          omega
  · intro now row member
    by_cases gone : .deleted row.1 ∈ call.events calendar s
    · rw [since_append_deleted gone] at member
      obtain ⟨id, other⟩ := events_of_deleted gone _ (mem_of_mem_since member)
      cases other
    · rw [since_append_kept gone] at member
      rcases List.mem_append.mp member with early | here
      · obtain ⟨job, found, older⟩ := inv.newest now row early
        obtain ⟨later, found', edits⟩ := kept_row found gone
        exact ⟨later, found', older.trans edits.attempt_le⟩
      · obtain ⟨before, -, -, found⟩ := new now row here
        exact ⟨row.2, found, Nat.le_refl _⟩

/-- What a worker reports about the claim that it was given. -/
def Reports (id : Nat) (owner : String) (attempt : Nat) : Call → Prop
  | .finish jobId _ _ _ owner' attempt' => jobId = id ∧ owner' = owner ∧ attempt' = attempt
  | .hold jobId owner' attempt' => jobId = id ∧ owner' = owner ∧ attempt' = attempt
  | .retry jobId owner' attempt' => jobId = id ∧ owner' = owner ∧ attempt' = attempt
  | _ => False

/-- The calls that take a running job from its worker: it is held, finished, cancelled, put back or given up. -/
inductive Ends (calendar : Calendar) (s : Store) (id : Nat) : Call → Prop
  | held (owner : String) (attempt : Nat) (applied : (holdAnalysis s id owner attempt).2 = true) :
    Ends calendar s id (.hold id owner attempt)
  | finished (state : Outcome) (now : Int) (fields : FinishFields) (owner : String) (attempt : Nat)
    (applied : (finishAnalysis s id state now fields owner attempt).2 = true) :
    Ends calendar s id (.finish id state now fields owner attempt)
  | cancelled (now : Int) : Ends calendar s id (.cancel id now)
  | putBack (call : Call) (back : .putBack id ∈ call.events calendar s) : Ends calendar s id call
  | gaveUp (call : Call) (lost : .gaveUp id ∈ call.events calendar s) : Ends calendar s id call

/-- The claim with this attempt is over. -/
def Past (s : Store) (id attempt : Nat) : Prop :=
  ∃ job, s.jobs.lookup id = some job ∧ attempt ≤ job.attempt ∧ (job.attempt = attempt → job.state ≠ .running)

theorem Edit.past {attempt : Nat} (edit : Edit call id job later)
    (past : attempt ≤ job.attempt ∧ (job.attempt = attempt → job.state ≠ .running)) :
    attempt ≤ later.attempt ∧ (later.attempt = attempt → later.state ≠ .running) := by
  obtain ⟨older, ended⟩ := past
  refine ⟨older.trans edit.attempt_le, ?_⟩
  intro same
  cases edit with
  | ranked | reranked | asked => exact ended same
  | skipped | held | reclaimed | cancelled | gaveUp | recovered => simp
  | retried _ _ _ _ claimed => exact absurd claimed.1 (ended same)
  | started =>
    simp only [Job.start] at same
    omega
  | finished _ _ outcome => cases outcome <;> simp [Outcome.state]

theorem Edits.past {attempt : Nat} (edits : Edits call id job later)
    (past : attempt ≤ job.attempt ∧ (job.attempt = attempt → job.state ≠ .running)) :
    attempt ≤ later.attempt ∧ (later.attempt = attempt → later.state ≠ .running) := by
  induction edits with
  | refl => exact past
  | tail _ edit ih => exact edit.past ih

theorem step_past {attempt : Nat} (past : Past s id attempt) (kept : .deleted id ∉ call.events calendar s) :
    Past (call.apply calendar s) id attempt := by
  obtain ⟨job, found, older⟩ := past
  obtain ⟨later, found', edits⟩ := kept_row found kept
  exact ⟨later, found', edits.past older⟩

theorem run_past {attempt : Nat} (calls : List Call) (past : Past s id attempt)
    (kept : .deleted id ∉ (exec (queueStep calendar) s calls).2) :
    Past (exec (queueStep calendar) s calls).1 id attempt := by
  induction calls generalizing s with
  | nil => exact past
  | cons call rest ih =>
    simp only [exec_cons, List.mem_append, not_or] at kept
    exact ih (step_past past kept.1) kept.2

theorem updateClaimed_past {owner : String} {attempt : Nat} {change : Job → Job} (past : Past s id attempt) :
    (s.updateClaimed id owner attempt change).1.jobs.lookup id = s.jobs.lookup id := by
  obtain ⟨job, found, -, ended⟩ := past
  have other : ¬ job.claimedBy owner attempt := fun claimed => ended claimed.2.2 claimed.1
  simp only [Store.updateClaimed, Store.updateJob, Table.lookup_update, found, Option.map_some, if_true, other,
    if_false]

theorem report_past {owner : String} {attempt : Nat} (past : Past s id attempt) (report : Reports id owner attempt call) :
    (call.apply calendar s).jobs.lookup id = s.jobs.lookup id := by
  cases call with
  | finish jobId state now fields owner' attempt' =>
    obtain ⟨rfl, rfl, rfl⟩ := report
    exact updateClaimed_past past
  | hold jobId owner' attempt' =>
    obtain ⟨rfl, rfl, rfl⟩ := report
    exact updateClaimed_past past
  | retry jobId owner' attempt' =>
    obtain ⟨rfl, rfl, rfl⟩ := report
    exact updateClaimed_past past
  | _ => exact report.elim

/-- A claimed job that a report changes is changed by the report of its own claim. -/
theorem updateClaimed_ends {owner owner' : String} {attempt attempt' : Nat} {change : Job → Job}
    (found : s.jobs.lookup id = some job) (claimed : job.claimedBy owner attempt)
    (applied : (s.updateClaimed id owner' attempt' change).2 = true)
    (ended : ∀ job, (change job).attempt = job.attempt ∧ (change job).state ≠ .running) :
    Past (s.updateClaimed id owner' attempt' change).1 id attempt := by
  simp only [Store.updateClaimed, found, Option.any_some, decide_eq_true_eq] at applied
  refine ⟨change job, ?_, ?_, fun _ => (ended job).2⟩
  · simp only [Store.updateClaimed, Store.updateJob, Table.lookup_update, found, Option.map_some, if_true, applied]
  · rw [(ended job).1, claimed.2.2]

theorem claim_past {process : Process} {target : String} {now : Int} {options : ClaimOptions} {attempt : Nat}
    (found : s.jobs.lookup id = some job) (same : job.attempt = attempt)
    (back : .putBack id ∈ (Call.claim process target now options).events calendar s) :
    Past (claimAnalysis calendar process s target now options).1 id attempt := by
  have dead : job.reclaim process target =
      { job with state := .queued, startedAt := none, owner := none, attempt := job.attempt + 1 } := by
    obtain ⟨front, last, parts, puts, starts⟩ := claim_events calendar s process target now options
    rw [parts, List.mem_append] at back
    rcases back with member | member
    · obtain ⟨id', same, inside⟩ := puts _ member
      cases same
      obtain ⟨job', found', test⟩ := mem_idsWhere.mp inside
      rw [found] at found'
      cases found'
      simp only [isDead, Bool.and_eq_true, decide_eq_true_eq] at test
      exact if_pos ⟨test.1.1, test.1.2, test.2⟩
    · rcases starts with rfl | ⟨row, rfl, -⟩
      · cases member
      · cases List.mem_singleton.mp member
  have reclaimed : Past (reclaimDead process s target) id attempt := by
    refine ⟨job.reclaim process target, ?_, ?_, ?_⟩
    · simp only [reclaimDead, Table.lookup_update, found, Option.map_some]
    · rw [dead, ← same]
      exact Nat.le_succ _
    · rw [dead]
      simp
  rcases claim_cases calendar process s target now options with raised | nothing | ⟨special, chosenJob, own, _, chosen, result⟩
  · simp [Call.events, raised] at back
  · rw [nothing]
    exact reclaimed
  · rw [result]
    obtain ⟨before, here, older⟩ := reclaimed
    by_cases this : id = special
    · subst this
      refine ⟨before.start process now ((reclaimDead process s target).executes target) own, ?_, ?_, ?_⟩
      · simp only [Store.updateJob, Table.lookup_update, here, Option.map_some, if_true]
      · exact older.1.trans (Nat.le_succ _)
      · intro same
        simp only [Job.start] at same
        omega
    · refine ⟨before, ?_, older⟩
      simp only [Store.updateJob, Table.lookup_update, here, Option.map_some, this, if_false]

theorem recover_past {process : Process} {now timeout : Int} {attempt : Nat} (found : s.jobs.lookup id = some job)
    (same : job.attempt = attempt)
    (taken : .putBack id ∈ (Call.recover process now timeout).events calendar s ∨
      .gaveUp id ∈ (Call.recover process now timeout).events calendar s) :
    Past (recoverAnalysis process s now timeout) id attempt := by
  have test : isAbandoned process now timeout job = true := by
    have inside : ∃ job', s.jobs.lookup id = some job' ∧ isAbandoned process now timeout job' = true := by
      simp only [Call.events, List.mem_append, List.mem_map] at taken
      rcases taken with (⟨_, member, event⟩ | ⟨_, member, event⟩) | (⟨_, member, event⟩ | ⟨_, member, event⟩)
      all_goals cases event
      all_goals
        obtain ⟨job', found', test⟩ := mem_idsWhere.mp member
        simp only [Bool.and_eq_true] at test
        exact ⟨job', found', test.1⟩
    obtain ⟨job', found', test⟩ := inside
    rw [found] at found'
    cases found'
    exact test
  simp only [isAbandoned, Bool.and_eq_true, decide_eq_true_eq] at test
  refine ⟨job.recover process now timeout, ?_, ?_⟩
  · simp only [recoverAnalysis, Table.lookup_update, found, Option.map_some]
  · rw [Job.recover, if_pos test]
    split <;> simp [same]

theorem ends_past {owner : String} {attempt : Nat} (found : s.jobs.lookup id = some job)
    (claimed : job.claimedBy owner attempt) (ends : Ends calendar s id call) :
    Past (call.apply calendar s) id attempt := by
  have taken (call : Call) (event : .putBack id ∈ call.events calendar s ∨ .gaveUp id ∈ call.events calendar s) :
      Past (call.apply calendar s) id attempt := by
    rcases events_cases calendar s call with ⟨process, target, now, options, rfl⟩ | ⟨process, now, timeout, rfl⟩ | same
    · rcases event with back | lost
      · exact claim_past found claimed.2.2 back
      · obtain ⟨front, last, parts, puts, starts⟩ := claim_events calendar s process target now options
        rw [parts, List.mem_append] at lost
        rcases lost with member | member
        · obtain ⟨_, other, -⟩ := puts _ member
          cases other
        · rcases starts with rfl | ⟨row, rfl, -⟩
          · cases member
          · cases List.mem_singleton.mp member
    · exact recover_past found claimed.2.2 event
    · rw [same] at event
      rcases event with member | member <;> obtain ⟨_, other⟩ := mem_missing member <;> cases other
  cases ends with
  | held owner' attempt' applied =>
    exact updateClaimed_ends found claimed applied fun job => ⟨rfl, by simp⟩
  | finished state now fields owner' attempt' applied =>
    exact updateClaimed_ends found claimed applied fun job => ⟨rfl, by cases state <;> simp [Outcome.state]⟩
  | cancelled now =>
    refine ⟨{ job with state := .skipped, error := some "cancelled", finishedAt := some now }, ?_, ?_, by simp⟩
    · simp [Call.apply, cancelAnalysis, Store.updateJob, found, claimed.1]
    · exact Nat.le_of_eq claimed.2.2.symm
  | putBack _ back => exact taken call (.inl back)
  | gaveUp _ lost => exact taken call (.inr lost)

def Job.isOver (job : Job) : Prop := job.state = .done ∨ job.state = .failed ∨ job.state = .skipped

theorem Edit.not_over (edit : Edit call id job later) : ¬ job.isOver := by
  unfold Job.isOver
  rcases edit.live with queued | running
  · simp [queued]
  · simp [running]

theorem over_unchanged (calendar : Calendar) (call : Call) (found : s.jobs.lookup id = some job) (ended : job.isOver) :
    (call.apply calendar s).jobs.lookup id = some job := by
  have fate := fate calendar s call id
  rw [found] at fate
  generalize (call.apply calendar s).jobs.lookup id = row at fate
  cases fate with
  | edited edits =>
    rcases edits.cases_head with rfl | ⟨_, edit, -⟩
    · rfl
    · exact absurd ended edit.not_over
  | deleted gone =>
    have queued : job.state = .queued := by
      cases call with
      | trim => exact gone.2.1
      | drop => exact gone.2.1
      | _ => exact gone.elim
    simp [Job.isOver, queued] at ended

/-- The claims of a job never share an owner and an attempt; a claim that was ended by whatever call is never
    current again, and its worker's late report changes nothing; a job that is over stays as it is. -/
theorem claims_fenced (calendar : Calendar) (s : Store) (calls : List Call) :
    (∀ id, (since id (queueRun calendar s calls).2).Pairwise (DistinctClaims id)) ∧
    (∀ (before : List Call) (call : Call) (after : List Call) (id : Nat) (job : Job) (owner : String) (attempt : Nat),
      calls = before ++ call :: after → (queueRun calendar s before).1.jobs.lookup id = some job →
      job.claimedBy owner attempt → Ends calendar (queueRun calendar s before).1 id call →
      .deleted id ∉ (exec (queueStep calendar) (call.apply calendar (queueRun calendar s before).1) after).2 →
      ∀ report : Call, Reports id owner attempt report →
        (report.apply calendar (queueRun calendar s calls).1).jobs.lookup id =
          (queueRun calendar s calls).1.jobs.lookup id) ∧
    ∀ (id : Nat) (job : Job) (call : Call), (queueRun calendar s calls).1.jobs.lookup id = some job → job.isOver →
      (call.apply calendar (queueRun calendar s calls).1).jobs.lookup id = some job := by
  refine ⟨?_, ?_, ?_⟩
  · have step : ∀ (s : Store) (trace : List Event) (call : Call), True → ClaimsInvariant s trace →
        ClaimsInvariant (queueStep calendar s call).1 (trace ++ (queueStep calendar s call).2) :=
      fun s trace call _ inv => step_claims calendar s trace call inv
    have start : ClaimsInvariant { s with jobs := Table.empty } [] := ⟨fun _ => List.Pairwise.nil, by simp [since]⟩
    have run := exec_invariant ClaimsInvariant (fun _ _ => True) step _ calls (everyStep_trivial _ _) start
    exact run.distinct
  · intro before call after id job owner attempt split found claimed ends kept report reports
    have past := run_past after (ends_past found claimed ends) kept
    have whole : (queueRun calendar s calls).1 =
        (exec (queueStep calendar) (call.apply calendar (queueRun calendar s before).1) after).1 := by
      rw [split, queueRun, exec_append, exec_cons]
      rfl
    rw [whole]
    exact report_past past reports
  · intro id job call found ended
    exact over_unchanged calendar call found ended

end Fencing

end Rdst.Analysis
