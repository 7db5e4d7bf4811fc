import Rdst.Analysis.Calls

namespace Rdst.Analysis

open RowTable Relation

/-- One change that a call makes to the row with an id. -/
inductive Edit : Call → Nat → Job → Job → Prop
  | ranked (id : Nat) (job : Job) (target : String) (weights : List (String × ℚ)) (priority : ℚ)
    (queued : job.state = .queued) :
    Edit (.updatePriorities target weights) id job { job with priority := priority }
  | reranked (id : Nat) (job : Job) (target : String) (weights : List (String × ℚ)) (priority : ℚ)
    (queued : job.state = .queued) :
    Edit (.reprioritize target weights) id job { job with priority := priority }
  | asked (id : Nat) (job : Job) (reason : Reason) (priority : ℚ) (now : Int) (cap : Option Int)
    (queued : job.state = .queued) (manual : reason = .user ∨ reason = .report) :
    Edit (.enqueue job.target job.queryKey reason priority now cap) id job
      { job with reason := reason, priority := priority }
  | skipped (id : Nat) (job : Job) (reason : Reason) (now : Int) (explanation : String) (queued : job.state = .queued)
    (automatic : job.reason ≠ .user) :
    Edit (.skipOnce job.target job.queryKey reason now explanation) id job
      { job with state := .skipped, finishedAt := some now, error := some explanation }
  | held (id : Nat) (job : Job) (owner : String) (attempt : Nat) (claimed : job.claimedBy owner attempt) :
    Edit (.hold id owner attempt) id job
      { job with state := .queued, startedAt := none, error := some "signed out", owner := none }
  | retried (id : Nat) (job : Job) (owner : String) (attempt : Nat) (claimed : job.claimedBy owner attempt) :
    Edit (.retry id owner attempt) id job
      { job with error := some (if job.recovered = true then "retrying_after_recovery" else "retrying") }
  | reclaimed (id : Nat) (job : Job) (process : Process) (target : String) (now : Int) (options : ClaimOptions)
    (dead : isDead process target job = true) :
    Edit (.claim process target now options) id job
      { job with state := .queued, startedAt := none, owner := none, attempt := job.attempt + 1 }
  | started (id : Nat) (job : Job) (process : Process) (target : String) (now : Int) (options : ClaimOptions)
    (execute : Bool) (own : Option ℚ) (queued : job.state = .queued) (same : job.target = target) :
    Edit (.claim process target now options) id job (job.start process now execute own)
  | finished (id : Nat) (job : Job) (outcome : Outcome) (now : Int) (fields : FinishFields) (owner : String)
    (attempt : Nat) (claimed : job.claimedBy owner attempt) :
    Edit (.finish id outcome now fields owner attempt) id job { job with
      state := outcome.state
      finishedAt := some now
      error := fields.error
      analysisRef := fields.analysisRef
      mode := fields.mode
      paramSource := fields.paramSource
      billableCalls := some (job.billableCalls.getD 0 + fields.billableCalls) }
  | cancelled (id : Nat) (job : Job) (now : Int) (live : job.state = .queued ∨ job.state = .running) :
    Edit (.cancel id now) id job { job with state := .skipped, error := some "cancelled", finishedAt := some now }
  | gaveUp (id : Nat) (job : Job) (process : Process) (now timeout : Int)
    (lost : isAbandoned process now timeout job = true) (again : job.recovered = true) :
    Edit (.recover process now timeout) id job { job with
      state := .failed
      finishedAt := some now
      error := some "Analysis timed out after restart recovery"
      owner := none
      attempt := job.attempt + 1 }
  | recovered (id : Nat) (job : Job) (process : Process) (now timeout : Int)
    (lost : isAbandoned process now timeout job = true) (first : job.recovered = false) :
    Edit (.recover process now timeout) id job { job with
      state := .queued
      startedAt := none
      error := some "recovered_once"
      owner := none
      attempt := job.attempt + 1 }

abbrev Edits (call : Call) (id : Nat) : Job → Job → Prop := ReflTransGen (Edit call id)

/-- The row that a call inserts. -/
inductive Inserted (s : Store) : Call → Job → Prop
  | queued (target key : String) (reason : Reason) (priority : ℚ) (now : Int) (cap : Option Int)
    (alone : s.jobs.last (Job.isLive target key) = none) :
    Inserted s (.enqueue target key reason priority now cap)
      { blankJob target key reason .queued now with priority := priority }
  | skipped (target key : String) (reason : Reason) (now : Int) (explanation : String) :
    Inserted s (.skipOnce target key reason now explanation)
      { blankJob target key reason .skipped now with finishedAt := some now, error := some explanation }
  | recorded (target key text : String) (now : Int) (ref : String) (mode : Option Mode) :
    Inserted s (.recordUser target key text now (some ref) mode)
      { blankJob target key .user .done now with mode := mode, finishedAt := some now, analysisRef := some ref }

/-- The calls that delete rows, and the rows that they may delete. -/
def Deletes (job : Job) : Call → Prop
  | .trim target _ reasons => job.target = target ∧ job.state = .queued ∧ job.reason ∈ reasons
  | .drop target _ reasons => job.target = target ∧ job.state = .queued ∧ job.reason ∈ reasons
  | _ => False

/-- What a call can make of the row with an id. -/
inductive Fate (s : Store) (call : Call) : Nat → Option Job → Option Job → Prop
  | absent (id : Nat) : Fate s call id none none
  | edited {id : Nat} {job later : Job} (edits : Edits call id job later) : Fate s call id (some job) (some later)
  | inserted {job : Job} (new : Inserted s call job) : Fate s call s.jobs.nextId none (some job)
  | deleted {id : Nat} {job : Job} (gone : Deletes job call) : Fate s call id (some job) none

section Steps

variable {s : Store} {call : Call}

theorem Fate.refl (id : Nat) (row : Option Job) : Fate s call id row row := by
  cases row with
  | none => exact .absent id
  | some job => exact .edited .refl

theorem Fate.map {id : Nat} {row : Option Job} {change : Job → Job}
    (edits : ∀ job, row = some job → Edits call id job (change job)) : Fate s call id row (row.map change) := by
  cases row with
  | none => exact .absent id
  | some job => exact .edited (edits job rfl)

/-- An UPDATE of the rows that pass a test. -/
theorem Edits.ite {id : Nat} {job later : Job} {condition : Prop} [Decidable condition]
    (edit : condition → Edit call id job later) : Edits call id job (if condition then later else job) := by
  split
  · rename_i holds
    exact .single (edit holds)
  · exact .refl

theorem fate_updateJob (id special : Nat) {change : Job → Job}
    (edits : ∀ job, s.jobs.lookup special = some job → Edits call special job (change job)) :
    Fate s call id (s.jobs.lookup id) ((s.updateJob special change).jobs.lookup id) := by
  simp only [Store.updateJob, Table.lookup_update]
  apply Fate.map
  intro job found
  split
  · rename_i same
    subst same
    exact edits job found
  · exact .refl

theorem fate_updateClaimed (id jobId : Nat) (owner : String) (attempt : Nat) {change : Job → Job}
    (edits : ∀ job, job.claimedBy owner attempt → Edit call jobId job (change job)) :
    Fate s call id (s.jobs.lookup id) ((s.updateClaimed jobId owner attempt change).1.jobs.lookup id) := by
  apply fate_updateJob
  intro job _
  exact Edits.ite (edits job)

theorem fate_insertJob (id : Nat) {job : Job} (new : Inserted s call job) :
    Fate s call id (s.jobs.lookup id) ((s.insertJob job).1.jobs.lookup id) := by
  simp only [Store.insertJob, Table.lookup_insert]
  split
  · rename_i same
    subst same
    rw [Table.lookup_nextId]
    exact .inserted new
  · exact .refl id _

theorem fate_delete (id : Nat) {gone : Nat → Job → Bool}
    (deletes : ∀ job, s.jobs.lookup id = some job → gone id job = true → Deletes job call) :
    Fate s call id (s.jobs.lookup id) ((s.jobs.delete gone).lookup id) := by
  rw [Table.lookup_delete]
  cases found : s.jobs.lookup id with
  | none => exact .absent id
  | some job =>
    by_cases out : gone id job = true
    · rw [show (some job).filter (fun a => !gone id a) = none by simp [out]]
      exact .deleted (deletes job found out)
    · rw [show (some job).filter (fun a => !gone id a) = some job by simp [out]]
      exact .edited .refl

theorem isLive_iff {target key : String} {job : Job} : job.isLive target key = true ↔
    job.target = target ∧ job.queryKey = key ∧ (job.state = .queued ∨ job.state = .running) := by
  simp [Job.isLive, and_assoc]

theorem enqueue_fate (calendar : Calendar) (target key : String) (reason : Reason) (priority : ℚ) (now : Int)
    (cap : Option Int) (id : Nat) :
    Fate s (.enqueue target key reason priority now cap) id (s.jobs.lookup id)
      ((enqueueAnalysis calendar s target key reason priority now cap).1.jobs.lookup id) := by
  unfold enqueueAnalysis
  cases found : s.jobs.last (Job.isLive target key) with
  | some row =>
    obtain ⟨special, existing⟩ := row
    simp only
    split
    · rename_i asked
      apply fate_updateJob
      intro job here
      obtain ⟨same, live⟩ := s.jobs.last_some found
      rw [here] at same
      cases same
      obtain ⟨rfl, rfl, -⟩ := isLive_iff.mp live
      exact .single (.asked special existing reason priority now cap asked.1 asked.2)
    · exact .refl id _
  | none =>
    simp only
    split
    · exact .refl id _
    · exact fate_insertJob id (.queued target key reason priority now cap found)

theorem skip_fate (target key : String) (reason : Reason) (now : Int) (explanation : String) (id : Nat) :
    Fate s (.skipOnce target key reason now explanation) id (s.jobs.lookup id)
      ((skipAnalysisOnce s target key reason now explanation).1.jobs.lookup id) := by
  unfold skipAnalysisOnce
  cases s.jobs.last (Job.isFor target key .skipped) with
  | some row => exact .refl id _
  | none =>
    cases found : s.jobs.last (Job.isLive target key) with
    | some row =>
      obtain ⟨special, existing⟩ := row
      simp only
      split
      · exact .refl id _
      · rename_i automatic
        split
        · rename_i queued
          apply fate_updateJob
          intro job here
          obtain ⟨same, live⟩ := s.jobs.last_some found
          rw [here] at same
          cases same
          obtain ⟨rfl, rfl, -⟩ := isLive_iff.mp live
          exact .single (.skipped special existing reason now explanation queued automatic)
        · exact .refl id _
    | none => exact fate_insertJob id (.skipped target key reason now explanation)

theorem record_fate (target key text : String) (now : Int) (analysisRef : Option String) (mode : Option Mode)
    (id : Nat) :
    Fate s (.recordUser target key text now analysisRef mode) id (s.jobs.lookup id)
      ((recordUserAnalysis s target key text now analysisRef mode).1.jobs.lookup id) := by
  have insert (known : Store) (same : known.jobs = s.jobs) (ref : String) :
      Fate s (.recordUser target key text now (some ref) mode) id (s.jobs.lookup id)
        ((known.insertJob { blankJob target key .user .done now with
          mode := mode, finishedAt := some now, analysisRef := some ref }).1.jobs.lookup id) := by
    have here := fate_insertJob (s := s) id (.recorded target key text now ref mode)
    simpa only [Store.insertJob, same] using here
  unfold recordUserAnalysis
  simp only
  split
  · exact .refl id _
  · cases analysisRef with
    | none =>
      simp only
      split <;> exact .refl id _
    | some ref =>
      simp only
      split
      · exact insert s rfl ref
      · exact insert _ rfl ref

theorem reclaim_edits (process : Process) (target : String) (now : Int) (options : ClaimOptions) (id : Nat)
    (job : Job) : Edits (.claim process target now options) id job (job.reclaim process target) :=
  Edits.ite fun dead => .reclaimed id job process target now options (by simpa [isDead, and_assoc] using dead)

theorem mem_inState {target : String} {state : JobState} {row : Row} : row ∈ s.inState target state ↔
    s.jobs.lookup row.1 = some row.2 ∧ row.2.target = target ∧ row.2.state = state := by
  rw [Store.inState, List.mem_filter, ← Table.mem_rows_iff]
  simp

theorem claimChoice_spec {calendar : Calendar} {process : Process} {target : String} {now : Int}
    {options : ClaimOptions} {row : Row} (chosen : claimChoice calendar process s target now options = some row) :
    s.jobs.lookup row.1 = some row.2 ∧ row.2.target = target ∧ row.2.state = .queued ∧
      admits options (options.newcomerCap.getD process.defaultNewcomerCap) (allowanceUsed calendar s target now)
        (firstHourWindow s target) row.2 = true := by
  have member := List.mem_of_mem_head? chosen
  rw [List.mem_insertionSort, List.mem_filter, mem_inState] at member
  exact ⟨member.1.1, member.1.2.1, member.1.2.2, member.2⟩

/-- The two parts of a claim: the jobs of dead workers go back, and one job starts. -/
theorem claim_cases (calendar : Calendar) (process : Process) (s : Store) (target : String) (now : Int)
    (options : ClaimOptions) :
    claimAnalysis calendar process s target now options = (s, .raised) ∨
    claimAnalysis calendar process s target now options = (reclaimDead process s target, .nothing) ∨
    ∃ id job ownStart,
      occupied (reclaimDead process s target) target now = false ∧
      claimChoice calendar process (reclaimDead process s target) target now options = some (id, job) ∧
      claimAnalysis calendar process s target now options =
        ((reclaimDead process s target).updateJob id
            (Job.start process now ((reclaimDead process s target).executes target) ownStart),
          .started (id, job.start process now ((reclaimDead process s target).executes target) ownStart)) := by
  unfold claimAnalysis
  simp only
  split
  · exact .inr (.inl rfl)
  · rename_i room
    cases chosen : claimChoice calendar process (reclaimDead process s target) target now options with
    | none => exact .inr (.inl rfl)
    | some row =>
      obtain ⟨id, job⟩ := row
      cases own : ownStart process with
      | none => exact .inl rfl
      | some start => exact .inr (.inr ⟨id, job, start, by simpa using room, rfl, rfl⟩)

/-- What is known when a claim starts a job. -/
theorem started_cases {calendar : Calendar} {process : Process} {target : String} {now : Int}
    {options : ClaimOptions} {row : Row}
    (started : (claimAnalysis calendar process s target now options).2 = .started row) :
    ∃ job own,
      occupied (reclaimDead process s target) target now = false ∧
      claimChoice calendar process (reclaimDead process s target) target now options = some (row.1, job) ∧
      row.2 = job.start process now ((reclaimDead process s target).executes target) own ∧
      (claimAnalysis calendar process s target now options).1 = (reclaimDead process s target).updateJob row.1
        (Job.start process now ((reclaimDead process s target).executes target) own) := by
  rcases claim_cases calendar process s target now options with raised | nothing | ⟨id, job, own, room, chosen, result⟩
  · rw [raised] at started
    cases started
  · rw [nothing] at started
    cases started
  · rw [result] at started ⊢
    cases started
    exact ⟨job, own, room, chosen, rfl, rfl⟩

theorem claim_fate (calendar : Calendar) (process : Process) (target : String) (now : Int)
    (options : ClaimOptions) (id : Nat) :
    Fate s (.claim process target now options) id (s.jobs.lookup id)
      ((claimAnalysis calendar process s target now options).1.jobs.lookup id) := by
  rcases claim_cases calendar process s target now options with raised | nothing | ⟨special, job, own, _, chosen, result⟩
  · rw [raised]
    exact .refl id _
  · rw [nothing]
    simp only [reclaimDead, Table.lookup_update]
    exact Fate.map fun job _ => reclaim_edits process target now options id job
  · rw [result]
    obtain ⟨here, of, queued, -⟩ := claimChoice_spec chosen
    simp only [reclaimDead, Table.lookup_update] at here
    simp only [Store.updateJob, Table.lookup_update]
    by_cases same : id = special
    · subst same
      simp only [if_true, reclaimDead, Table.lookup_update, Option.map_map]
      apply Fate.map
      intro before found
      rw [found] at here
      have reclaimed : before.reclaim process target = job := Option.some.inj here
      apply (reclaim_edits process target now options id before).trans
      rw [Function.comp, reclaimed]
      exact .single (.started id job process target now options _ own queued of)
    · simp only [same, if_false, Option.map_id', reclaimDead, Table.lookup_update]
      exact Fate.map fun job _ => reclaim_edits process target now options id job

theorem reprioritize_fate (target : String) (weights all : List (String × ℚ)) (id : Nat) :
    Fate s (.reprioritize target all) id (s.jobs.lookup id) ((reprioritizeQueued s target weights).jobs.lookup id) := by
  have edits (weights : List (String × ℚ)) (s : Store) (job : Job) (found : s.jobs.lookup id = some job) :
      ∃ later, (reprioritizeQueued s target weights).jobs.lookup id = some later ∧
        Edits (.reprioritize target all) id job later := by
    induction weights generalizing s job with
    | nil => exact ⟨job, found, .refl⟩
    | cons item rest ih =>
      have first : Edits (.reprioritize target all) id job (if job.target = target ∧ job.state = .queued ∧
          job.reason ≠ .user ∧ job.queryKey = item.1 then { job with priority := item.2 } else job) :=
        Edits.ite fun ranked => .reranked id job target all item.2 ranked.2.1
      obtain ⟨later, found', more⟩ := ih { s with jobs := s.jobs.update fun _ job =>
        if job.target = target ∧ job.state = .queued ∧ job.reason ≠ .user ∧ job.queryKey = item.1 then
          { job with priority := item.2 } else job } _ (by simp only [Table.lookup_update, found]; rfl)
      exact ⟨later, found', first.trans more⟩
  have absent (weights : List (String × ℚ)) (s : Store) (missing : s.jobs.lookup id = none) :
      (reprioritizeQueued s target weights).jobs.lookup id = none := by
    induction weights generalizing s with
    | nil => exact missing
    | cons item rest ih => exact ih _ (by simp only [Table.lookup_update, missing]; rfl)
  cases found : s.jobs.lookup id with
  | none =>
    rw [absent weights s found]
    exact .absent id
  | some job =>
    obtain ⟨later, found', more⟩ := edits weights s job found
    rw [found']
    exact .edited more

theorem trim_fate (target : String) (keep : Int) (reasons : List Reason) (id : Nat) :
    Fate s (.trim target keep reasons) id (s.jobs.lookup id)
      ((trimAutomaticAnalyses s target keep reasons).1.jobs.lookup id) := by
  apply fate_delete
  intro job found out
  simp only [decide_eq_true_eq] at out
  obtain ⟨row, member, rfl⟩ := List.mem_map.mp out
  have member := List.mem_of_mem_drop member
  rw [List.mem_insertionSort, List.mem_filter, mem_inState] at member
  obtain ⟨⟨here, same, queued⟩, test⟩ := member
  rw [found] at here
  cases here
  simp only [Bool.and_eq_true, decide_eq_true_eq] at test
  exact ⟨same, queued, test.1⟩

theorem drop_fate (target : String) (keys : List String) (reasons : List Reason) (id : Nat) :
    Fate s (.drop target keys reasons) id (s.jobs.lookup id)
      ((dropQueuedAnalyses s target keys reasons).1.jobs.lookup id) := by
  apply fate_delete
  intro job found out
  simp only [Bool.and_eq_true, decide_eq_true_eq] at out
  exact ⟨out.1.1.1, out.1.1.2, out.1.2⟩

theorem recover_edits (process : Process) (now timeout : Int) (id : Nat) (job : Job) :
    Edits (.recover process now timeout) id job (job.recover process now timeout) := by
  unfold Job.recover
  apply Edits.ite
  intro left
  have lost : isAbandoned process now timeout job = true := by simpa [isAbandoned] using left
  split
  · rename_i again
    exact .gaveUp id job process now timeout lost again
  · rename_i first
    exact .recovered id job process now timeout lost (by simpa using first)

theorem recover_fate (process : Process) (now timeout : Int) (id : Nat) :
    Fate s (.recover process now timeout) id (s.jobs.lookup id) ((recoverAnalysis process s now timeout).jobs.lookup id) := by
  simp only [recoverAnalysis, Table.lookup_update]
  exact Fate.map fun job _ => recover_edits process now timeout id job

/-- Every call leaves a row alone, edits it, or is one of the few that insert or delete. -/
theorem fate (calendar : Calendar) (s : Store) (call : Call) (id : Nat) :
    Fate s call id (s.jobs.lookup id) ((call.apply calendar s).jobs.lookup id) := by
  cases call with
  | enqueue target key reason priority now cap => exact enqueue_fate calendar target key reason priority now cap id
  | skipOnce target key reason now explanation => exact skip_fate target key reason now explanation id
  | hold jobId owner attempt =>
    exact fate_updateClaimed id jobId owner attempt fun job claimed => .held jobId job owner attempt claimed
  | retry jobId owner attempt =>
    exact fate_updateClaimed id jobId owner attempt fun job claimed => .retried jobId job owner attempt claimed
  | claim process target now options => exact claim_fate calendar process target now options id
  | updatePriorities target weights =>
    simp only [Call.apply, updateAnalysisPriorities, Table.lookup_update]
    exact Fate.map fun job _ => Edits.ite fun ranked => .ranked id job target weights _ ranked.2
  | reprioritize target weights => exact reprioritize_fate target weights weights id
  | trim target keep reasons => exact trim_fate target keep reasons id
  | drop target keys reasons => exact drop_fate target keys reasons id
  | finish jobId state now fields owner attempt =>
    exact fate_updateClaimed id jobId owner attempt fun job claimed =>
      .finished jobId job state now fields owner attempt claimed
  | cancel jobId now =>
    apply fate_updateJob
    intro job _
    apply Edits.ite
    intro live
    exact .cancelled jobId job now (by simpa using live)
  | recordUser target key text now analysisRef mode => exact record_fate target key text now analysisRef mode id
  | recover process now timeout => exact recover_fate process now timeout id
  | setSetting target key value => exact .refl id _
  | addBucket target start res => exact .refl id _

/-- The state of a job before an edit. -/
theorem Edit.live {id : Nat} {job later : Job} (edit : Edit call id job later) :
    job.state = .queued ∨ job.state = .running := by
  cases edit with
  | ranked _ _ _ _ _ queued | reranked _ _ _ _ _ queued | asked _ _ _ _ _ _ queued | skipped _ _ _ _ _ queued
  | started _ _ _ _ _ _ _ _ queued => exact .inl queued
  | held _ _ _ _ claimed | retried _ _ _ _ claimed | finished _ _ _ _ _ _ _ claimed => exact .inr claimed.1
  | reclaimed _ _ _ _ _ _ dead =>
    simp only [isDead, Bool.and_eq_true, decide_eq_true_eq] at dead
    exact .inr dead.1.2
  | cancelled _ _ _ live => exact live
  | gaveUp _ _ _ _ _ lost | recovered _ _ _ _ _ lost =>
    simp only [isAbandoned, Bool.and_eq_true, decide_eq_true_eq] at lost
    exact .inr lost.1

theorem Edit.same_query {id : Nat} {job later : Job} (edit : Edit call id job later) :
    later.target = job.target ∧ later.queryKey = job.queryKey := by
  cases edit <;> exact ⟨rfl, rfl⟩

/-- What every edit keeps and every inserted row has, every row has after a call. -/
theorem rows_keep (calendar : Calendar) {keeps : Job → Prop}
    (edited : ∀ id job later, Edit call id job later → keeps job → keeps later)
    (inserted : ∀ job, Inserted s call job → keeps job)
    (before : ∀ id job, s.jobs.lookup id = some job → keeps job) :
    ∀ id job, (call.apply calendar s).jobs.lookup id = some job → keeps job := by
  intro id later found
  have fate := fate calendar s call id
  rw [found] at fate
  generalize old : s.jobs.lookup id = row at fate
  cases fate with
  | inserted new => exact inserted later new
  | edited edits =>
    have start := before id _ old
    clear found
    induction edits with
    | refl => exact start
    | tail _ edit ih => exact edited id _ _ edit ih

end Steps

end Rdst.Analysis
