import Rdst.Analysis.Fencing

namespace Rdst.Analysis

open RowTable Relation Machine

variable {calendar : Calendar} {s : Store} {call : Call} {id : Nat} {job later : Job}

/-- Only `recover_analysis` takes jobs back, and no hold applies to a job that was taken back. -/
def Remembers (s : Store) : Call → Prop
  | .claim process target _ _ => s.idsWhere (isDead process target) = []
  | .hold jobId owner attempt =>
    ∀ job, s.jobs.lookup jobId = some job → job.claimedBy owner attempt → job.recovered = false
  | _ => True

/-- The error of the job says that it was taken back, or the job never runs again. -/
def Job.marked (job : Job) : Prop := job.recovered = true ∨ job.isOver

theorem Edit.marked (edit : Edit call id job later)
    (unheld : ∀ owner attempt, call ≠ .hold id owner attempt) (marked : job.marked) : later.marked := by
  have again : job.recovered = true := marked.resolve_right edit.not_over
  cases edit with
  | ranked | reranked | asked | reclaimed | started => exact .inl again
  | skipped | cancelled => exact .inr (.inr (.inr rfl))
  | gaveUp => exact .inr (.inr (.inl rfl))
  | held _ _ owner attempt => exact absurd rfl (unheld owner attempt)
  | retried =>
    left
    rw [if_pos again]
    simp [Job.recovered, recoveryErrors]
  | finished _ _ outcome =>
    right
    cases outcome <;> simp [Job.isOver, Outcome.state]
  | recovered _ _ _ _ _ _ first =>
    rw [again] at first
    cases first

theorem Edits.marked (edits : Edits call id job later)
    (unheld : ∀ owner attempt, call = .hold id owner attempt → job.claimedBy owner attempt → job.recovered = false)
    (marked : job.marked) : later.marked := by
  by_cases hold : ∃ owner attempt, call = .hold id owner attempt
  · obtain ⟨owner, attempt, rfl⟩ := hold
    rcases edits.cases_head with rfl | ⟨_, edit, -⟩
    · exact marked
    · have again : job.recovered = true := marked.resolve_right edit.not_over
      cases edit with
      | held _ _ _ _ claimed =>
        rw [unheld owner attempt rfl claimed] at again
        cases again
  · induction edits with
    | refl => exact marked
    | tail _ edit ih =>
      apply edit.marked _ ih
      rintro owner attempt rfl
      exact hold ⟨owner, attempt, rfl⟩

theorem step_marked (remembers : Remembers s call) (found : s.jobs.lookup id = some job) (marked : job.marked)
    (kept : .deleted id ∉ call.events calendar s) :
    ∃ later, (call.apply calendar s).jobs.lookup id = some later ∧ later.marked := by
  obtain ⟨later, found', edits⟩ := kept_row found kept
  refine ⟨later, found', edits.marked ?_ marked⟩
  rintro owner attempt rfl claimed
  exact remembers job found claimed

/-- What puts a job back is a recovery of a job that was not taken back before. -/
theorem putBack_spec (remembers : Remembers s call) (back : .putBack id ∈ call.events calendar s) :
    ∃ process now timeout job, call = .recover process now timeout ∧ s.jobs.lookup id = some job ∧
      isAbandoned process now timeout job = true ∧ job.recovered = false := by
  rcases events_cases calendar s call with ⟨process, target, now, options, rfl⟩ | ⟨process, now, timeout, rfl⟩ | same
  · exfalso
    obtain ⟨front, last, parts, puts, starts⟩ := claim_events calendar s process target now options
    rw [parts, List.mem_append] at back
    rcases back with member | member
    · obtain ⟨id', -, dead⟩ := puts _ member
      rw [show s.idsWhere (isDead process target) = [] from remembers] at dead
      cases dead
    · rcases starts with rfl | ⟨row, rfl, -⟩
      · cases member
      · cases List.mem_singleton.mp member
  · simp only [Call.events, List.mem_append, List.mem_map] at back
    rcases back with ⟨id', member, event⟩ | ⟨id', -, event⟩
    · cases event
      obtain ⟨job, found, test⟩ := mem_idsWhere.mp member
      simp only [Bool.and_eq_true, Bool.not_eq_true'] at test
      exact ⟨process, now, timeout, job, rfl, found, test.1, test.2⟩
    · cases event
  · rw [same] at back
    obtain ⟨_, other⟩ := mem_missing back
    cases other

theorem events_putBack_le (calendar : Calendar) (id : Nat) (remembers : Remembers s call) : (call.events calendar s).count (.putBack id) ≤ 1 := by
  by_cases back : .putBack id ∈ call.events calendar s
  · obtain ⟨process, now, timeout, -, rfl, -⟩ := putBack_spec remembers back
    simp only [Call.events, List.count_append]
    have lost : .putBack id ∉
        (s.idsWhere fun job => isAbandoned process now timeout job && job.recovered).map Event.gaveUp := by
      intro member
      obtain ⟨_, -, event⟩ := List.mem_map.mp member
      cases event
    have ids : (s.idsWhere fun job => isAbandoned process now timeout job && !job.recovered).Nodup :=
      s.jobs.passing_nodup fun job => isAbandoned process now timeout job && !job.recovered
    have once := ids.map fun (a b : Nat) (same : Event.putBack a = Event.putBack b) => by
      cases same
      rfl
    have few := List.nodup_iff_count_le_one.mp once (.putBack id)
    have none := List.count_eq_zero.mpr lost
    omega
  · rw [List.count_eq_zero.mpr back]
    exact Nat.zero_le 1

/-- A job that was put back once is marked. -/
structure RecoveryInvariant (s : Store) (trace : List Event) : Prop where
  once : ∀ id, (since id trace).count (.putBack id) ≤ 1
  marked : ∀ id, .putBack id ∈ since id trace → ∃ job, s.jobs.lookup id = some job ∧ job.marked

theorem unmarked_of_putBack (remembers : Remembers s call) (found : s.jobs.lookup id = some job)
    (back : .putBack id ∈ call.events calendar s) : ¬ job.marked := by
  obtain ⟨process, now, timeout, job', -, found', lost, first⟩ := putBack_spec remembers back
  rw [found] at found'
  cases found'
  simp only [isAbandoned, Bool.and_eq_true, decide_eq_true_eq] at lost
  rintro (again | ended)
  · rw [first] at again
    cases again
  · simp [Job.isOver, lost.1] at ended

theorem marked_of_putBack (remembers : Remembers s call) (back : .putBack id ∈ call.events calendar s) :
    ∃ later, (call.apply calendar s).jobs.lookup id = some later ∧ later.marked := by
  obtain ⟨process, now, timeout, job, rfl, found, lost, first⟩ := putBack_spec remembers back
  simp only [isAbandoned, Bool.and_eq_true, decide_eq_true_eq] at lost
  refine ⟨job.recover process now timeout, ?_, ?_⟩
  · simp only [Call.apply, recoverAnalysis, Table.lookup_update, found, Option.map_some]
  · rw [Job.recover, if_pos lost, if_neg (by simp [first])]
    exact .inl (by simp [Job.recovered, recoveryErrors])

theorem step_recovery (calendar : Calendar) (s : Store) (trace : List Event) (call : Call)
    (remembers : Remembers s call) (inv : RecoveryInvariant s trace) :
    RecoveryInvariant (call.apply calendar s) (trace ++ call.events calendar s) := by
  have fresh : ∀ id, .deleted id ∈ call.events calendar s →
      .putBack id ∉ since id (trace ++ call.events calendar s) := by
    intro id gone member
    rw [since_append_deleted gone] at member
    obtain ⟨_, other⟩ := events_of_deleted gone _ (mem_of_mem_since member)
    cases other
  constructor
  · intro id
    by_cases gone : .deleted id ∈ call.events calendar s
    · rw [List.count_eq_zero.mpr (fresh id gone)]
      exact Nat.zero_le 1
    · rw [since_append_kept gone, List.count_append]
      by_cases earlier : .putBack id ∈ since id trace
      · obtain ⟨job, found, marked⟩ := inv.marked id earlier
        have never : .putBack id ∉ call.events calendar s := fun back =>
          unmarked_of_putBack remembers found back marked
        have before := inv.once id
        have here := List.count_eq_zero.mpr never
        omega
      · have before := List.count_eq_zero.mpr earlier
        have here := events_putBack_le calendar id remembers
        omega
  · intro id member
    by_cases gone : .deleted id ∈ call.events calendar s
    · exact absurd member (fresh id gone)
    · rw [since_append_kept gone, List.mem_append] at member
      rcases member with earlier | back
      · obtain ⟨job, found, marked⟩ := inv.marked id earlier
        exact step_marked remembers found marked gone
      · exact marked_of_putBack remembers back

theorem run_over (calls : List Call) (found : s.jobs.lookup id = some job) (ended : job.isOver) :
    (exec (queueStep calendar) s calls).1.jobs.lookup id = some job := by
  induction calls generalizing s with
  | nil => exact found
  | cons call rest ih => exact ih (over_unchanged calendar call found ended)

theorem taken_again (remembers : Remembers s call) (found : s.jobs.lookup id = some job) (marked : job.marked)
    (taken : .putBack id ∈ call.events calendar s ∨ .gaveUp id ∈ call.events calendar s) :
    ∃ later, (call.apply calendar s).jobs.lookup id = some later ∧ later.state = .failed := by
  rcases taken with back | lost
  · exact absurd marked (unmarked_of_putBack remembers found back)
  · rcases events_cases calendar s call with
      ⟨process, target, now, options, rfl⟩ | ⟨process, now, timeout, rfl⟩ | same
    · obtain ⟨front, last, parts, puts, starts⟩ := claim_events calendar s process target now options
      rw [parts, List.mem_append] at lost
      rcases lost with member | member
      · obtain ⟨_, other, -⟩ := puts _ member
        cases other
      · rcases starts with rfl | ⟨row, rfl, -⟩
        · cases member
        · cases List.mem_singleton.mp member
    · simp only [Call.events, List.mem_append, List.mem_map] at lost
      rcases lost with ⟨_, -, event⟩ | ⟨id', member, event⟩
      · cases event
      · cases event
        obtain ⟨job', found', test⟩ := mem_idsWhere.mp member
        rw [found] at found'
        cases found'
        simp only [isAbandoned, Bool.and_eq_true, decide_eq_true_eq] at test
        refine ⟨job.recover process now timeout, ?_, ?_⟩
        · simp only [Call.apply, recoverAnalysis, Table.lookup_update, found, Option.map_some]
        · rw [Job.recover, if_pos test.1, if_pos test.2]
    · rw [same] at lost
      obtain ⟨_, other⟩ := mem_missing lost
      cases other

/-- Where every job that is taken back is remembered, none is put back twice, and the second time it is taken
    from a worker it fails for good. -/
theorem bounded_recovery (calendar : Calendar) (s : Store) (calls : List Call)
    (remembers : EveryStep (queueStep calendar) Remembers { s with jobs := Table.empty } calls) :
    (∀ id, (since id (queueRun calendar s calls).2).count (.putBack id) ≤ 1) ∧
    ∀ (before : List Call) (call : Call) (after : List Call) (id : Nat),
      calls = before ++ call :: after → .putBack id ∈ since id (queueRun calendar s before).2 →
      .putBack id ∈ call.events calendar (queueRun calendar s before).1 ∨
        .gaveUp id ∈ call.events calendar (queueRun calendar s before).1 →
      ∃ later, (queueRun calendar s calls).1.jobs.lookup id = some later ∧ later.state = .failed := by
  have step : ∀ (s : Store) (trace : List Event) (call : Call), Remembers s call → RecoveryInvariant s trace →
      RecoveryInvariant (queueStep calendar s call).1 (trace ++ (queueStep calendar s call).2) :=
    fun s trace call remembers inv => step_recovery calendar s trace call remembers inv
  have start : RecoveryInvariant { s with jobs := Table.empty } [] := ⟨by simp [since], by simp [since]⟩
  constructor
  · exact (exec_invariant RecoveryInvariant Remembers step _ calls remembers start).once
  · intro before call after id split back taken
    rw [split, everyStep_append] at remembers
    obtain ⟨earlier, here, -⟩ := remembers
    obtain ⟨job, found, marked⟩ := (exec_invariant RecoveryInvariant Remembers step _ before earlier start).marked id back
    obtain ⟨later, found', failed⟩ := taken_again here found marked taken
    have whole : (queueRun calendar s calls).1 =
        (exec (queueStep calendar) (call.apply calendar (queueRun calendar s before).1) after).1 := by
      rw [split, queueRun, exec_append, exec_cons]
      rfl
    rw [whole]
    exact ⟨later, run_over after found' (.inr (.inl failed)), failed⟩

def lostTwice : List Call :=
  [.enqueue "db" "q" .new 1 100 none, .claim (lonelyWorker "a" 1) "db" 200 openOptions,
    .recover (lonelyWorker "b" 2) 300 1800, .claim (lonelyWorker "b" 2) "db" 400 openOptions,
    .recover (lonelyWorker "c" 3) 500 1800]

theorem bounded_recovery_lostTwice :
    EveryStep (queueStep Calendar.utc) Remembers { Store.new with jobs := Table.empty } lostTwice ∧
      (∀ id, (since id (queueRun Calendar.utc Store.new lostTwice).2).count (.putBack id) ≤ 1) ∧
      ∃ later, (queueRun Calendar.utc Store.new lostTwice).1.jobs.lookup 1 = some later ∧ later.state = .failed := by
  have remembers : EveryStep (queueStep Calendar.utc) Remembers { Store.new with jobs := Table.empty } lostTwice :=
    ⟨trivial, show Store.idsWhere _ _ = [] by decide +kernel, trivial,
      show Store.idsWhere _ _ = [] by decide +kernel, trivial, trivial⟩
  have bounded := bounded_recovery Calendar.utc Store.new lostTwice remembers
  refine ⟨remembers, bounded.1, ?_⟩
  exact bounded.2 (lostTwice.take 4) (.recover (lonelyWorker "c" 3) 500 1800) [] 1 rfl (by decide +kernel)
    (.inr (by decide +kernel))

/-- Each worker dies; the next claim puts its job back, and nothing remembers that. -/
theorem claims_put_back_twice :
    let calls : List Call := [.enqueue "db" "q" .new 1 100 none, .claim (lonelyWorker "a" 1) "db" 200 openOptions,
      .claim (lonelyWorker "b" 2) "db" 300 openOptions, .claim (lonelyWorker "c" 3) "db" 400 openOptions]
    (since 1 (queueRun Calendar.utc Store.new calls).2).count (.putBack 1) = 2 := by
  decide +kernel

end Rdst.Analysis
