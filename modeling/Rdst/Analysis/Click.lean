import Rdst.Analysis.PlanRun

namespace Rdst.Analysis

open RowTable Relation Machine

/-- Whether the plan runs the job today. -/
def QueuePlan.runsToday (plan : QueuePlan) (id : Nat) : Bool :=
  plan.jobs.any fun item => item.1 = id && (scheduled item).isSome

/-- `_enqueue` for a click; the priority is the load that `_priority` reads. -/
def enqueueClick (calendar : Calendar) (s : Store) (target key : String) (now : Int) (priority : ℚ) :
    Store × Option Row :=
  if (s.queryText.any fun row => decide (row.target = target ∧ row.queryKey = key)) = true then
    enqueueAnalysis calendar s target key .user priority now none
  else (s, none)

/-- The job of a click, and whether it was `already_queued`. -/
def enqueueUser (calendar : Calendar) (s : Store) (target key : String) (now : Int) (desk : Desk) (priority : ℚ) :
    Store × Option (Row × Bool) :=
  let clicked := enqueueClick calendar s target key now priority
  match s.jobs.last (Job.isLive target key) with
  | some row =>
    if row.2.state = .running then (s, some (row, true))
    else if (queuePlan calendar s target now desk).runsToday row.1 = true then (s, some (row, true))
    else (clicked.1, clicked.2.map fun row => (row, false))
  | none => (clicked.1, clicked.2.map fun row => (row, false))

/-- A waiting job of the query that the plan runs today was clicked before. -/
def WaitsAsClick (calendar : Calendar) (s : Store) (target key : String) (now : Int) (desk : Desk) : Prop :=
  ∀ id job, s.jobs.last (Job.isLive target key) = some (id, job) → job.state = .queued →
    (queuePlan calendar s target now desk).runsToday id = true → job.reason = .user

/-- The calls that come after a click: no report is enqueued for its query while the job waits, and what drops
    queued jobs drops automatic ones, as its callers do. -/
def Spares (id : Nat) (target key : String) (s : Store) : Call → Prop
  | .enqueue target' key' reason _ _ _ => reason = .report → target' = target → key' = key →
    ∀ job, s.jobs.lookup id = some job → job.state ≠ .queued
  | .trim _ _ reasons => ∀ reason ∈ reasons, reason ∈ automaticReasons
  | .drop _ _ reasons => ∀ reason ∈ reasons, reason ∈ automaticReasons
  | .finish .. => False
  | .cancel .. => False
  | .recover .. => False
  | _ => True

/-- The job of a click that has not run to its end. -/
structure Job.clicked (target key : String) (job : Job) : Prop where
  target : job.target = target
  queryKey : job.queryKey = key
  reason : job.reason = .user
  live : job.state = .queued ∨ job.state = .running

variable {calendar : Calendar} {s : Store} {call : Call} {id : Nat} {target key : String} {job later : Job}

theorem Edit.clicked (edit : Edit call id job later) (spares : Spares id target key s call)
    (unasked : ∀ priority now cap, call ≠ .enqueue target key .report priority now cap)
    (clicked : job.clicked target key) : later.clicked target key := by
  obtain ⟨of, for_, user, live⟩ := clicked
  cases edit with
  | ranked | reranked | retried => exact ⟨of, for_, user, live⟩
  | asked _ _ reason priority now cap _ manual =>
    have asked : reason = .user := by
      rcases manual with asked | report
      · exact asked
      · subst of for_ report
        exact absurd rfl (unasked priority now cap)
    exact ⟨of, for_, asked, live⟩
  | skipped _ _ _ _ _ _ automatic => exact absurd user automatic
  | held | reclaimed => exact ⟨of, for_, user, .inl rfl⟩
  | started => exact ⟨of, for_, user, .inr rfl⟩
  | finished | cancelled | gaveUp | recovered => exact spares.elim

theorem Edits.clicked (edits : Edits call id job later) (found : s.jobs.lookup id = some job)
    (spares : Spares id target key s call) (clicked : job.clicked target key) : later.clicked target key := by
  by_cases asked : ∃ priority now cap, call = .enqueue target key .report priority now cap
  · obtain ⟨priority, now, cap, rfl⟩ := asked
    rcases edits.cases_head with rfl | ⟨_, edit, -⟩
    · exact clicked
    · have waits : job.state ≠ .queued := spares rfl rfl rfl job found
      cases edit with
      | asked _ _ _ _ _ _ queued => exact absurd queued waits
  · have unasked : ∀ priority now cap, call ≠ .enqueue target key .report priority now cap := by
      intro priority now cap same
      exact asked ⟨priority, now, cap, same⟩
    induction edits with
    | refl => exact clicked
    | tail _ edit ih => exact edit.clicked spares unasked ih

theorem step_clicked (calendar : Calendar) (spares : Spares id target key s call)
    (before : ∃ job, s.jobs.lookup id = some job ∧ job.clicked target key) :
    ∃ job, (call.apply calendar s).jobs.lookup id = some job ∧ job.clicked target key := by
  obtain ⟨job, found, clicked⟩ := before
  have fate := fate calendar s call id
  rw [found] at fate
  cases after : (call.apply calendar s).jobs.lookup id with
  | some later =>
    rw [after] at fate
    cases fate with
    | edited edits => exact ⟨later, rfl, edits.clicked found spares clicked⟩
  | none =>
    rw [after] at fate
    cases fate with
    | deleted gone =>
      have automatic : job.reason ∈ automaticReasons := by
        cases call with
        | trim => exact spares _ gone.2.2
        | drop => exact spares _ gone.2.2
        | _ => exact gone.elim
      rw [clicked.reason] at automatic
      simp [automaticReasons] at automatic

theorem enqueueClick_clicked {now : Int} {priority : ℚ} {row : Row}
    (clicked : (enqueueClick calendar s target key now priority).2 = some row) :
    ∃ job, (enqueueClick calendar s target key now priority).1.jobs.lookup row.1 = some job ∧
      job.clicked target key := by
  unfold enqueueClick at clicked ⊢
  split at clicked
  · rename_i known
    rw [if_pos known]
    unfold enqueueAnalysis at clicked ⊢
    cases found : s.jobs.last (Job.isLive target key) with
    | some row' =>
      obtain ⟨id, existing⟩ := row'
      obtain ⟨here, live⟩ := s.jobs.last_some found
      obtain ⟨of, for_, live⟩ := isLive_iff.mp live
      simp only [found] at clicked ⊢
      split at clicked
      · rename_i queued
        rw [if_pos queued]
        simp only [Store.row, Store.updateJob, Table.lookup_update, here, Option.map_some, if_true,
          Option.some.injEq] at clicked ⊢
        subst clicked
        exact ⟨{ existing with reason := .user, priority := priority }, by simp [here], of, for_, rfl, .inl queued.1⟩
      · cases clicked
    | none =>
      simp only [found, ne_eq, not_true_eq_false, false_and, if_false, Store.insertJob, Option.some.injEq] at clicked ⊢
      subst clicked
      exact ⟨{ blankJob target key .user .queued now with priority := priority }, by simp [Table.lookup_insert], rfl, rfl,
        rfl, .inl rfl⟩
  · cases clicked

theorem enqueueUser_clicked {now : Int} {desk : Desk} {priority : ℚ} {row : Row} {already : Bool}
    (waits : WaitsAsClick calendar s target key now desk)
    (clicked : (enqueueUser calendar s target key now desk priority).2 = some (row, already))
    (queued : row.2.state = .queued) :
    ∃ job, (enqueueUser calendar s target key now desk priority).1.jobs.lookup row.1 = some job ∧
      job.clicked target key := by
  have fresh (new : (enqueueClick calendar s target key now priority).2.map (fun row => (row, false)) =
      some (row, already)) : ∃ job, (enqueueClick calendar s target key now priority).1.jobs.lookup row.1 = some job ∧
      job.clicked target key := by
    obtain ⟨row', found, same⟩ := Option.map_eq_some_iff.mp new
    cases same
    exact enqueueClick_clicked found
  unfold enqueueUser at clicked ⊢
  cases found : s.jobs.last (Job.isLive target key) with
  | none =>
    simp only [found] at clicked ⊢
    exact fresh clicked
  | some existing =>
    obtain ⟨here, live⟩ := s.jobs.last_some found
    obtain ⟨of, for_, live⟩ := isLive_iff.mp live
    simp only [found] at clicked ⊢
    split at clicked
    · rename_i running
      cases clicked
      rw [running] at queued
      cases queued
    · rename_i idle
      split at clicked
      · rename_i today
        rw [if_neg idle, if_pos today]
        cases clicked
        exact ⟨_, here, of, for_, waits _ _ found queued today, live⟩
      · rename_i later
        rw [if_neg idle, if_neg later]
        exact fresh clicked

/-- The allowances do not matter to the job of a click. -/
theorem admits_clicked {options : ClaimOptions} {newcomerCap : Int} {allowance other : Allowance} {hour : Int × Int}
    (clicked : job.clicked target key) :
    admits options newcomerCap allowance hour job = admits options newcomerCap other hour job := by
  simp [admits, clicked.reason]

/-- Where a click finds no automatic job of its query that runs today, and no report takes the job over while it
    waits, the job stays a click and is neither deleted nor skipped, and no allowance refuses it. -/
theorem clicks_run (calendar : Calendar) (file : Store) (earlier : List Call) (target key : String) (now : Int)
    (desk : Desk) (priority : ℚ) (row : Row) (already : Bool) (later : List Call)
    (waits : WaitsAsClick calendar (queueRun calendar file earlier).1 target key now desk)
    (clicked : (enqueueUser calendar (queueRun calendar file earlier).1 target key now desk priority).2 =
      some (row, already))
    (queued : row.2.state = .queued)
    (spares : EveryStep (queueStep calendar) (Spares row.1 target key)
      (enqueueUser calendar (queueRun calendar file earlier).1 target key now desk priority).1 later) :
    ∃ job, (exec (queueStep calendar)
        (enqueueUser calendar (queueRun calendar file earlier).1 target key now desk priority).1 later).1.jobs.lookup
          row.1 = some job ∧
      job.reason = .user ∧ (job.state = .queued ∨ job.state = .running) ∧
      ∀ (options : ClaimOptions) (newcomerCap : Int) (allowance other : Allowance) (hour : Int × Int),
        admits options newcomerCap allowance hour job = admits options newcomerCap other hour job := by
  have start := enqueueUser_clicked waits clicked queued
  have run := exec_invariant
    (fun (s : Store) _ => ∃ job, s.jobs.lookup row.1 = some job ∧ job.clicked target key)
    (Spares row.1 target key) (fun s _ call spares before => step_clicked calendar spares before) _ later spares start
  obtain ⟨job, found, clicked⟩ := run
  exact ⟨job, found, clicked.reason, clicked.live, fun _ _ _ _ _ => admits_clicked clicked⟩

/-- A file that knows the text of one query. -/
def knownQuery : Store := { Store.new with queryText := [⟨"db", "q", "SELECT 1", 1, 1⟩] }

theorem clicks_run_knownQuery :
    ∃ job, (exec (queueStep Calendar.utc)
        (enqueueUser Calendar.utc (queueRun Calendar.utc knownQuery []).1 "db" "q" 100 openDesk 7).1
          [.trim "db" 0 [.new], .claim (lonelyWorker "a" 1) "db" 200 openDesk.claimOptions]).1.jobs.lookup 1 =
        some job ∧ job.reason = .user ∧ (job.state = .queued ∨ job.state = .running) := by
  have waits : WaitsAsClick Calendar.utc (queueRun Calendar.utc knownQuery []).1 "db" "q" 100 openDesk := by
    intro id job found
    cases found
  obtain ⟨job, found, user, live, -⟩ := clicks_run Calendar.utc knownQuery [] "db" "q" 100 openDesk 7
    (1, { blankJob "db" "q" .user .queued 100 with priority := 7 }) false
    [.trim "db" 0 [.new], .claim (lonelyWorker "a" 1) "db" 200 openDesk.claimOptions] waits (by decide +kernel) rfl
    ⟨show ∀ reason ∈ [Reason.new], reason ∈ automaticReasons by decide, trivial, trivial⟩
  exact ⟨job, found, user, live⟩

/-- A click on an automatic job that runs today leaves it automatic, so that a trim deletes it; and a report takes
    a clicked job over, which then spends the allowance. -/
theorem clicks_lost :
    (let s := (queueRun Calendar.utc knownQuery [.enqueue "db" "q" .new 7 100 none]).1
      let clicked := enqueueUser Calendar.utc s "db" "q" 200 openDesk 7
      clicked.2.map (fun job => (job.1.1, job.1.2.state, job.2)) = some (1, .queued, true) ∧
        (exec (queueStep Calendar.utc) clicked.1 [.trim "db" 0 [.new]]).1.jobs.lookup 1 = none) ∧
    let clicked := enqueueUser Calendar.utc knownQuery "db" "q" 200 openDesk 7
    clicked.2.map (fun job => (job.1.1, job.1.2.reason, job.2)) = some (1, .user, false) ∧
      ((exec (queueStep Calendar.utc) clicked.1 [.enqueue "db" "q" .report 7 300 (some 10)]).1.jobs.lookup 1).map
        Job.reason = some .report := by
  decide +kernel

end Rdst.Analysis
