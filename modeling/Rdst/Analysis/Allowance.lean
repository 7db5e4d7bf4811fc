import Rdst.Analysis.Fencing

namespace Rdst.Analysis

open RowTable Relation Machine

variable {calendar : Calendar} {s : Store} {call : Call} {id : Nat} {job later : Job}

section Started

/-- A job that waits was not started, or lost its start. -/
def Job.unstarted (job : Job) : Prop := job.state = .queued → job.startedAt = none

theorem Edit.unstarted (edit : Edit call id job later) (before : job.unstarted) : later.unstarted := by
  intro queued
  cases edit with
  | ranked | reranked | asked => exact before queued
  | held | reclaimed | recovered => rfl
  | retried _ _ _ _ claimed =>
    have running : job.state = .running := claimed.1
    rw [show job.state = .queued from queued] at running
    cases running
  | started => cases queued
  | finished _ _ outcome => cases outcome <;> cases queued
  | skipped | cancelled | gaveUp => cases queued

theorem Inserted.unstarted (new : Inserted s call job) : job.startedAt = none := by
  cases new <;> rfl

variable {day hour : Int × Int} {target : String} {reasons : List Reason}

theorem startedIn_iff : job.startedIn day hour target (some reasons) = true ↔
    job.target = target ∧ (∃ at_, job.startedAt = some at_ ∧ day.1 ≤ at_ ∧ at_ < day.2) ∧ job.spendsCap = true ∧
      job.inFirstHour hour = false ∧ job.reason ∈ reasons := by
  simp only [Job.startedIn, Bool.and_eq_true, decide_eq_true_eq, Bool.not_eq_true', Option.all_some,
    Option.any_eq_true, Bool.and_eq_true]
  tauto

theorem spendsCap_of_running (running : job.state = .running) (paid : job.reason ≠ .user) : job.spendsCap = true := by
  simp [Job.spendsCap, running, paid]

theorem not_user_of_spendsCap (spends : job.spendsCap = true) : job.reason ≠ .user := by
  simp only [Job.spendsCap, Bool.and_eq_true, decide_eq_true_eq] at spends
  exact spends.1

/-- Only a claim makes a job count against an allowance of the day. -/
theorem Edit.startedIn (edit : Edit call id job later) (before : job.unstarted)
    (unclaimed : ∀ process target now options, call ≠ .claim process target now options)
    (counts : later.startedIn day hour target (some reasons) = true) :
    job.startedIn day hour target (some reasons) = true := by
  rw [startedIn_iff] at counts ⊢
  obtain ⟨same, ⟨at_, start, within⟩, spends, first, reason⟩ := counts
  have waiting (queued : job.state = .queued) (kept : job.startedAt = some at_) : False := by
    rw [before queued] at kept
    cases kept
  have worked (running : job.state = .running) (kept : later.reason = job.reason) : job.spendsCap = true :=
    spendsCap_of_running running (kept ▸ not_user_of_spendsCap spends)
  cases edit with
  | ranked | reranked => exact ⟨same, ⟨at_, start, within⟩, spends, first, reason⟩
  | asked _ _ _ _ _ _ queued => exact (waiting queued start).elim
  | skipped => simp [Job.spendsCap] at spends
  | held => cases start
  | retried _ _ _ _ claimed => exact ⟨same, ⟨at_, start, within⟩, worked claimed.1 rfl, first, reason⟩
  | reclaimed => cases start
  | started _ _ process target now options => exact absurd rfl (unclaimed process target now options)
  | finished _ _ _ _ _ _ _ claimed => exact ⟨same, ⟨at_, start, within⟩, worked claimed.1 rfl, first, reason⟩
  | cancelled => simp [Job.spendsCap] at spends
  | gaveUp _ _ _ _ _ lost =>
    simp only [isAbandoned, Bool.and_eq_true, decide_eq_true_eq] at lost
    exact ⟨same, ⟨at_, start, within⟩, worked lost.1 rfl, first, reason⟩
  | recovered => cases start

theorem Edits.startedIn (edits : Edits call id job later) (before : job.unstarted)
    (unclaimed : ∀ process target now options, call ≠ .claim process target now options)
    (counts : later.startedIn day hour target (some reasons) = true) :
    job.startedIn day hour target (some reasons) = true := by
  have both : job.unstarted ∧ (later.startedIn day hour target (some reasons) = true →
      job.startedIn day hour target (some reasons) = true) ∧ later.unstarted := by
    clear counts
    induction edits with
    | refl => exact ⟨before, fun counts => counts, before⟩
    | tail _ edit ih =>
      exact ⟨before, fun counts => ih.2.1 (edit.startedIn ih.2.2 unclaimed counts), edit.unstarted ih.2.2⟩
  exact both.2.1 counts

def Unstarted (s : Store) : Prop := ∀ id job, s.jobs.lookup id = some job → job.unstarted

theorem step_unstarted (calendar : Calendar) (call : Call) (before : Unstarted s) :
    Unstarted (call.apply calendar s) := by
  apply rows_keep calendar _ _ before
  · intro id job later edit
    exact edit.unstarted
  · intro job new _
    exact new.unstarted

theorem count_unclaimed (calendar : Calendar) (before : Unstarted s)
    (unclaimed : ∀ process target now options, call ≠ .claim process target now options) :
    (call.apply calendar s).jobs.count (Job.startedIn day hour target (some reasons)) ≤
      s.jobs.count (Job.startedIn day hour target (some reasons)) := by
  apply Table.count_le
  intro id job found counts
  have fate := fate calendar s call id
  rw [found] at fate
  generalize old : s.jobs.lookup id = row at fate
  cases fate with
  | inserted new =>
    obtain ⟨-, ⟨at_, start, -⟩, -⟩ := startedIn_iff.mp counts
    rw [new.unstarted] at start
    cases start
  | edited edits => exact ⟨_, rfl, edits.startedIn (before id _ old) unclaimed counts⟩

/-- A job that goes back to the queue gives its place in the day back. -/
theorem count_reclaimDead (process : Process) (s : Store) (from_ : String) :
    (reclaimDead process s from_).jobs.count (Job.startedIn day hour target (some reasons)) ≤
      s.jobs.count (Job.startedIn day hour target (some reasons)) := by
  apply Table.count_le
  intro id job found counts
  simp only [reclaimDead, Table.lookup_update] at found
  obtain ⟨old, here, same⟩ := Option.map_eq_some_iff.mp found
  refine ⟨old, here, ?_⟩
  unfold Job.reclaim at same
  split at same
  · subst same
    obtain ⟨-, ⟨at_, start, -⟩, -⟩ := startedIn_iff.mp counts
    cases start
  · rw [same]
    exact counts

/-- A claim adds the job it starts to the count, and that job only if it counts itself. -/
theorem count_claim {process : Process} {from_ : String} {now : Int} {options : ClaimOptions} {row : Row}
    (started : (claimAnalysis calendar process s from_ now options).2 = .started row) :
    (claimAnalysis calendar process s from_ now options).1.jobs.count (Job.startedIn day hour target (some reasons)) ≤
      (reclaimDead process s from_).jobs.count (Job.startedIn day hour target (some reasons)) +
        if row.2.startedIn day hour target (some reasons) = true then 1 else 0 := by
  obtain ⟨job, own, -, chosen, same, result⟩ := started_cases started
  have here := (claimChoice_spec chosen).1
  have others : ∀ id job, id ≠ row.1 →
      (claimAnalysis calendar process s from_ now options).1.jobs.lookup id = some job →
      (reclaimDead process s from_).jobs.lookup id = some job := by
    intro id job other found
    rw [result] at found
    simpa only [Store.updateJob, Table.lookup_update, other, if_false, Option.map_id'] using found
  split
  · apply Table.count_le_succ row.1
    intro id job other found counts
    exact ⟨job, others id job other found, counts⟩
  · rename_i uncounted
    apply Table.count_le
    intro id job found counts
    by_cases this : id = row.1
    · subst this
      rw [result] at found
      simp only [Store.updateJob, Table.lookup_update, here, Option.map_some, if_true] at found
      rw [← Option.some.inj found, ← same] at counts
      exact absurd counts uncounted
    · exact ⟨job, others id job this found, counts⟩

end Started

section Day

variable {target : String} {today : Int} {cap reserve newcomerCap : Nat}

/-- The first-hour window of the target stays as it is, and the claims of the day have the same caps. -/
def Steady (calendar : Calendar) (target : String) (today : Int) (cap reserve newcomerCap : Nat) (s : Store)
    (call : Call) : Prop :=
  firstHourWindow (call.apply calendar s) target = firstHourWindow s target ∧
  ∀ process now options, call = .claim process target now options →
    calendar.localDayBounds now = calendar.localDayBounds today →
    options.cap = cap ∧ options.reserve = reserve ∧
      options.newcomerCap.getD process.defaultNewcomerCap = newcomerCap

/-- A call of another day. -/
def NotOn (calendar : Calendar) (target : String) (today : Int) (_ : Store) (call : Call) : Prop :=
  ∀ process now options, call = .claim process target now options →
    calendar.localDayBounds now ≠ calendar.localDayBounds today

theorem same_bounds (calendar : Calendar) (now today : Int) :
    calendar.localDayBounds now = calendar.localDayBounds today ↔
      (calendar.localDayBounds today).1 ≤ now ∧ now < (calendar.localDayBounds today).2 := by
  constructor
  · intro same
    rw [← same]
    exact calendar.holds now
  · rintro ⟨after, before⟩
    exact calendar.same_day today now after before

/-- What a claim of the day checked before it started a job that counts. -/
theorem admitted_spec {process : Process} {now : Int} {options : ClaimOptions} {row : Row}
    (started : (claimAnalysis calendar process s target now options).2 = .started row)
    (first : row.2.inFirstHour (firstHourWindow s target) = false) :
    (row.2.reason = .new → (startedInDay calendar (reclaimDead process s target) target now
        (some newcomerReasons) : Int) < options.newcomerCap.getD process.defaultNewcomerCap) ∧
    (row.2.reason = .top15Stale → (startedInDay calendar (reclaimDead process s target) target now
        (some reanalysisReasons) : Int) < options.cap - options.reserve) ∧
    (row.2.reason = .report → (startedInDay calendar (reclaimDead process s target) target now
        (some reanalysisReasons) : Int) < options.cap) := by
  obtain ⟨job, own, -, chosen, same, -⟩ := started_cases started
  obtain ⟨-, -, -, admitted⟩ := claimChoice_spec chosen
  have reason : row.2.reason = job.reason := by rw [same]; rfl
  have hour : row.2.inFirstHour (firstHourWindow s target) =
      job.inFirstHour (firstHourWindow (reclaimDead process s target) target) := by rw [same]; rfl
  rw [hour] at first
  rw [reason]
  simp only [admits, first, Bool.and_false, Bool.or_false, allowanceUsed, Bool.and_eq_true] at admitted
  obtain ⟨-, admitted⟩ := admitted
  refine ⟨?_, ?_, ?_⟩
  · intro new
    simp only [new, decide_true, decide_false, reduceCtorEq, Bool.false_and, Bool.true_and, Bool.false_or,
      Bool.and_eq_true] at admitted
    exact of_decide_eq_true admitted.2
  · intro stale
    simp only [stale, decide_true, decide_false, reduceCtorEq, Bool.false_and, Bool.true_and, Bool.false_or,
      Bool.or_false, Bool.and_eq_true] at admitted
    exact of_decide_eq_true admitted.2
  · intro report
    simp only [report, decide_true, decide_false, reduceCtorEq, Bool.false_and, Bool.true_and, Bool.false_or,
      Bool.or_false, Bool.and_eq_true] at admitted
    exact of_decide_eq_true admitted.2

theorem claim_count_le {day hour : Int × Int} {reasons : List Reason} {process : Process} {from_ : String} {now : Int}
    {options : ClaimOptions} {limit : Nat}
    (few : s.jobs.count (Job.startedIn day hour target (some reasons)) ≤ limit)
    (room : ∀ row, (claimAnalysis calendar process s from_ now options).2 = .started row →
      row.2.startedIn day hour target (some reasons) = true →
      (reclaimDead process s from_).jobs.count (Job.startedIn day hour target (some reasons)) < limit) :
    (claimAnalysis calendar process s from_ now options).1.jobs.count
      (Job.startedIn day hour target (some reasons)) ≤ limit := by
  have back : (reclaimDead process s from_).jobs.count (Job.startedIn day hour target (some reasons)) ≤
      s.jobs.count (Job.startedIn day hour target (some reasons)) := count_reclaimDead process s from_
  cases result : (claimAnalysis calendar process s from_ now options).2 with
  | started row =>
    apply (count_claim result).trans
    split
    · rename_i counts
      exact room row result counts
    · exact back.trans few
  | raised | nothing =>
    rcases claim_cases calendar process s from_ now options with raised | nothing | ⟨id, job, own, -, -, started⟩
    · rw [raised]
      exact few
    · rw [nothing]
      exact back.trans few
    · rw [started] at result
      cases result

/-- The counts of the day, with the window that it has. -/
structure Within (calendar : Calendar) (target : String) (today : Int) (cap newcomerCap : Nat) (hour : Int × Int)
    (s : Store) : Prop where
  window : firstHourWindow s target = hour
  unstarted : Unstarted s
  newcomers : s.jobs.count (Job.startedIn (calendar.localDayBounds today) hour target (some newcomerReasons)) ≤
    newcomerCap
  reanalyses : s.jobs.count (Job.startedIn (calendar.localDayBounds today) hour target (some reanalysisReasons)) ≤ cap

/-- A job that counts was started by a claim of its target and of the day. -/
theorem counted_claim {hour : Int × Int} {reasons : List Reason} {process : Process} {from_ : String} {now : Int}
    {options : ClaimOptions} {row : Row}
    (started : (claimAnalysis calendar process s from_ now options).2 = .started row)
    (counts : row.2.startedIn (calendar.localDayBounds today) hour target (some reasons) = true) :
    from_ = target ∧ calendar.localDayBounds now = calendar.localDayBounds today ∧
      row.2.inFirstHour hour = false ∧ row.2.reason ∈ reasons := by
  obtain ⟨job, own, -, chosen, same, -⟩ := started_cases started
  obtain ⟨-, here, -, -⟩ := claimChoice_spec chosen
  obtain ⟨of, ⟨at_, start, within⟩, -, first, reason⟩ := startedIn_iff.mp counts
  rw [same] at of start
  cases start
  exact ⟨here.symm.trans of, (same_bounds calendar now today).mpr within, first, reason⟩

/-- Reading `startedInDay` on the store that a claim of the day looks at. -/
theorem startedInDay_eq {hour : Int × Int} (process : Process) (from_ : String) {now : Int} (reasons : List Reason)
    (window : firstHourWindow s target = hour)
    (same : calendar.localDayBounds now = calendar.localDayBounds today) :
    startedInDay calendar (reclaimDead process s from_) target now (some reasons) =
      (reclaimDead process s from_).jobs.count
        (Job.startedIn (calendar.localDayBounds today) hour target (some reasons)) := by
  have kept : firstHourWindow (reclaimDead process s from_) target = hour := window
  rw [startedInDay, kept, same]

theorem step_within {hour : Int × Int} (steady : Steady calendar target today cap reserve newcomerCap s call)
    (within : Within calendar target today cap newcomerCap hour s) :
    Within calendar target today cap newcomerCap hour (call.apply calendar s) := by
  have window := steady.1.trans within.window
  have unstarted := step_unstarted calendar call within.unstarted
  by_cases claim : ∃ process from_ now options, call = .claim process from_ now options
  · obtain ⟨process, from_, now, options, rfl⟩ := claim
    refine ⟨window, unstarted, claim_count_le within.newcomers ?_, claim_count_le within.reanalyses ?_⟩
    · intro row started counts
      obtain ⟨rfl, same, first, reason⟩ := counted_claim started counts
      obtain ⟨-, -, cap⟩ := steady.2 process now options rfl same
      rw [← within.window] at first
      have new : row.2.reason = .new := by simpa [newcomerReasons] using reason
      have below := (admitted_spec started first).1 new
      rw [startedInDay_eq process from_ newcomerReasons within.window same, cap] at below
      exact_mod_cast below
    · intro row started counts
      obtain ⟨rfl, same, first, reason⟩ := counted_claim started counts
      obtain ⟨whole, kept, -⟩ := steady.2 process now options rfl same
      rw [← within.window] at first
      have below := (admitted_spec started first).2
      rw [startedInDay_eq process from_ reanalysisReasons within.window same, whole, kept] at below
      have either : row.2.reason = .top15Stale ∨ row.2.reason = .report := by
        simpa [reanalysisReasons] using reason
      rcases either with stale | report
      · have := below.1 stale
        omega
      · exact_mod_cast below.2 report
  · have unclaimed : ∀ process target now options, call ≠ .claim process target now options := by
      intro process target now options same
      exact claim ⟨process, target, now, options, same⟩
    exact ⟨window, unstarted, (count_unclaimed calendar within.unstarted unclaimed).trans within.newcomers,
      (count_unclaimed calendar within.unstarted unclaimed).trans within.reanalyses⟩

/-- The job was not started on the day. -/
def Job.startedOff (calendar : Calendar) (target : String) (today : Int) (job : Job) : Prop :=
  job.target = target → ∀ start, job.startedAt = some start →
    calendar.localDayBounds start ≠ calendar.localDayBounds today

theorem Edit.startedOff (edit : Edit call id job later) (other : NotOn calendar target today s call)
    (before : job.startedOff calendar target today) : later.startedOff calendar target today := by
  intro same start started
  cases edit with
  | ranked | reranked | asked | skipped | retried | finished | cancelled | gaveUp => exact before same start started
  | held | reclaimed | recovered => cases started
  | started _ _ process from_ now options _ _ _ of =>
    cases started
    have here : from_ = target := of.symm.trans same
    subst here
    exact other process start options rfl

theorem step_startedOff (calendar : Calendar) (other : NotOn calendar target today s call)
    (before : ∀ id job, s.jobs.lookup id = some job → job.startedOff calendar target today) :
    ∀ id job, (call.apply calendar s).jobs.lookup id = some job → job.startedOff calendar target today := by
  apply rows_keep calendar _ _ before
  · intro id job later edit
    exact edit.startedOff other
  · intro job new _ start started
    rw [new.unstarted] at started
    cases started

theorem untouched_within (unstarted : Unstarted s)
    (off : ∀ id job, s.jobs.lookup id = some job → job.startedOff calendar target today) :
    Within calendar target today cap newcomerCap (firstHourWindow s target) s := by
  have none (reasons : List Reason) : s.jobs.count
      (Job.startedIn (calendar.localDayBounds today) (firstHourWindow s target) target (some reasons)) = 0 := by
    apply s.jobs.count_eq_zero.mpr
    intro id job found
    by_contra counts
    obtain ⟨same, ⟨start, started, within⟩, -⟩ := startedIn_iff.mp (by simpa using counts)
    exact off id job found same start started ((same_bounds calendar start today).mpr within)
  refine ⟨rfl, unstarted, ?_, ?_⟩
  · rw [none]
    exact Nat.zero_le _
  · rw [none]
    exact Nat.zero_le _

def oneNewcomer : ClaimOptions := { openOptions with cap := 1, reserve := 0, newcomerCap := some 1 }

def busyMorning : List Call :=
  [.enqueue "db" "p" .new 2 100 none, .enqueue "db" "q" .top15Stale 1 100 none,
    .claim (lonelyWorker "a" 1) "db" 200 oneNewcomer, .claim (lonelyWorker "a" 1) "db" 300 oneNewcomer]

end Day

end Rdst.Analysis
