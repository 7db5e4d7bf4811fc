import Rdst.Analysis.QueuePlan

namespace Rdst.Analysis

open RowTable Machine

section Order

/-- The order of the claims as one key. -/
def claimKey (row : Row) : ℕ ×ₗ ℚ ×ₗ ℤ ×ₗ ℕ :=
  toLex (row.2.reason.rank, toLex (-row.2.priority, toLex (row.2.enqueuedAt, row.1)))

theorem claimOrder_iff {a b : Row} : ClaimOrder a b ↔ claimKey a ≤ claimKey b := by
  simp only [claimKey, Prod.Lex.toLex_le_toLex, neg_lt_neg_iff, neg_inj, ClaimOrder, Heavier]

instance : Std.Total ClaimOrder :=
  ⟨fun a b => (le_total (claimKey a) (claimKey b)).imp claimOrder_iff.mpr claimOrder_iff.mpr⟩

instance : IsTrans Row ClaimOrder :=
  ⟨fun _ _ _ first second => claimOrder_iff.mpr ((claimOrder_iff.mp first).trans (claimOrder_iff.mp second))⟩

theorem same_id_of_claimOrder {a b : Row} (first : ClaimOrder a b) (second : ClaimOrder b a) : a.1 = b.1 := by
  have same := le_antisymm (claimOrder_iff.mp first) (claimOrder_iff.mp second)
  simp only [claimKey, EmbeddingLike.apply_eq_iff_eq, Prod.mk.injEq] at same
  exact same.2.2.2

end Order

section Queue

variable {calendar : Calendar} {s : Store} {target : String} {today : Int} {options : ClaimOptions}

theorem eq_of_mem_rows {a b : Row} (first : a ∈ s.jobs.rows) (second : b ∈ s.jobs.rows) (same : a.1 = b.1) : a = b := by
  have here := s.jobs.mem_rows_iff.mp first
  have there := s.jobs.mem_rows_iff.mp second
  rw [← same, here] at there
  exact Prod.ext same (Option.some.inj there)

theorem mem_queue {row : Row} : row ∈ s.queue target ↔
    s.jobs.lookup row.1 = some row.2 ∧ row.2.target = target ∧ row.2.state = .queued := by
  rw [Store.queue, List.mem_insertionSort, mem_inState]

theorem queue_nodup (s : Store) (target : String) : ((s.queue target).map Prod.fst).Nodup := by
  have sorted : ((s.queue target).map Prod.fst).Perm ((s.inState target .queued).map Prod.fst) :=
    (List.perm_insertionSort ClaimOrder _).map Prod.fst
  rw [sorted.nodup_iff]
  exact (List.filter_sublist.map Prod.fst).nodup s.jobs.rows_nodup

theorem queue_filter (s : Store) (target : String) (test : Row → Bool) :
    ((s.inState target .queued).filter test).insertionSort ClaimOrder = (s.queue target).filter test := by
  apply Greedy.insertionSort_filter
  intro a first b second before after
  exact eq_of_mem_rows (List.mem_of_mem_filter first) (List.mem_of_mem_filter second)
    (same_id_of_claimOrder before after)

/-- The conditions of a claim as a budget of the two allowances. -/
def admitsRow (options : ClaimOptions) (newcomerCap : Int) (hour : Int × Int) (allowance : Allowance) (row : Row) :
    Bool :=
  admits options newcomerCap allowance hour row.2

/-- What a started job takes from the allowances once it is done. -/
def spendRow (hour : Int × Int) (allowance : Allowance) (row : Row) : Allowance :=
  if row.2.reason = .user ∨ row.2.inFirstHour hour = true then allowance
  else if row.2.reason = .new then { allowance with newcomers := allowance.newcomers + 1 }
  else { allowance with used := allowance.used + 1 }

theorem claimChoice_eq {process : Process} {now newcomerCap : Int} (set : options.newcomerCap = some newcomerCap)
    (same : calendar.localDayBounds now = calendar.localDayBounds today) :
    claimChoice calendar process s target now options = (s.queue target).find?
      (admitsRow options newcomerCap (firstHourWindow s target) (allowanceUsed calendar s target today)) := by
  have used : allowanceUsed calendar s target now = allowanceUsed calendar s target today := by
    simp only [allowanceUsed, startedInDay, same]
  simp only [claimChoice, set, Option.getD_some, queue_filter, List.head?_filter, used]
  rfl

theorem reclaimDead_idle (process : Process) (idle : s.inState target .running = []) :
    reclaimDead process s target = s := by
  have kept : s.jobs.update (fun _ => Job.reclaim process target) = s.jobs := by
    apply Table.update_same
    intro row member
    apply if_neg
    rintro ⟨same, running, -⟩
    have listed : row ∈ s.inState target .running := List.mem_filter.mpr ⟨member, by simp [same, running]⟩
    rw [idle] at listed
    cases listed
  rw [reclaimDead, kept]

theorem room_of_idle {now : Int} (idle : s.inState target .running = []) : occupied s target now = false := by
  simp only [occupied, idle, List.length_nil, List.any_nil, Bool.and_false, Bool.or_false, decide_eq_false_iff_not]
  split
  · decide
  · decide

/-- The row of a job that was started and has run to its end. -/
def Job.completed (turn : Turn calendar today) (execute : Bool) (own : Option ℚ) (job : Job) : Job :=
  { job.start turn.process turn.now execute own with
    state := .done
    finishedAt := some turn.finishedAt
    error := turn.fields.error
    analysisRef := turn.fields.analysisRef
    mode := turn.fields.mode
    paramSource := turn.fields.paramSource
    billableCalls := some (job.billableCalls.getD 0 + turn.fields.billableCalls) }

theorem takeTurn_nothing {newcomerCap : Int} (set : options.newcomerCap = some newcomerCap)
    (idle : s.inState target .running = []) (turn : Turn calendar today)
    (none : (s.queue target).find? (admitsRow options newcomerCap (firstHourWindow s target)
      (allowanceUsed calendar s target today)) = none) :
    takeTurn options target s turn = (s, []) := by
  have nothing : claimAnalysis calendar turn.process s target turn.now options = (s, .nothing) := by
    simp only [claimAnalysis, reclaimDead_idle turn.process idle, room_of_idle idle, Bool.false_eq_true, if_false,
      claimChoice_eq set turn.sameDay, none]
  rw [takeTurn, nothing]

theorem takeTurn_started {newcomerCap : Int} (set : options.newcomerCap = some newcomerCap)
    (idle : s.inState target .running = []) (turn : Turn calendar today) {row : Row}
    (found : (s.queue target).find? (admitsRow options newcomerCap (firstHourWindow s target)
      (allowanceUsed calendar s target today)) = some row) :
    ∃ own, takeTurn options target s turn =
      (s.updateJob row.1 (Job.completed turn (s.executes target) own), [row.1]) := by
  obtain ⟨own, knows⟩ := Option.isSome_iff_exists.mp turn.knowsStart
  refine ⟨own, ?_⟩
  have started : claimAnalysis calendar turn.process s target turn.now options =
      (s.updateJob row.1 (Job.start turn.process turn.now (s.executes target) own),
        .started (row.1, row.2.start turn.process turn.now (s.executes target) own)) := by
    simp only [claimAnalysis, reclaimDead_idle turn.process idle, room_of_idle idle, Bool.false_eq_true, if_false,
      claimChoice_eq set turn.sameDay, found, knows]
  have here := (mem_queue.mp (List.mem_of_find?_eq_some found)).1
  simp only [takeTurn, started, finishAnalysis, Store.updateClaimed, Store.updateJob, Table.update_update, Prod.mk.injEq,
    and_true]
  congr 1
  apply Table.update_congr
  intro other member
  by_cases same : other.1 = row.1
  · have job : other.2 = row.2 := by
      have there := s.jobs.mem_rows_iff.mp member
      rw [same, here] at there
      exact (Option.some.inj there).symm
    have claimed : (other.2.start turn.process turn.now (s.executes target) own).claimedBy
        turn.process.collectorProcess (row.2.start turn.process turn.now (s.executes target) own).attempt := by
      rw [job]
      exact ⟨rfl, rfl, rfl⟩
    simp only [same, if_true, claimed]
    rfl
  · simp only [same, if_false]

variable {row : Row} {turn : Turn calendar today} {execute : Bool} {own : Option ℚ}

theorem completed_inState {state : JobState} (other : state ≠ .done) :
    (s.updateJob row.1 (Job.completed turn execute own)).inState target state =
      (s.inState target state).filter fun waiting => waiting.1 ≠ row.1 := by
  apply Table.filter_update_one
  intro job _
  have done : (job.completed turn execute own).state = .done := rfl
  simp [done, Ne.symm other]

theorem completed_idle (idle : s.inState target .running = []) :
    (s.updateJob row.1 (Job.completed turn execute own)).inState target .running = [] := by
  rw [completed_inState (by decide), idle]
  rfl

theorem completed_queue :
    (s.updateJob row.1 (Job.completed turn execute own)).queue target =
      (s.queue target).filter fun waiting => waiting.1 ≠ row.1 := by
  rw [Store.queue, completed_inState (by decide), queue_filter]

theorem completed_unstarted (unstarted : Unstarted s) :
    Unstarted (s.updateJob row.1 (Job.completed turn execute own)) := by
  intro id job found
  simp only [Store.updateJob, Table.lookup_update] at found
  obtain ⟨before, here, same⟩ := Option.map_eq_some_iff.mp found
  by_cases this : id = row.1
  · rw [if_pos this] at same
    subst same
    intro queued
    cases queued
  · rw [if_neg this] at same
    rw [← same]
    exact unstarted id before here

/-- A completed job counts against its allowance, where it has one. -/
theorem completed_startedIn {hour : Int × Int} {reasons : List Reason} {job : Job} (of : job.target = target) :
    (job.completed turn execute own).startedIn (calendar.localDayBounds today) hour target (some reasons) = true ↔
      job.reason ≠ .user ∧ job.inFirstHour hour = false ∧ job.reason ∈ reasons := by
  have within := (same_bounds calendar turn.now today).mp turn.sameDay
  rw [startedIn_iff]
  constructor
  · rintro ⟨-, -, spends, first, reason⟩
    have paid : (job.completed turn execute own).reason ≠ .user := not_user_of_spendsCap spends
    exact ⟨paid, first, reason⟩
  · rintro ⟨paid, first, reason⟩
    refine ⟨of, ⟨turn.now, rfl, within⟩, ?_, first, reason⟩
    have kept : (job.completed turn execute own).reason = job.reason := rfl
    have done : (job.completed turn execute own).state = .done := rfl
    simp [Job.spendsCap, kept, done, paid]

theorem completed_count (unstarted : Unstarted s) (waiting : row ∈ s.queue target) (reasons : List Reason) :
    startedInDay calendar (s.updateJob row.1 (Job.completed turn execute own)) target today (some reasons) =
      startedInDay calendar s target today (some reasons) +
        if row.2.reason ≠ .user ∧ row.2.inFirstHour (firstHourWindow s target) = false ∧ row.2.reason ∈ reasons
        then 1 else 0 := by
  obtain ⟨here, of, queued⟩ := mem_queue.mp waiting
  have uncounted : row.2.startedIn (calendar.localDayBounds today) (firstHourWindow s target) target
      (some reasons) = false := by
    by_contra counts
    obtain ⟨-, ⟨at_, start, -⟩, -⟩ := startedIn_iff.mp (by simpa using counts)
    rw [unstarted row.1 row.2 here queued] at start
    cases start
  have one : (s.updateJob row.1 (Job.completed turn execute own)).jobs.count (Job.startedIn
      (calendar.localDayBounds today) (firstHourWindow s target) target (some reasons)) = _ :=
    Table.count_update_one here uncounted
  simp only [completed_startedIn of] at one
  exact one

theorem completed_allowance (unstarted : Unstarted s) (waiting : row ∈ s.queue target) :
    allowanceUsed calendar (s.updateJob row.1 (Job.completed turn execute own)) target today =
      spendRow (firstHourWindow s target) (allowanceUsed calendar s target today) row := by
  simp only [allowanceUsed, completed_count unstarted waiting, spendRow]
  cases reason : row.2.reason <;> cases row.2.inFirstHour (firstHourWindow s target) <;>
    simp [reanalysisReasons, newcomerReasons]

/-- The claims of the day start what the first admitted choice takes again and again. -/
theorem turns_eq {newcomerCap : Int} (set : options.newcomerCap = some newcomerCap)
    (idle : s.inState target .running = []) (unstarted : Unstarted s) (turns : List (Turn calendar today)) :
    (exec (takeTurn options target) s turns).2 =
      (Greedy.choices (admitsRow options newcomerCap (firstHourWindow s target)) (spendRow (firstHourWindow s target))
        Prod.fst turns.length (allowanceUsed calendar s target today) (s.queue target)).map Prod.fst := by
  induction turns generalizing s with
  | nil => rfl
  | cons turn rest ih =>
    simp only [exec_cons, List.length_cons, Greedy.choices]
    cases found : (s.queue target).find? (admitsRow options newcomerCap (firstHourWindow s target)
      (allowanceUsed calendar s target today)) with
    | none =>
      have nothing := takeTurn_nothing set idle turn found
      have others := ih idle unstarted
      rw [nothing, others, Greedy.choices_none found]
      rfl
    | some row =>
      have waiting := List.mem_of_find?_eq_some found
      obtain ⟨own, started⟩ := takeTurn_started set idle turn found
      have window : firstHourWindow (s.updateJob row.1 (Job.completed turn (s.executes target) own)) target =
          firstHourWindow s target := rfl
      rw [started, ih (completed_idle idle) (completed_unstarted unstarted), window, completed_queue,
        completed_allowance unstarted waiting]
      rfl

end Queue

section Plan

variable {desk : Desk} {hour : Int × Int} {allowance : Allowance} {row : Row}

theorem admits_mono {options : ClaimOptions} {newcomerCap : Int} {less : Allowance} {job : Job}
    (used : less.used ≤ allowance.used) (newcomers : less.newcomers ≤ allowance.newcomers)
    (admitted : admits options newcomerCap allowance hour job = true) :
    admits options newcomerCap less hour job = true := by
  simp only [admits, Bool.and_eq_true, Bool.or_eq_true, decide_eq_true_eq] at admitted ⊢
  refine ⟨admitted.1, ?_⟩
  rcases admitted.2 with (((user | report) | stale) | new) | first
  · exact .inl (.inl (.inl (.inl user)))
  · exact .inl (.inl (.inl (.inr ⟨report.1, report.2.1, by omega⟩)))
  · exact .inl (.inl (.inr ⟨stale.1, stale.2.1, by omega⟩))
  · exact .inl (.inr ⟨new.1, new.2.1, by omega⟩)
  · exact .inr first

theorem spendRow_le (hour : Int × Int) (allowance : Allowance) (row : Row) :
    allowance.used ≤ (spendRow hour allowance row).used ∧
      allowance.newcomers ≤ (spendRow hour allowance row).newcomers := by
  unfold spendRow
  split
  · exact ⟨Nat.le_refl _, Nat.le_refl _⟩
  · split <;> simp

/-- What makes the plan hold a job, whatever the allowances are. -/
def Desk.holds (desk : Desk) (job : Job) : Prop :=
  (desk.signedIn = false ∧ (job.reason ≠ .user ∨ desk.ownKey = false)) ∨
  (job.reason ≠ .user ∧ desk.enabled = false) ∨ (job.reason ≠ .user ∧ job.queryKey ∉ desk.eligible) ∨
  (job.reason ≠ .user ∧ (desk.signedIn && desk.paused) = true) ∨
  (job.reason ∈ automaticReasons ∧ desk.deepAnalysis = false)

instance (desk : Desk) (job : Job) : Decidable (desk.holds job) :=
  inferInstanceAs (Decidable (_ ∨ _ ∨ _ ∨ _ ∨ _))

/-- The conditions of the plan over the same budget as the claims'. -/
def planAdmits (desk : Desk) (hour : Int × Int) (allowance : Allowance) (row : Row) : Bool :=
  let first := row.2.inFirstHour hour
  let newcomer := decide (row.2.reason ∈ newcomerReasons) && !first
  let limit := if row.2.reason ∈ automaticReasons then desk.cap - reportReserve desk.cap else desk.cap
  !decide (desk.holds row.2) && (row.2.reason = .user || first ||
    (newcomer && decide ((allowance.newcomers : Int) < desk.newcomerCap)) ||
    (!newcomer && decide ((allowance.used : Int) < limit)))

/-- The plan and the claim differ on report jobs while monitoring is off, and on nothing else. -/
theorem admits_eq_plan (fine : row.2.reason = .report → row.2.queryKey ∈ desk.eligible → desk.signedIn = true →
      desk.enabled = false → desk.aiHeld = false → ¬ (allowance.used : Int) < desk.cap) :
    admitsRow desk.claimOptions desk.newcomerCap hour allowance row = planAdmits desk hour allowance row := by
  obtain ⟨id, job⟩ := row
  have first : job.inFirstHour hour = true → job.reason = .new ∨ job.reason = .top15Stale := by
    intro first
    simp only [Job.inFirstHour, automaticReasons, List.mem_cons, List.not_mem_nil, or_false, decide_eq_true_eq] at first
    exact first.1
  have kinds : job.reason = .user ∨ job.reason = .report ∨ job.reason = .top15Stale ∨ job.reason = .new := by
    cases job.reason <;> simp
  rw [Bool.eq_iff_iff]
  simp only [admitsRow, planAdmits, admits, Bool.and_eq_true, Bool.or_eq_true, Bool.not_eq_true', decide_eq_true_eq,
    decide_eq_false_iff_not]
  simp only [Desk.claimOptions, Desk.holds, Desk.paused, Bool.and_eq_true, Bool.or_eq_true, Bool.not_eq_true']
  rcases kinds with user | report | stale | new
  · simp [user, automaticReasons] at first ⊢
    cases desk.signedIn <;> simp [first]
  · simp [report, automaticReasons, newcomerReasons] at fine first ⊢
    grind
  · simp [stale, automaticReasons, newcomerReasons]
    tauto
  · simp [new, automaticReasons, newcomerReasons]
    cases job.inFirstHour hour <;> simp <;> tauto

variable {facts : Budget} {firstStart average : Int} {walk : Walk}

/-- The counters of the walk are those of the budget. -/
structure Counts (desk : Desk) (facts : Budget) (walk : Walk) (allowance : Allowance) : Prop where
  cap : facts.cap = desk.cap
  reserved : facts.reserved = reportReserve desk.cap
  started : walk.started = allowance.used
  newcomersLeft : walk.newcomersLeft = max 0 (desk.newcomerCap - allowance.newcomers)

/-- Whether the allowances leave room for a job that nothing else holds. -/
def hasRoom (facts : Budget) (hour : Int × Int) (walk : Walk) (job : Job) : Prop :=
  let newcomer := decide (job.reason ∈ newcomerReasons) && !job.inFirstHour hour
  let limit := if decide (job.reason ∈ automaticReasons) = true then facts.cap - facts.reserved else facts.cap
  job.reason = .user ∨ job.inFirstHour hour = true ∨ (newcomer = true ∧ 0 < walk.newcomersLeft) ∨
    (newcomer = false ∧ walk.started < limit)

theorem planJob_held (facts : Budget) (hour : Int × Int) (firstStart average : Int) (walk : Walk)
    (held : desk.holds row.2) :
    ∃ reason text, planJob desk facts hour firstStart average walk row = walk.hold row.1 reason text := by
  unfold planJob
  simp only
  split
  · exact ⟨_, _, rfl⟩
  split
  · exact ⟨_, _, rfl⟩
  split
  · exact ⟨_, _, rfl⟩
  split
  · exact ⟨_, _, rfl⟩
  split
  · exact ⟨_, _, rfl⟩
  · rename_i signed monitored tracked ai automatic
    rcases held with unsigned | unmonitored | untracked | held | off
    · exact absurd unsigned signed
    · exact absurd unmonitored monitored
    · exact absurd untracked tracked
    · exact absurd held ai
    · exact absurd ⟨by simpa using off.1, off.2⟩ automatic

theorem planJob_free (facts : Budget) (hour : Int × Int) (firstStart average : Int) (walk : Walk)
    (free : ¬ desk.holds row.2) :
    (¬ hasRoom facts hour walk row.2 ∧ ∃ reason text,
      planJob desk facts hour firstStart average walk row = walk.hold row.1 reason text) ∨
    (hasRoom facts hour walk row.2 ∧ planJob desk facts hour firstStart average walk row =
      let newcomer := decide (row.2.reason ∈ newcomerReasons) && !row.2.inFirstHour hour
      { position := walk.position + 1
        started := if newcomer = false ∧ row.2.reason ≠ .user ∧ row.2.inFirstHour hour = false then walk.started + 1
          else walk.started
        newcomersLeft := if newcomer = true then walk.newcomersLeft - 1 else walk.newcomersLeft
        jobs := walk.jobs ++ [(row.1, .today (walk.position + 1) (firstStart + walk.position * average))] }) := by
  unfold planJob
  simp only
  split
  · rename_i unsigned
    exact absurd (.inl unsigned) free
  split
  · rename_i unmonitored
    exact absurd (.inr (.inl unmonitored)) free
  split
  · rename_i untracked
    exact absurd (.inr (.inr (.inl untracked))) free
  split
  · rename_i held
    exact absurd (.inr (.inr (.inr (.inl held)))) free
  split
  · rename_i off
    exact absurd (.inr (.inr (.inr (.inr ⟨of_decide_eq_true off.1, off.2⟩)))) free
  by_cases room : hasRoom facts hour walk row.2
  · right
    exact ⟨room, if_pos room⟩
  · left
    exact ⟨room, _, _, if_neg room⟩

theorem hasRoom_iff (counts : Counts desk facts walk allowance) (free : ¬ desk.holds row.2) :
    hasRoom facts hour walk row.2 ↔ planAdmits desk hour allowance row = true := by
  have left : 0 < walk.newcomersLeft ↔ (allowance.newcomers : Int) < desk.newcomerCap := by
    rw [counts.newcomersLeft]
    omega
  simp only [hasRoom, planAdmits, free, decide_false, Bool.not_false, Bool.true_and, Bool.or_eq_true,
    Bool.and_eq_true, decide_eq_true_eq, Bool.not_eq_true', left, counts.cap, counts.reserved, counts.started]
  tauto

/-- The counters follow the budget that the taken jobs spend. -/
theorem counts_spend (counts : Counts desk facts walk allowance) (room : hasRoom facts hour walk row.2)
    {position : Nat} {jobs : List (Nat × Place)} :
    let newcomer := decide (row.2.reason ∈ newcomerReasons) && !row.2.inFirstHour hour
    Counts desk facts ⟨position,
      if newcomer = false ∧ row.2.reason ≠ .user ∧ row.2.inFirstHour hour = false then walk.started + 1
        else walk.started,
      if newcomer = true then walk.newcomersLeft - 1 else walk.newcomersLeft, jobs⟩ (spendRow hour allowance row) := by
  intro newcomer
  have kinds : row.2.reason = .user ∨ row.2.reason = .report ∨ row.2.reason = .top15Stale ∨ row.2.reason = .new := by
    cases row.2.reason <;> simp
  refine ⟨counts.cap, counts.reserved, ?_, ?_⟩
  · simp only [newcomer, counts.started, spendRow]
    rcases kinds with reason | reason | reason | reason <;> cases row.2.inFirstHour hour <;>
      simp [reason, newcomerReasons]
  · simp only [newcomer, counts.newcomersLeft, spendRow]
    have left : row.2.reason = .new → row.2.inFirstHour hour = false → 0 < walk.newcomersLeft := by
      intro new first
      simpa [hasRoom, new, first, newcomerReasons] using room
    rw [counts.newcomersLeft] at left
    rcases kinds with reason | reason | reason | reason <;> cases first : row.2.inFirstHour hour <;>
      simp [reason, newcomerReasons]
    have positive := left reason first
    omega

/-- The plan holds a job, or gives it the next position and takes its part of the allowance. -/
theorem planJob_cases (hour : Int × Int) (firstStart average : Int) (row : Row)
    (counts : Counts desk facts walk allowance) :
    (planAdmits desk hour allowance row = false ∧ ∃ reason text,
      planJob desk facts hour firstStart average walk row = walk.hold row.1 reason text) ∨
    (planAdmits desk hour allowance row = true ∧ ∃ start,
      (planJob desk facts hour firstStart average walk row).position = walk.position + 1 ∧
      (planJob desk facts hour firstStart average walk row).jobs =
        walk.jobs ++ [(row.1, .today (walk.position + 1) start)] ∧
      Counts desk facts (planJob desk facts hour firstStart average walk row) (spendRow hour allowance row)) := by
  by_cases held : desk.holds row.2
  · left
    exact ⟨by simp [planAdmits, held], planJob_held facts hour firstStart average walk held⟩
  · rcases planJob_free facts hour firstStart average walk held with ⟨full, same⟩ | ⟨room, same⟩
    · left
      rw [hasRoom_iff counts held] at full
      exact ⟨by simpa using full, same⟩
    · right
      have admitted := (hasRoom_iff counts held).mp room
      rw [same]
      exact ⟨admitted, _, rfl, rfl, counts_spend counts room⟩

/-- What the plan says of a list of waiting jobs, when the walk has come to a position. -/
structure Planned (desk : Desk) (hour : Int × Int) (allowance : Allowance) (position : Nat) (rows : List Row)
    (jobs : List (Nat × Place)) : Prop where
  ids : jobs.map Prod.fst = rows.map Prod.fst
  today : (jobs.filterMap scheduled).map Prod.snd =
    (Greedy.walk (planAdmits desk hour) (spendRow hour) allowance rows).map Prod.fst
  sorted : (jobs.filterMap scheduled).Pairwise fun a b => a.1 ≤ b.1
  later : ∀ item ∈ jobs.filterMap scheduled, position < item.1

theorem plan_fold (hour : Int × Int) (firstStart average : Int) (rows : List Row)
    (counts : Counts desk facts walk allowance) :
    ∃ jobs, (rows.foldl (planJob desk facts hour firstStart average) walk).jobs = walk.jobs ++ jobs ∧
      Planned desk hour allowance walk.position rows jobs := by
  induction rows generalizing walk allowance with
  | nil => exact ⟨[], (List.append_nil _).symm, rfl, rfl, List.Pairwise.nil, by simp⟩
  | cons row rest ih =>
    rw [List.foldl_cons]
    rcases planJob_cases hour firstStart average row counts with
      ⟨refused, reason, text, same⟩ | ⟨admitted, start, position, added, counts'⟩
    · have kept : Counts desk facts (walk.hold row.1 reason text) allowance :=
        ⟨counts.cap, counts.reserved, counts.started, counts.newcomersLeft⟩
      obtain ⟨jobs, all, planned⟩ := ih kept
      refine ⟨(row.1, .held reason text) :: jobs, ?_, ?_, ?_, planned.sorted, planned.later⟩
      · rw [same, all, Walk.hold, List.append_assoc, List.singleton_append]
      · rw [List.map_cons, List.map_cons, planned.ids]
      · rw [Greedy.walk, if_neg (by simp [refused])]
        exact planned.today
    · obtain ⟨jobs, all, planned⟩ := ih counts'
      rw [position] at planned
      refine ⟨(row.1, .today (walk.position + 1) start) :: jobs, ?_, ?_, ?_, ?_, ?_⟩
      · rw [all, added, List.append_assoc, List.singleton_append]
      · rw [List.map_cons, List.map_cons, planned.ids]
      · rw [Greedy.walk, if_pos admitted, List.map_cons, ← planned.today]
        rfl
      · apply List.pairwise_cons.mpr
        refine ⟨?_, planned.sorted⟩
        intro item member
        have after := planned.later item member
        show walk.position + 1 ≤ item.1
        omega
      · intro item member
        rcases List.mem_cons.mp member with rfl | inside
        · exact Nat.lt_succ_self _
        · have after := planned.later item inside
          omega

variable {calendar : Calendar} {s : Store} {target : String} {now : Int}

theorem plan_today (calendar : Calendar) (s : Store) (target : String) (now : Int) (desk : Desk) :
    (queuePlan calendar s target now desk).today =
      (Greedy.walk (planAdmits desk (s.firstHour target)) (spendRow (s.firstHour target))
        (allowanceUsed calendar s target now) (s.queue target)).map Prod.fst ∧
    ∀ id reason text, (id, .held reason text) ∈ (queuePlan calendar s target now desk).jobs →
      id ∉ (queuePlan calendar s target now desk).today := by
  have counts : Counts desk (budget calendar s target now desk)
      ⟨0, (budget calendar s target now desk).used, (budget calendar s target now desk).newcomerLeft, []⟩
      (allowanceUsed calendar s target now) := ⟨rfl, rfl, rfl, rfl⟩
  obtain ⟨jobs, same, planned⟩ : ∃ jobs, (queuePlan calendar s target now desk).jobs = jobs ∧
      Planned desk (s.firstHour target) (allowanceUsed calendar s target now) 0 (s.queue target) jobs :=
    plan_fold _ _ _ _ counts
  have today : (queuePlan calendar s target now desk).today = (jobs.filterMap scheduled).map Prod.snd := by
    rw [QueuePlan.today, same, planned.sorted.insertionSort_eq]
  refine ⟨today.trans planned.today, ?_⟩
  intro id reason text held inside
  rw [today] at inside
  obtain ⟨item, member, rfl⟩ := List.mem_map.mp inside
  obtain ⟨⟨id, place⟩, listed, slot⟩ := List.mem_filterMap.mp member
  cases place with
  | held => cases slot
  | today position start =>
    cases slot
    rw [same] at held
    have distinct : (jobs.map Prod.fst).Nodup := planned.ids ▸ queue_nodup s target
    have equal := List.inj_on_of_nodup_map distinct held listed rfl
    cases equal

end Plan

section Followed

variable {calendar : Calendar} {s : Store} {target : String} {now : Int} {desk : Desk}

/-- A report job that the plan holds because monitoring is off, though the claims would start it. -/
def ReportSlips (calendar : Calendar) (s : Store) (target : String) (now : Int) (desk : Desk) : Prop :=
  desk.signedIn = true ∧ desk.enabled = false ∧ desk.aiHeld = false ∧
    (startedInDay calendar s target now (some reanalysisReasons) : Int) < desk.cap ∧
    ∃ row ∈ s.queue target, row.2.reason = .report ∧ row.2.queryKey ∈ desk.eligible

theorem turns_walk (idle : s.inState target .running = []) (unstarted : Unstarted s)
    (turns : List (Turn calendar now)) :
    (exec (takeTurn desk.claimOptions target) s turns).2 =
      ((Greedy.walk (admitsRow desk.claimOptions desk.newcomerCap (firstHourWindow s target))
        (spendRow (firstHourWindow s target)) (allowanceUsed calendar s target now) (s.queue target)).map
          Prod.fst).take turns.length := by
  have shrinks : ∀ allowance row other,
      admitsRow desk.claimOptions desk.newcomerCap (firstHourWindow s target)
        (spendRow (firstHourWindow s target) allowance row) other = true →
      admitsRow desk.claimOptions desk.newcomerCap (firstHourWindow s target) allowance other = true := by
    intro allowance row other
    have grows := spendRow_le (firstHourWindow s target) allowance row
    exact admits_mono grows.1 grows.2
  rw [turns_eq rfl idle unstarted, Greedy.choices_eq_walk shrinks (queue_nodup s target), List.map_take]

/-- Where no report job slips, the claims and the plan admit the same jobs at every budget that is reached. -/
theorem same_walks (recorded : s.firstHour target = firstHourWindow s target)
    (fine : ¬ ReportSlips calendar s target now desk) :
    Greedy.walk (admitsRow desk.claimOptions desk.newcomerCap (firstHourWindow s target))
        (spendRow (firstHourWindow s target)) (allowanceUsed calendar s target now) (s.queue target) =
      Greedy.walk (planAdmits desk (s.firstHour target)) (spendRow (s.firstHour target))
        (allowanceUsed calendar s target now) (s.queue target) := by
  rw [recorded]
  apply Greedy.walk_congr fun allowance => (allowanceUsed calendar s target now).used ≤ allowance.used
  · intro allowance within row member
    apply admits_eq_plan
    intro report eligible signed off unheld left
    have earlier : (startedInDay calendar s target now (some reanalysisReasons) : Int) ≤ allowance.used := by
      exact_mod_cast within
    exact fine ⟨signed, off, unheld, by omega, row, member, report, eligible⟩
  · intro allowance row within _
    exact within.trans (spendRow_le _ allowance row).1
  · exact Nat.le_refl _

/-- With monitoring off the plan has clicks only. -/
theorem user_of_planned {hour : Int × Int} {allowance : Allowance} {row : Row} (off : desk.enabled = false)
    (planned : planAdmits desk hour allowance row = true) : row.2.reason = .user := by
  by_contra automatic
  have held : desk.holds row.2 := .inr (.inl ⟨automatic, off⟩)
  simp [planAdmits, held] at planned

/-- A report job that slips is started by the claims and held by the plan. -/
theorem slipped (idle : s.inState target .running = []) (unstarted : Unstarted s)
    (slips : ReportSlips calendar s target now desk)
    (follows : ∀ turns : List (Turn calendar now), (exec (takeTurn desk.claimOptions target) s turns).2 =
      (queuePlan calendar s target now desk).today.take turns.length) : False := by
  obtain ⟨signed, off, unheld, left, row, waiting, report, eligible⟩ := slips
  let turn : Turn calendar now := ⟨lonelyWorker "a" 1, now, ⟨none, none, none, none, 0⟩, now, rfl, rfl⟩
  have long := follows (List.replicate (s.queue target).length turn)
  rw [turns_walk idle unstarted, (plan_today calendar s target now desk).1, List.length_replicate] at long
  have short {admits : Allowance → Row → Bool} {spend : Allowance → Row → Allowance} :
      ((Greedy.walk admits spend (allowanceUsed calendar s target now) (s.queue target)).map Prod.fst).length ≤
        (s.queue target).length := by
    rw [List.length_map]
    exact (Greedy.walk_sublist _ _).length_le
  rw [List.take_of_length_le short, List.take_of_length_le short] at long
  have users : ∀ other ∈ Greedy.walk (admitsRow desk.claimOptions desk.newcomerCap (firstHourWindow s target))
      (spendRow (firstHourWindow s target)) (allowanceUsed calendar s target now) (s.queue target),
      other.2.reason = .user := by
    intro other taken
    have listed := List.mem_map_of_mem (f := Prod.fst) taken
    rw [long] at listed
    obtain ⟨twin, planned, same⟩ := List.mem_map.mp listed
    have equal : twin = other :=
      List.inj_on_of_nodup_map (queue_nodup s target) ((Greedy.walk_sublist _ _).subset planned)
        ((Greedy.walk_sublist _ _).subset taken) same
    obtain ⟨allowance, admitted⟩ := Greedy.admitted_of_mem planned
    rw [← equal]
    exact user_of_planned off admitted
  have free : ∀ other ∈ Greedy.walk (admitsRow desk.claimOptions desk.newcomerCap (firstHourWindow s target))
      (spendRow (firstHourWindow s target)) (allowanceUsed calendar s target now) (s.queue target),
      ∀ allowance, spendRow (firstHourWindow s target) allowance other = allowance := by
    intro other taken allowance
    rw [spendRow, if_pos (.inl (users other taken))]
  have admitted : admitsRow desk.claimOptions desk.newcomerCap (firstHourWindow s target)
      (allowanceUsed calendar s target now) row = true := by
    have room : ((allowanceUsed calendar s target now).used : Int) < desk.cap := left
    simp [admitsRow, admits, Desk.claimOptions, Desk.paused, report, signed, unheld, eligible, room]
  have clicked := users row (Greedy.mem_walk free waiting admitted)
  rw [report] at clicked
  cases clicked

/-- A desk with everything on. -/
def openDesk : Desk where
  signedIn := true
  ownKey := false
  enabled := true
  deepAnalysis := true
  aiHeld := false
  cap := 10
  newcomerCap := 5
  eligible := ["p", "q", "r"]

def mixedQueue : List Call :=
  [.enqueue "db" "p" .report 1 100 none, .enqueue "db" "q" .user 1 100 none, .enqueue "db" "r" .new 1 100 none]

def oneTurn : Turn Calendar.utc 200 := ⟨lonelyWorker "a" 1, 200, ⟨none, none, none, none, 0⟩, 300, rfl, rfl⟩

end Followed

end Rdst.Analysis
