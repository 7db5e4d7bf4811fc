import Rdst.Reports.Retries

namespace Rdst.Reports

open RowTable Machine

variable {Narrative : Type*} {d d' : Desk Narrative} {trace : List RetryEvent}

def RetryEvent.isFailure (id : Nat) : RetryEvent → Bool
  | .failed reportId _ => reportId = id
  | .succeeded _ _ => false

/-- How many retries of a report failed. -/
def failures (id : Nat) (trace : List RetryEvent) : Nat := trace.countP (RetryEvent.isFailure id)

/-- No retry that was planned earlier fails after one has succeeded. -/
def InOrder (trace : List RetryEvent) : Prop :=
  trace.Pairwise fun before after => ∀ id m n, before = .succeeded id m → after = .failed id n → m ≤ n

/-- The copy cannot be that of the row any more. -/
def Outdated (copy report : StoredReport Narrative) : Prop :=
  report.narrativeError = none ∧ copy.narrativeError ≠ none ∨ copy.narrativeRetryCount < report.narrativeRetryCount

/-- What holds of a retry under way beside the report of its row. -/
structure Retry.Fits (r : Retry Narrative) (report : StoredReport Narrative) : Prop where
  few : r.report.narrativeRetryCount < narrativeRetryLimit
  known : r.report.narrativeRetryCount ≤ report.narrativeRetryCount
  failing : r.stage ≠ .filing → r.report.narrativeError ≠ none
  filing : r.stage = .filing → r.report = report ∨ r.report.narrativeRetryCount < report.narrativeRetryCount
  told : r.stage = .filing → r.report.narrativeError = none

structure Desk.Sane (d : Desk Narrative) (trace : List RetryEvent) : Prop where
  counted : ∀ id report, d.report id = some report →
    failures id trace = report.narrativeRetryCount ∧ report.narrativeRetryCount ≤ narrativeRetryLimit
  absent : ∀ id, d.report id = none → failures id trace = 0
  fits : ∀ r ∈ d.retries, r.number < d.planned ∧ ∃ report, d.report r.reportId = some report ∧ r.Fits report
  numbered : ∀ id m, .succeeded id m ∈ trace → m < d.planned
  outdated : ∀ id m, .succeeded id m ∈ trace → ∀ r ∈ d.retries, r.reportId = id → r.number < m →
    ∀ report, d.report id = some report → Outdated r.report report
  ordered : InOrder trace

theorem report_write {id other : Nat} {old report : StoredReport Narrative} {provisional : Bool} {calls : Nat} {time : Int}
    (there : d.report id = some old) :
    (d.write id report provisional calls time).report other = if other = id then some report else d.report other := by
  unfold Desk.report at there ⊢
  cases found : d.rows.lookup id with
  | none => simp [found] at there
  | some row =>
    simp only [Desk.write, updateReport, found, Option.map_some, Option.getD_some, lookup_change]
    by_cases here : other = id
    · subst here
      simp [found, ReportRow.updated]
    · simp [here]

@[simp] theorem write_retries (d : Desk Narrative) (id : Nat) (report : StoredReport Narrative) (provisional : Bool)
    (calls : Nat) (time : Int) : (d.write id report provisional calls time).retries = d.retries := rfl

@[simp] theorem write_planned (d : Desk Narrative) (id : Nat) (report : StoredReport Narrative) (provisional : Bool)
    (calls : Nat) (time : Int) : (d.write id report provisional calls time).planned = d.planned := rfl

/-- A step that leaves the reports and adds no retry. -/
theorem Desk.Sane.kept (sane : d.Sane trace) (reports : ∀ id, d'.report id = d.report id) (planned : d'.planned = d.planned)
    (retries : ∀ r ∈ d'.retries, ∃ r₀ ∈ d.retries, r.number = r₀.number ∧ r.reportId = r₀.reportId ∧
      r.report = r₀.report ∧ (r.stage = .filing ↔ r₀.stage = .filing)) : d'.Sane trace where
  counted id report there := sane.counted id report (reports id ▸ there)
  absent id none := sane.absent id (reports id ▸ none)
  fits := by
    intro r member
    obtain ⟨r₀, member₀, number, id, copy, stage⟩ := retries r member
    obtain ⟨before, report, there, few, known, failing, filing, told⟩ := sane.fits r₀ member₀
    rw [planned, number, reports, id]
    refine ⟨before, report, there, ?_⟩
    constructor <;> simp only [copy, ne_eq, stage] <;> assumption
  numbered := by
    rw [planned]
    exact sane.numbered
  outdated := by
    intro id m succeeded r member same before report there
    obtain ⟨r₀, member₀, number, id₀, copy, -⟩ := retries r member
    rw [copy]
    rw [number] at before
    rw [id₀] at same
    rw [reports] at there
    exact sane.outdated id m succeeded r₀ member₀ same before report there
  ordered := sane.ordered

theorem failures_append (id : Nat) (trace events : List RetryEvent) :
    failures id (trace ++ events) = failures id trace + failures id events := List.countP_append

theorem InOrder.append {e : RetryEvent} (ordered : InOrder trace)
    (last : ∀ id m n, .succeeded id m ∈ trace → e = .failed id n → m ≤ n) : InOrder (trace ++ [e]) := by
  apply List.pairwise_append.mpr
  refine ⟨ordered, List.pairwise_singleton _ _, ?_⟩
  intro before member after here id m n success failure
  rw [List.mem_singleton.mp here] at failure
  rw [success] at member
  exact last id m n member failure

theorem Outdated.of_failing {copy report report' : StoredReport Narrative} (outdated : Outdated copy report)
    (failing : report.narrativeError ≠ none) (kept : report'.narrativeRetryCount = report.narrativeRetryCount) :
    Outdated copy report' := by
  rcases outdated with ⟨told, -⟩ | less
  · exact absurd told failing
  · right
    rw [kept]
    exact less

theorem not_outdated (report : StoredReport Narrative) : ¬ Outdated report report := by
  rintro (⟨told, failing⟩ | less)
  · exact failing told
  · exact Nat.lt_irrefl _ less

/-- While the row tells of a failure, the copy of a retry that has told its own success is old. -/
theorem Retry.Fits.overtaken {r : Retry Narrative} {report : StoredReport Narrative} (fits : r.Fits report)
    (failing : report.narrativeError ≠ none) (filing : r.stage = .filing) :
    r.report.narrativeRetryCount < report.narrativeRetryCount := by
  rcases fits.filing filing with same | less
  · rw [← same] at failing
    exact absurd (fits.told filing) failing
  · exact less

theorem Retry.Fits.rewritten {r : Retry Narrative} {report report' : StoredReport Narrative} (fits : r.Fits report)
    (failing : report.narrativeError ≠ none) (kept : report'.narrativeRetryCount = report.narrativeRetryCount) :
    r.Fits report' where
  few := fits.few
  known := kept ▸ fits.known
  failing := fits.failing
  filing filing := .inr (kept ▸ fits.overtaken failing filing)
  told := fits.told

theorem Desk.Sane.plan (sane : d.Sane trace) {index : Nat} {e : Reading Narrative} {paused : Bool} {time : Int}
    (fresh : paused = false → e.report.due e.now = true → d.report e.reportId = some e.report) :
    (d.plan index e paused time).Sane trace := by
  unfold Desk.plan
  by_cases goes : paused = false ∧ e.report.due e.now = true
  · rw [if_pos goes]
    have there := fresh goes.1 goes.2
    have due := goes.2
    simp only [StoredReport.due, Bool.and_eq_true, decide_eq_true_eq] at due
    obtain ⟨⟨error, few⟩, -⟩ := due
    have failing : e.report.narrativeError ≠ none := by
      intro none
      simp [none] at error
    have reports : ∀ other, Desk.report { Desk.write { d with reading := d.reading.eraseIdx index } e.reportId
        (e.report.postponed e.now) e.provisional 0 time with
          retries := d.retries ++ [⟨d.planned, e.reportId, e.target, e.report.postponed e.now, .waiting, 0⟩]
          planned := d.planned + 1 } other =
        if other = e.reportId then some (e.report.postponed e.now) else d.report other :=
      fun other => report_write there
    constructor
    · intro id report found
      rw [reports] at found
      by_cases here : id = e.reportId
      · rw [if_pos here] at found
        cases found
        have counted := sane.counted _ _ there
        rw [here]
        exact counted
      · rw [if_neg here] at found
        exact sane.counted _ _ found
    · intro id none
      rw [reports] at none
      by_cases here : id = e.reportId
      · rw [if_pos here] at none
        cases none
      · rw [if_neg here] at none
        exact sane.absent _ none
    · intro r member
      simp only [reports]
      rcases List.mem_append.mp member with old | new
      · obtain ⟨before, report, found, fits⟩ := sane.fits r old
        refine ⟨Nat.lt_succ_of_lt before, ?_⟩
        by_cases here : r.reportId = e.reportId
        · rw [here, there] at found
          cases found
          rw [if_pos here]
          exact ⟨_, rfl, fits.rewritten failing rfl⟩
        · rw [if_neg here]
          exact ⟨report, found, fits⟩
      · rw [List.mem_singleton.mp new, if_pos rfl]
        refine ⟨Nat.lt_succ_self _, _, rfl, ?_⟩
        constructor
        · exact few
        · exact Nat.le_refl _
        · exact fun _ => failing
        · exact fun impossible => by cases impossible
        · exact fun impossible => by cases impossible
    · intro id m succeeded
      exact Nat.lt_succ_of_lt (sane.numbered id m succeeded)
    · intro id m succeeded r member same before report found
      rw [reports] at found
      rcases List.mem_append.mp member with old | new
      · by_cases here : id = e.reportId
        · rw [if_pos here] at found
          cases found
          rw [here] at same succeeded
          exact (sane.outdated _ m succeeded r old same before _ there).of_failing failing rfl
        · rw [if_neg here] at found
          exact sane.outdated id m succeeded r old same before report found
      · rw [List.mem_singleton.mp new] at before
        have := sane.numbered id m succeeded
        simp only at before
        omega
    · exact sane.ordered
  · rw [if_neg goes]
    exact sane.kept (fun _ => rfl) rfl fun r member => ⟨r, member, rfl, rfl, rfl, .rfl⟩

theorem Desk.Sane.succeed (sane : d.Sane trace) {index : Nat} {r : Retry Narrative} (member : r ∈ d.retries)
    (stage : r.stage = .calling) (fresh : d.report r.reportId = some r.report) (narrative : Narrative)
    (provisional : Bool) (calls : Nat) (time : Int) :
    (Desk.write { d with
        retries := d.retries.set index
          { r with report := r.report.narrated narrative, stage := .filing, billableCalls := calls } }
      r.reportId (r.report.narrated narrative) provisional calls time).Sane
      (trace ++ [.succeeded r.reportId r.number]) := by
  obtain ⟨before, report, found, fits⟩ := sane.fits r member
  rw [fresh] at found
  cases found
  have failing : r.report.narrativeError ≠ none := fits.failing (by simp [stage])
  have reports : ∀ other, (Desk.write { d with
        retries := d.retries.set index
          { r with report := r.report.narrated narrative, stage := .filing, billableCalls := calls } }
      r.reportId (r.report.narrated narrative) provisional calls time).report other =
        if other = r.reportId then some (r.report.narrated narrative) else d.report other :=
    fun other => report_write fresh
  have same : ∀ id, failures id (trace ++ [.succeeded r.reportId r.number]) = failures id trace := by
    intro id
    simp [failures, RetryEvent.isFailure]
  constructor
  · intro id report found
    rw [reports] at found
    rw [same]
    by_cases here : id = r.reportId
    · rw [if_pos here] at found
      cases found
      have counted := sane.counted _ _ fresh
      rw [here]
      exact counted
    · rw [if_neg here] at found
      exact sane.counted _ _ found
  · intro id none
    rw [reports] at none
    rw [same]
    by_cases here : id = r.reportId
    · rw [if_pos here] at none
      cases none
    · rw [if_neg here] at none
      exact sane.absent _ none
  · intro r' member'
    simp only [reports]
    rcases List.mem_or_eq_of_mem_set member' with old | rfl
    · obtain ⟨before', report, found, fits'⟩ := sane.fits r' old
      refine ⟨before', ?_⟩
      by_cases here : r'.reportId = r.reportId
      · rw [here, fresh] at found
        cases found
        rw [if_pos here]
        exact ⟨_, rfl, fits'.rewritten failing rfl⟩
      · rw [if_neg here]
        exact ⟨report, found, fits'⟩
    · refine ⟨before, _, if_pos rfl, ?_⟩
      constructor
      · exact fits.few
      · exact Nat.le_refl _
      · exact fun impossible => absurd rfl impossible
      · exact fun _ => .inl rfl
      · exact fun _ => rfl
  · intro id m succeeded
    rcases List.mem_append.mp succeeded with old | new
    · exact sane.numbered id m old
    · cases List.mem_singleton.mp new
      exact before
  · intro id m succeeded r' member' same before' report found
    rw [reports] at found
    rcases List.mem_append.mp succeeded with old | new
    · rcases List.mem_or_eq_of_mem_set member' with there | rfl
      · by_cases here : id = r.reportId
        · rw [if_pos here] at found
          cases found
          rw [here] at same old
          exact (sane.outdated _ m old r' there same before' _ fresh).of_failing failing rfl
        · rw [if_neg here] at found
          exact sane.outdated id m old r' there same before' report found
      · -- the retry that succeeds now is not the older one of two
        simp only at same
        rw [← same] at old
        exact absurd (sane.outdated _ m old r member rfl before' _ fresh) (not_outdated _)
    · cases List.mem_singleton.mp new
      rw [if_pos rfl] at found
      cases found
      rcases List.mem_or_eq_of_mem_set member' with there | rfl
      · obtain ⟨-, report, found, fits'⟩ := sane.fits r' there
        rw [same, fresh] at found
        cases found
        by_cases filing : r'.stage = .filing
        · exact .inr (fits'.overtaken failing filing)
        · exact .inl ⟨rfl, fits'.failing filing⟩
      · exact absurd before' (Nat.lt_irrefl _)
  · apply sane.ordered.append
    intro id m n _ impossible
    cases impossible

theorem Desk.Sane.handle (sane : d.Sane trace) {index : Nat} {r : Retry Narrative} (member : r ∈ d.retries)
    (fresh : d.report r.reportId = some r.report) {report : StoredReport Narrative}
    (kept : report.narrativeRetryCount = r.report.narrativeRetryCount) (error : String) (calls : Nat) (time : Int) :
    (d.handle index r report error calls true time).Sane (trace ++ [.failed r.reportId r.number]) := by
  obtain ⟨before, old, found, fits⟩ := sane.fits r member
  rw [fresh] at found
  cases found
  have reports : ∀ other, (d.handle index r report error calls true time).report other =
      if other = r.reportId then some (report.failedAgain error) else d.report other :=
    fun other => report_write fresh
  have more : (report.failedAgain error).narrativeRetryCount = r.report.narrativeRetryCount + 1 := by
    simp [StoredReport.failedAgain, kept]
  have counts : ∀ id, failures id (trace ++ [.failed r.reportId r.number]) =
      failures id trace + if id = r.reportId then 1 else 0 := by
    intro id
    rw [failures_append]
    by_cases here : id = r.reportId
    · simp [failures, RetryEvent.isFailure, here]
    · simp [failures, RetryEvent.isFailure, here, Ne.symm here]
  constructor
  · intro id report' found
    rw [reports] at found
    rw [counts]
    by_cases here : id = r.reportId
    · rw [if_pos here] at found ⊢
      cases found
      obtain ⟨counted, -⟩ := sane.counted _ _ fresh
      have few := fits.few
      rw [more, here, counted]
      exact ⟨rfl, few⟩
    · rw [if_neg here] at found ⊢
      exact sane.counted _ _ found
  · intro id none
    rw [reports] at none
    rw [counts]
    by_cases here : id = r.reportId
    · rw [if_pos here] at none
      cases none
    · rw [if_neg here] at none ⊢
      exact sane.absent _ none
  · intro r' member'
    obtain ⟨before', report', found, fits'⟩ := sane.fits r' (List.mem_of_mem_eraseIdx member')
    refine ⟨before', ?_⟩
    rw [reports]
    by_cases here : r'.reportId = r.reportId
    · rw [here, fresh] at found
      cases found
      rw [if_pos here]
      refine ⟨_, rfl, ?_⟩
      have known := fits'.known
      constructor
      · exact fits'.few
      · omega
      · exact fits'.failing
      · intro _
        omega
      · exact fits'.told
    · rw [if_neg here]
      exact ⟨report', found, fits'⟩
  · intro id m succeeded
    rcases List.mem_append.mp succeeded with old | new
    · exact sane.numbered id m old
    · cases List.mem_singleton.mp new
  · intro id m succeeded r' member' same before' report' found
    have there := List.mem_of_mem_eraseIdx member'
    rcases List.mem_append.mp succeeded with old | new
    · rw [reports] at found
      by_cases here : id = r.reportId
      · rw [if_pos here] at found
        cases found
        obtain ⟨-, _, found', fits'⟩ := sane.fits r' there
        rw [same, here, fresh] at found'
        cases found'
        have known := fits'.known
        right
        omega
      · rw [if_neg here] at found
        exact sane.outdated id m old r' there same before' report' found
    · cases List.mem_singleton.mp new
  · apply sane.ordered.append
    intro id m n succeeded failure
    cases failure
    by_contra late
    exact not_outdated _ (sane.outdated _ m succeeded r member rfl (by omega) _ fresh)

theorem Desk.Sane.written (sane : d.Sane trace) (row : ReportRow (StoredReport Narrative))
    (fresh : ∀ report, row.report = some report → report.narrativeRetryCount = 0) :
    Desk.Sane { d with rows := d.rows.insert row } trace := by
  have reports : ∀ id, Desk.report { d with rows := d.rows.insert row } id =
      if id = d.rows.nextId then row.report else d.report id := by
    intro id
    simp only [Desk.report, Table.lookup_insert]
    split <;> rfl
  have new : d.report d.rows.nextId = none := by simp [Desk.report, Table.lookup_nextId]
  have old : ∀ id report, d.report id = some report → Desk.report { d with rows := d.rows.insert row } id = some report := by
    intro id report there
    rw [reports, if_neg _, there]
    rintro rfl
    rw [new] at there
    cases there
  constructor
  · intro id report found
    rw [reports] at found
    by_cases here : id = d.rows.nextId
    · rw [if_pos here] at found
      rw [here, sane.absent _ new, fresh report found]
      exact ⟨rfl, Nat.zero_le _⟩
    · rw [if_neg here] at found
      exact sane.counted id report found
  · intro id none
    cases found : d.report id with
    | none => exact sane.absent id found
    | some report =>
      rw [old id report found] at none
      cases none
  · intro r member
    obtain ⟨before, report, there, fits⟩ := sane.fits r member
    exact ⟨before, report, old _ _ there, fits⟩
  · exact sane.numbered
  · intro id m succeeded r member same before report found
    obtain ⟨-, report', there, -⟩ := sane.fits r member
    rw [same] at there
    have again := old _ _ there
    rw [found] at again
    cases again
    exact sane.outdated id m succeeded r member same before _ there
  · exact sane.ordered

theorem runFails_report (d : Desk Narrative) (id other : Nat) (now : Int) :
    Desk.report { d with rows := (updateReport d.rows id (failedUpdate now) now).getD d.rows } other = d.report other := by
  unfold Desk.report updateReport
  cases d.rows.lookup id with
  | none => rfl
  | some row =>
    simp only [Option.map_some, Option.getD_some, lookup_change]
    cases d.rows.lookup other with
    | none => rfl
    | some row =>
      by_cases here : other = id
      · simp [here, ReportRow.updated, failedUpdate, Update.empty]
      · simp [here]

theorem retryStep_sane (mentions : StoredReport Narrative → Bool) (sane : d.Sane trace) {s : RetryStep Narrative}
    (upToDate : UpToDate d s) : (retryStep mentions d s).1.Sane (trace ++ (retryStep mentions d s).2) := by
  have none : ∀ {d' : Desk Narrative}, d'.Sane trace → d'.Sane (trace ++ []) := by
    intro d' sane
    rwa [List.append_nil]
  have fewer : ∀ (retries : List (Retry Narrative)), retries ⊆ d.retries → Desk.Sane { d with retries := retries } trace :=
    fun retries inside => sane.kept (fun _ => rfl) rfl fun r member => ⟨r, inside member, rfl, rfl, rfl, .rfl⟩
  have erased : ∀ index, Desk.Sane { d with retries := d.retries.eraseIdx index } trace :=
    fun index => fewer _ fun _ member => List.mem_of_mem_eraseIdx member
  have same : ∀ reading, Desk.Sane { d with reading := reading } trace :=
    fun reading => sane.kept (fun _ => rfl) rfl fun r member => ⟨r, member, rfl, rfl, rfl, .rfl⟩
  cases s with
  | written target trigger now periodStart narrative keys error calls total =>
    apply none
    apply sane.written
    intro report there
    simp only [reportRow, ReportRow.updated, finalUpdate, Option.some_or, Option.some.injEq] at there
    rw [← there]
    rfl
  | runFails id now =>
    exact none (sane.kept (runFails_report d id · now) rfl fun r member => ⟨r, member, rfl, rfl, rfl, .rfl⟩)
  | read now => exact none (same _)
  | plan index paused time =>
    simp only [retryStep]
    split
    next e there => exact none (sane.plan (upToDate e there))
    next => exact none sane
  | call index paused =>
    simp only [retryStep]
    split
    next r there =>
      split
      next waits =>
        split
        · exact none (erased index)
        · refine none (sane.kept (fun _ => rfl) rfl ?_)
          intro r' member
          rcases List.mem_or_eq_of_mem_set member with old | rfl
          · exact ⟨r', old, rfl, rfl, rfl, .rfl⟩
          · exact ⟨r, List.mem_of_getElem? there, rfl, rfl, rfl, by simp [waits]⟩
      next => exact none sane
    next => exact none sane
  | succeed index narrative calls time =>
    simp only [retryStep]
    split
    next r there =>
      split
      next stage =>
        exact sane.succeed (List.mem_of_getElem? there) stage (upToDate r there stage) narrative _ calls time
      next => exact none sane
    next => exact none sane
  | fail index got error calls recorded time =>
    simp only [retryStep]
    split
    next r there =>
      split
      next stage =>
        obtain ⟨rfl, fresh⟩ := upToDate r there stage
        exact sane.handle (List.mem_of_getElem? there) fresh (by cases got <;> rfl) error calls time
      next => exact none sane
    next => exact none sane
  | filed index =>
    simp only [retryStep]
    split
    next r there =>
      split
      · exact none (erased index)
      · exact none sane
    next => exact none sane
  | filingFails index error recorded time =>
    simp only [retryStep]
    split
    next r there =>
      split
      next stage =>
        obtain ⟨rfl, fresh⟩ := upToDate r there stage
        exact sane.handle (List.mem_of_getElem? there) fresh rfl error r.billableCalls time
      next => exact none sane
    next => exact none sane
  | loseReading index => exact none (same _)
  | loseRetry index => exact none (erased index)

theorem empty_sane : (Desk.empty : Desk Narrative).Sane [] where
  counted _ _ found := by cases found
  absent _ _ := rfl
  fits _ member := by cases member
  numbered _ _ member := by cases member
  outdated _ _ member := by cases member
  ordered := List.Pairwise.nil

/-- In every run whose whole-report writes are up to date, a report has four failed retries at most and no success is
undone by an earlier retry. -/
theorem retries_bounded (mentions : StoredReport Narrative → Bool) (steps : List (RetryStep Narrative))
    (upToDate : EveryStep (retryStep mentions) UpToDate Desk.empty steps) :
    (∀ id, failures id (exec (retryStep mentions) Desk.empty steps).2 ≤ narrativeRetryLimit) ∧
      InOrder (exec (retryStep mentions) Desk.empty steps).2 := by
  have sane := exec_invariant Desk.Sane UpToDate (fun d trace s upToDate sane => retryStep_sane mentions sane upToDate)
    Desk.empty steps upToDate empty_sane
  refine ⟨?_, sane.ordered⟩
  intro id
  cases found : (exec (retryStep mentions) Desk.empty steps).1.report id with
  | none =>
    rw [sane.absent id found]
    exact Nat.zero_le _
  | some report =>
    obtain ⟨counted, few⟩ := sane.counted id report found
    rw [counted]
    exact few

/-- A report without its narrative, and a retry planned and in its call every 900 seconds or later. -/
def unwritten : List (RetryStep Unit) := [.written "db" .nightly 0 none () [] (some "timeout") 1 0]

def planAt (now : Int) : List (RetryStep Unit) := [.read now, .plan 0 false now]

theorem retries_bounded_once :
    (∀ id, failures id (exec (retryStep fun _ => true) Desk.empty
      (unwritten ++ planAt 900 ++ [.call 0 false, .fail 0 none "timeout" 1 true 950])).2 ≤ narrativeRetryLimit) ∧
      InOrder (exec (retryStep fun _ => true) Desk.empty
        (unwritten ++ planAt 900 ++ [.call 0 false, .fail 0 none "timeout" 1 true 950])).2 :=
  retries_bounded (fun _ => true) _ (by decide)

/-- Five retries wait for their slots with copies that count no failure; and a slow retry fails after the next one
has succeeded. -/
theorem overlapping_retries :
    failures 1 (exec (retryStep fun _ => true) Desk.empty
        (unwritten ++ planAt 900 ++ planAt 1800 ++ planAt 2700 ++ planAt 3600 ++ planAt 4500 ++
          (List.replicate 5 [.call 0 false, .fail 0 none "timeout" 1 true 5000]).flatten)).2 = narrativeRetryLimit + 1 ∧
      ¬ InOrder (exec (retryStep fun _ => true) Desk.empty
        (unwritten ++ planAt 900 ++ [.call 0 false] ++ planAt 1800 ++
          [.call 1 false, .succeed 1 () 1 1900, .filed 1, .fail 0 none "timeout" 1 true 2000])).2 := by
  refine ⟨by decide, ?_⟩
  intro ordered
  have events : (exec (retryStep fun _ => true) Desk.empty
      (unwritten ++ planAt 900 ++ [.call 0 false] ++ planAt 1800 ++
        [.call 1 false, .succeed 1 () 1 1900, .filed 1, .fail 0 none "timeout" 1 true 2000])).2 =
      [.succeeded 1 1, .failed 1 0] := by decide
  rw [events] at ordered
  have late := (List.pairwise_cons.mp ordered).1 _ List.mem_cons_self 1 1 0 rfl rfl
  omega

end Rdst.Reports
