import Rdst.Reports.Runs

namespace Rdst.Reports

open RowTable Machine

variable {Report : Type*} {w : World Report} {r r' : Run Report}

/-- What one step can do to a run. -/
inductive Move : Run Report → Run Report → Prop
  | turnedAway (s : ReportState) (t : Task Report) (waits : t.stage = .waiting) : Move ⟨s, t⟩ ⟨s, t.leave⟩
  | slotted (t : Task Report) (waits : t.stage = .waiting) :
      Move ⟨.running, t⟩ ⟨.running, { t with stage := .starting }⟩
  | signedOut (s : ReportState) (t : Task Report) (now : Int) (starts : t.stage = .starting) :
      Move ⟨s, t⟩ ⟨s, t.issue .handling (signedOutUpdate now)⟩
  | opened (s : ReportState) (t : Task Report) (period : Int × Int) (starts : t.stage = .starting) :
      Move ⟨s, t⟩ ⟨s, t.issue .opening (periodUpdate period)⟩
  | registered (s : ReportState) (t : Task Report) (opens : t.stage = .opening) (rests : t.awaited = none) :
      Move ⟨s, t⟩ ⟨s, { t with stage := .registered }⟩
  | entered (s : ReportState) (t : Task Report) (registers : t.stage = .registered) :
      Move ⟨s, t⟩ ⟨s, { t with stage := .working }⟩
  | noted (s : ReportState) (t : Task Report) (n : Note) (works : t.stage = .working) (rests : t.awaited = none) :
      Move ⟨s, t⟩ ⟨s, t.issue .working n.update⟩
  | finished (s : ReportState) (t : Task Report) (report : Report) (provisional : Bool) (calls total : Nat) (now : Int)
      (works : t.stage = .working) (rests : t.awaited = none) :
      Move ⟨s, t⟩ ⟨s, t.issue .finished (finalUpdate report provisional calls total now)⟩
  | landed (s : ReportState) (t : Task Report) (u : Update Report) (awaits : t.awaited = some u)
      (welcome : u.state = some .done → s = .running) : Move ⟨s, t⟩ ⟨u.state.getD s, { t with awaited := none }⟩
  | landedLoose (s : ReportState) (t : Task Report) (u : Update Report) (index : Nat) (there : t.loose[index]? = some u)
      (welcome : u.state = some .done → s = .running) :
      Move ⟨s, t⟩ ⟨u.state.getD s, { t with loose := t.loose.eraseIdx index }⟩
  | interrupted (s : ReportState) (t : Task Report) (begun : Bool) (now : Int) (lives : t.stage ≠ .over) :
      Move ⟨s, t⟩ ⟨s, t.interrupt begun now⟩
  | failed (s : ReportState) (t : Task Report) (now : Int) (lives : t.stage ≠ .over) : Move ⟨s, t⟩ ⟨s, t.fail now⟩
  | left (s : ReportState) (t : Task Report) (rests : t.awaited = none) : Move ⟨s, t⟩ ⟨s, t.leave⟩
  | requested (s : ReportState) (t : Task Report) : Move ⟨s, t⟩ ⟨s, { t with cancelRequested := true }⟩
  | cancelled (t : Task Report) : Move ⟨.running, t⟩ ⟨.cancelled, t⟩
  | recovered (t : Task Report) : Move ⟨.running, t⟩ ⟨.failed, t⟩
  | crashed (s : ReportState) (t : Task Report) : Move ⟨s, t⟩ ⟨s, .gone⟩

theorem run_some {id : Nat} : w.run id = some r ↔
    ∃ row, w.rows.lookup id = some row ∧ row.state = r.state ∧ w.task id = r.task := by
  cases r with
  | mk state task =>
    unfold World.run
    cases w.rows.lookup id <;> simp

/-- The run of one id after a step that sets the task of one id and leaves the rows' states. -/
theorem run_set (w : World Report) (rows : Table (ReportRow Report)) (id other : Nat) (t : Task Report)
    (same : ∀ row, w.rows.lookup other = some row →
      ∃ later, rows.lookup other = some later ∧ later.state = row.state) (found : w.run other = some r) :
    (World.set ⟨rows, w.task⟩ id t).run other = some (if other = id then ⟨r.state, t⟩ else r) := by
  obtain ⟨row, there, state, task⟩ := run_some.mp found
  obtain ⟨later, there', state'⟩ := same row there
  by_cases here : other = id
  · subst here
    rw [if_pos rfl, run_some]
    exact ⟨later, there', by rw [state', state], by simp [World.set]⟩
  · rw [if_neg here, run_some]
    exact ⟨later, there', by rw [state', state], by simpa [World.set, here] using task⟩

theorem run_write (w : World Report) (id other : Nat) (u : Update Report) (now : Int) (t : Task Report)
    (found : w.run other = some r) :
    ((w.write id u now).set id t).run other = some (if other = id then ⟨u.state.getD r.state, t⟩ else r) := by
  obtain ⟨row, there, state, task⟩ := run_some.mp found
  by_cases here : other = id
  · subst here
    rw [if_pos rfl, run_some]
    refine ⟨row.updated now u, ?_, ?_, ?_⟩
    · simp [World.set, World.write, updateReport, there]
    · simp [state]
    · simp [World.set]
  · rw [if_neg here, run_some]
    refine ⟨row, ?_, state, ?_⟩
    · cases row' : w.rows.lookup id with
      | none => simp [World.set, World.write, updateReport, row', there]
      | some _ => simp [World.set, World.write, updateReport, row', there, here]
    · simpa [World.set, World.write, here] using task

/-- What becomes of a run: it stays, or makes one move. -/
def Becomes (after : World Report) (other : Nat) (r : Run Report) : Prop :=
  ∃ r', after.run other = some r' ∧ (r' = r ∨ Move r r')

theorem stays {other : Nat} (found : w.run other = some r) : Becomes w other r := ⟨r, found, .inl rfl⟩

theorem becomes_set {guard : Prop} [Decidable guard] {id other : Nat} {t : Task Report}
    (moves : ∀ s, guard → Move ⟨s, w.task id⟩ ⟨s, t⟩) (found : w.run other = some r) :
    Becomes (if guard then w.set id t else w) other r := by
  by_cases applies : guard
  · rw [if_pos applies]
    refine ⟨_, run_set w w.rows id other t (fun row there => ⟨row, there, rfl⟩) found, ?_⟩
    by_cases here : other = id
    · subst here
      rw [if_pos rfl]
      obtain ⟨row, -, -, task⟩ := run_some.mp found
      have moved := moves r.state applies
      rw [task] at moved
      exact .inr moved
    · exact .inl (if_neg here)
  · rw [if_neg applies]
    exact stays found

theorem becomes_write {id other : Nat} {u : Update Report} {now : Int} {t : Task Report} (welcome : Welcome w id u)
    (moves : ∀ s, (u.state = some .done → s = .running) → Move ⟨s, w.task id⟩ ⟨u.state.getD s, t⟩)
    (found : w.run other = some r) : Becomes ((w.write id u now).set id t) other r := by
  refine ⟨_, run_write w id other u now t found, ?_⟩
  by_cases here : other = id
  · subst here
    rw [if_pos rfl]
    obtain ⟨row, there, state, task⟩ := run_some.mp found
    have moved := moves r.state (fun last => state ▸ welcome last row there)
    rw [task] at moved
    exact .inr moved
  · exact .inl (if_neg here)

theorem touched_rows (w : World Report) (id : Nat) (now : Int) {other : Nat} {row : ReportRow Report}
    (there : w.rows.lookup other = some row) :
    ∃ later, (touchReport w.rows id now).1.lookup other = some later ∧ later.state = row.state := by
  by_cases here : other = id
  · subst here
    simp [touchReport, there]
  · simp [touchReport, there, here]

theorem becomes_touch {id other : Nat} {now : Int} (waits : (w.task id).stage = .waiting) {t : Task Report}
    (moves : Move ⟨.running, w.task id⟩ ⟨.running, t⟩ ∨ t = w.task id) (found : w.run other = some r) :
    Becomes (if (touchReport w.rows id now).2 = true then World.set ⟨(touchReport w.rows id now).1, w.task⟩ id t
      else World.set ⟨(touchReport w.rows id now).1, w.task⟩ id (w.task id).leave) other r := by
  obtain ⟨row, there, state, task⟩ := run_some.mp found
  split
  next runs =>
    refine ⟨_, run_set w _ id other t (fun row there => touched_rows w id now there) found, ?_⟩
    by_cases here : other = id
    · subst here
      have running : r.state = .running := by
        rw [← state]
        simpa [touchReport, there] using runs
      rw [if_pos rfl]
      rcases moves with moved | same
      · rw [← running, task] at moved
        exact .inr moved
      · left
        rw [same, task]
    · exact .inl (if_neg here)
  next =>
    refine ⟨_, run_set w _ id other _ (fun row there => touched_rows w id now there) found, ?_⟩
    by_cases here : other = id
    · subst here
      rw [if_pos rfl, task]
      exact .inr (.turnedAway _ _ (task ▸ waits))
    · exact .inl (if_neg here)

/-- A change of the rows that cancels or fails some of those that run. -/
theorem becomes_rows {rows : Table (ReportRow Report)} {other : Nat} {f : ReportRow Report → ReportRow Report}
    (now : ∀ row, w.rows.lookup other = some row → rows.lookup other = some (f row))
    (stops : ∀ row : ReportRow Report, (f row).state = row.state ∨
      row.state = .running ∧ ((f row).state = .failed ∨ (f row).state = .cancelled))
    (found : w.run other = some r) : Becomes ⟨rows, w.task⟩ other r := by
  obtain ⟨row, there, state, task⟩ := run_some.mp found
  refine ⟨⟨(f row).state, r.task⟩, run_some.mpr ⟨f row, now row there, rfl, task⟩, ?_⟩
  cases r with
  | mk s t =>
    rcases stops row with same | ⟨running, result | result⟩
    · left
      rw [same, state]
    all_goals
      right
      simp only at state
      rw [← state, running, result]
    · exact .recovered t
    · exact .cancelled t

theorem step_becomes {s : Step Report} (sound : Sound w s) {other : Nat} (found : w.run other = some r) :
    Becomes (step w s) other r := by
  cases s with
  | claim target trigger now periodStart scheduled =>
    simp only [step]
    rcases claimReport_spec w.rows target trigger now periodStart with ⟨same, old⟩ | ⟨-, -, new⟩
    · rw [old, same]
      exact stays found
    · rw [new]
      obtain ⟨row, there, -, -⟩ := run_some.mp found
      have before : other ≠ w.rows.nextId := by
        rintro rfl
        rw [w.rows.lookup_nextId] at there
        cases there
      have kept : ∀ row, w.rows.lookup other = some row → ∃ later,
          (w.rows.insert (.started target trigger now periodStart)).lookup other = some later ∧ later.state = row.state := by
        intro row there
        rw [Table.lookup_insert, if_neg before]
        exact ⟨row, there, rfl⟩
      have after := run_set w _ w.rows.nextId other (.claimed scheduled) kept found
      rw [if_neg before] at after
      exact ⟨r, after, .inl rfl⟩
  | touch id now =>
    simp only [step]
    split
    next waits =>
      have same : World.set ⟨(touchReport w.rows id now).1, w.task⟩ id (w.task id) =
          ⟨(touchReport w.rows id now).1, w.task⟩ := by simp [World.set]
      have touched : Becomes (if (touchReport w.rows id now).2 = true then _ else _) other r :=
        becomes_touch waits (.inr rfl) found
      rw [same] at touched
      exact touched
    next => exact stays found
  | slot id now =>
    simp only [step]
    split
    next waits => exact becomes_touch waits (.inl (.slotted _ waits)) found
    next => exact stays found
  | signedOut id now => exact becomes_set (fun s applies => .signedOut s _ now applies.1) found
  | openPeriod id period => exact becomes_set (fun s applies => .opened s _ period applies) found
  | register id => exact becomes_set (fun s applies => .registered s _ applies.1 applies.2) found
  | enter id => exact becomes_set (fun s applies => .entered s _ applies) found
  | note id n => exact becomes_set (fun s applies => .noted s _ n applies.1 applies.2) found
  | finish id report provisional calls total now =>
    exact becomes_set (fun s applies => .finished s _ report provisional calls total now applies.1 applies.2) found
  | land id now =>
    simp only [step]
    split
    next u awaits =>
      exact becomes_write (sound u awaits) (fun s welcome => .landed s _ u awaits welcome) found
    next => exact stays found
  | landLoose id index now =>
    simp only [step]
    split
    next u there =>
      exact becomes_write (sound u there) (fun s welcome => .landedLoose s _ u index there welcome) found
    next => exact stays found
  | interrupt id begun now => exact becomes_set (fun s lives => .interrupted s _ begun now lives) found
  | fail id now => exact becomes_set (fun s lives => .failed s _ now lives) found
  | leave id => exact becomes_set (fun s applies => .left s _ applies.2) found
  | requestCancel id => exact becomes_set (fun s _ => .requested s _) found
  | cancelReport id now =>
    apply becomes_rows (f := fun row => if other = id then row.cancelled now else row) _ _ found
    · intro row there
      simp [cancelReport, there]
    · intro row
      by_cases here : other = id
      · by_cases running : row.state = .running
        · simp [here, ReportRow.cancelled_state, running]
        · simp [here, ReportRow.cancelled_state, running]
      · simp [here]
  | recover now =>
    apply becomes_rows (f := .recovered now) _ _ found
    · intro row there
      simp [recoverReports, there]
    · intro row
      rcases row.recovered_state now with same | ⟨running, failed⟩
      · exact .inl same
      · exact .inr ⟨running, .inl failed⟩
  | crash id =>
    have crashed : Becomes (if True then w.set id .gone else w) other r := becomes_set (fun s _ => .crashed s _) found
    rwa [if_pos True.intro] at crashed

/-- What holds of a run at every time. -/
structure Run.Sane (r : Run Report) : Prop where
  quiet : r.task.stage ∉ [.handling, .over] → r.task.loose = []
  early : r.task.stage ∈ [.waiting, .starting] → r.task.awaited = none
  notes : r.task.stage ∈ [.opening, .registered, .working] → ∀ u, r.task.awaited = some u → u.state = none
  few : r.task.inFlight.length ≤ 2
  results : ∀ u ∈ r.task.inFlight, u.state ≠ some .running
  /-- After its final write a run has one more to make at most, that of a handler. -/
  written : r.state = .done → r.task.inFlight.length ≤ 1 ∧ r.task.stage ∈ [.finished, .handling, .over] ∧
    (r.task.stage = .finished → r.task.awaited = none)

/-- A run of which newer ones may be at work. -/
structure Run.Past (r : Run Report) : Prop where
  sane : r.Sane
  running : r.state = .running → r.task.stage = .over ∧ r.task.inFlight = []
  settled : r.state.stopped = true → ¬ r.task.canWrite

theorem Run.Sane.landed {s : ReportState} {t : Task Report} (sane : Run.Sane ⟨s, t⟩) {u : Update Report}
    (awaits : t.awaited = some u) : Run.Sane ⟨u.state.getD s, { t with awaited := none }⟩ where
  quiet := sane.quiet
  early _ := rfl
  notes _ _ impossible := by cases impossible
  few := by
    have := sane.few
    simp only [Task.inFlight, List.length_append] at this ⊢
    simp only [Option.toList_none, List.length_nil]
    omega
  results := by
    intro v flies
    apply sane.results v
    simp only [Task.inFlight, Option.toList_none, List.nil_append] at flies
    exact List.mem_append.mpr (.inr flies)
  written := by
    intro final
    have two := sane.few
    simp only [Task.inFlight, awaits, Option.toList_some, Option.toList_none, List.length_append, List.length_cons,
      List.length_nil, List.nil_append] at two ⊢
    refine ⟨by omega, ?_, fun _ => True.intro⟩
    cases state : u.state with
    | none =>
      rw [state] at final
      exact (sane.written final).2.1
    | some result =>
      have notEarly : t.stage ∉ [.waiting, .starting] := by
        intro early
        rw [sane.early early] at awaits
        cases awaits
      have notNote : t.stage ∉ [.opening, .registered, .working] := by
        intro note
        rw [sane.notes note u awaits] at state
        cases state
      cases stage : t.stage <;> simp_all

theorem Run.Sane.landedLoose {s : ReportState} {t : Task Report} (sane : Run.Sane ⟨s, t⟩) {u : Update Report} {index : Nat}
    (there : t.loose[index]? = some u) :
    Run.Sane ⟨u.state.getD s, { t with loose := t.loose.eraseIdx index }⟩ := by
  have some : t.loose ≠ [] := by
    intro none
    simp [none] at there
  have inside : index < t.loose.length := (List.getElem?_eq_some_iff.mp there).1
  have late : t.stage ∈ [.handling, .over] := by
    by_contra other
    exact some (sane.quiet other)
  have two := sane.few
  simp only [Task.inFlight, List.length_append] at two
  have lengths : (t.loose.eraseIdx index).length = t.loose.length - 1 := List.length_eraseIdx_of_lt inside
  rw [List.mem_pair] at late
  constructor
  · intro quiet
    exact absurd (List.mem_pair.mpr late) quiet
  · intro early
    rcases late with stage | stage <;> simp [stage] at early
  · intro note
    rcases late with stage | stage <;> simp [stage] at note
  · simp only [Task.inFlight, List.length_append]
    omega
  · intro v flies
    apply sane.results v
    rcases List.mem_append.mp flies with awaited | loose
    · exact List.mem_append.mpr (.inl awaited)
    · exact List.mem_append.mpr (.inr (List.mem_of_mem_eraseIdx loose))
  · intro _
    simp only [Task.inFlight, List.length_append]
    refine ⟨by omega, ?_, ?_⟩
    · rcases late with stage | stage <;> simp [stage]
    · intro stage
      rcases late with other | other <;> simp [other] at stage

theorem interruptedUpdate_state (cancelled : Bool) (now : Int) :
    (interruptedUpdate cancelled now : Update Report).state ≠ some .running := by
  cases cancelled <;> simp [interruptedUpdate]

/-- The handler of a task lets go of what the task waited for and makes one write of its own. -/
theorem Run.Sane.interrupted {s : ReportState} {t : Task Report} (sane : Run.Sane ⟨s, t⟩) (begun : Bool) (now : Int) :
    Run.Sane ⟨s, t.interrupt begun now⟩ := by
  obtain ⟨quiet, early, notes, few, results, written⟩ := sane
  obtain ⟨stage, awaited, loose, requested⟩ := t
  cases stage <;> cases awaited <;> cases begun <;> constructor <;>
    simp_all [Task.interrupt, Task.letGo, Task.leave, Task.issue, Task.inFlight, interruptedUpdate_state] <;> omega

theorem Run.Sane.failed {s : ReportState} {t : Task Report} (sane : Run.Sane ⟨s, t⟩) (now : Int) :
    Run.Sane ⟨s, t.fail now⟩ := by
  obtain ⟨quiet, early, notes, few, results, written⟩ := sane
  obtain ⟨stage, awaited, loose, requested⟩ := t
  cases stage <;> cases awaited <;> constructor <;>
    simp_all [Task.fail, Task.leave, Task.issue, Task.inFlight, failedUpdate] <;> omega

theorem Note.update_state (n : Note) : (n.update : Update Report).state = none := by
  cases n <;> rfl

theorem Move.sane (move : Move r r') (sane : r.Sane) : r'.Sane := by
  have whole := sane
  obtain ⟨quiet, early, notes, few, results, written⟩ := sane
  cases move with
  | turnedAway s t waits => constructor <;> simp_all [Task.leave, Task.inFlight]
  | slotted t waits => constructor <;> simp_all [Task.inFlight]
  | signedOut s t now starts => constructor <;> simp_all [Task.inFlight, Task.issue, signedOutUpdate]
  | opened s t period starts => constructor <;> simp_all [Task.inFlight, Task.issue, periodUpdate, Update.empty]
  | registered s t opens rests => constructor <;> simp_all [Task.inFlight]
  | entered s t registers => constructor <;> simp_all [Task.inFlight]
  | noted s t n works rests => constructor <;> simp_all [Task.inFlight, Task.issue, Note.update_state]
  | finished s t report provisional calls total now works rests =>
    constructor <;> simp_all [Task.inFlight, Task.issue, finalUpdate]
  | landed s t u awaits welcome => exact whole.landed awaits
  | landedLoose s t u index there welcome => exact whole.landedLoose there
  | interrupted s t begun now lives => exact whole.interrupted begun now
  | failed s t now lives => exact whole.failed now
  | left s t rests => constructor <;> simp_all [Task.inFlight, Task.leave]
  | requested s t => constructor <;> simp_all [Task.inFlight]
  | cancelled t => constructor <;> simp_all
  | recovered t => constructor <;> simp_all
  | crashed s t => constructor <;> simp_all [Task.inFlight, Task.gone]

/-- Nothing but a final write that comes upon it later could undo a stop. -/
theorem Move.stopped (move : Move r r') (sane : r.Sane) (stopped : r.state.stopped = true) : r'.state.stopped = true := by
  have write : ∀ (s : ReportState) (t : Task Report) (u : Update Report), r = ⟨s, t⟩ → u ∈ t.inFlight →
      (u.state = some .done → s = .running) → (u.state.getD s).stopped = true := by
    rintro s t u rfl flies welcome
    cases state : u.state with
    | none => exact stopped
    | some result =>
      cases result with
      | running => exact absurd state (sane.results u flies)
      | done =>
        rw [welcome state] at stopped
        cases stopped
      | failed | cancelled => rfl
  cases move with
  | landed s t u awaits welcome => exact write s t u rfl (by simp [Task.inFlight, awaits]) welcome
  | landedLoose s t u index there welcome =>
    exact write s t u rfl (List.mem_append.mpr (.inr (List.mem_of_getElem? there))) welcome
  | cancelled | recovered => rfl
  | _ => exact stopped

theorem not_canWrite {t : Task Report} : ¬ t.canWrite ↔
    t.stage ∈ [.waiting, .handling, .over] ∧ t.inFlight = [] := by
  cases stage : t.stage <;> simp [Task.canWrite, stage]

/-- A task that cannot write gains nothing to write with. -/
theorem Move.settled (move : Move r r') (stopped : r.state.stopped = true) (settled : ¬ r.task.canWrite) :
    ¬ r'.task.canWrite := by
  rw [not_canWrite] at settled ⊢
  obtain ⟨ends, flies⟩ := settled
  cases move with
  | landed s t u awaits _ => simp_all [Task.inFlight]
  | landedLoose s t u index there _ =>
    have none : t.loose = [] := by simp_all [Task.inFlight]
    simp [none] at there
  | slotted | cancelled | recovered => cases stopped
  | interrupted s t begun now lives =>
    obtain ⟨stage, awaited, loose, requested⟩ := t
    cases stage <;> cases begun <;> simp_all [Task.interrupt, Task.letGo, Task.leave, Task.inFlight]
  | failed s t now lives =>
    obtain ⟨stage, awaited, loose, requested⟩ := t
    cases stage <;> simp_all [Task.fail, Task.leave, Task.inFlight]
  | crashed => simp [Task.gone, Task.inFlight]
  | _ => simp_all [Task.leave, Task.inFlight]

/-- Nor does a task at its end. -/
theorem Move.rests (move : Move r r') (rested : r.task.stage = .over) (flies : r.task.inFlight = []) :
    r'.task.stage = .over ∧ r'.task.inFlight = [] := by
  cases move with
  | landed s t u awaits _ => simp [Task.inFlight, awaits] at flies
  | landedLoose s t u index there _ =>
    have none : t.loose = [] := by simp_all [Task.inFlight]
    simp [none] at there
  | interrupted s t begun now lives | failed s t now lives => exact absurd rested lives
  | crashed => exact ⟨rfl, rfl⟩
  | _ => simp_all [Task.leave, Task.inFlight]

/-- A run that wrote its report and is stopped after that was stopped by its own last write. -/
theorem Move.last (move : Move r r') (sane : r.Sane) (final : r.state = .done) (stopped : r'.state.stopped = true) :
    ¬ r'.task.canWrite := by
  obtain ⟨few, late, rests⟩ := sane.written final
  rw [not_canWrite]
  cases move with
  | landed s t u awaits _ =>
    have loose : t.loose = [] := by simp_all [Task.inFlight]
    have handles : t.stage ≠ .finished := by
      intro stage
      rw [rests stage] at awaits
      cases awaits
    simp_all [Task.inFlight]
  | landedLoose s t u index there _ =>
    have handles : t.stage ≠ .finished := by
      intro stage
      have none : t.loose = [] := sane.quiet (by simp [stage])
      simp [none] at there
    have inside : index < t.loose.length := (List.getElem?_eq_some_iff.mp there).1
    simp only [Task.inFlight, List.length_append] at few
    have lengths := List.length_eraseIdx_of_lt inside
    have awaited : t.awaited = none := by
      cases awaits : t.awaited with
      | none => rfl
      | some u =>
        simp only [awaits, Option.toList_some, List.length_singleton] at few
        omega
    have loose : t.loose.eraseIdx index = [] := by
      rw [← List.length_eq_zero_iff]
      omega
    simp_all [Task.inFlight]
  | slotted | cancelled | recovered => cases final
  | _ =>
    rw [final] at stopped
    cases stopped

theorem Move.state (move : Move r r') (sane : r.Sane) (running : r'.state = .running) : r.state = .running := by
  cases move with
  | landed s t u awaits _ =>
    cases state : u.state with
    | none => simpa [state] using running
    | some result =>
      have other := sane.results u (by simp [Task.inFlight, awaits])
      simp_all
  | landedLoose s t u index there _ =>
    cases state : u.state with
    | none => simpa [state] using running
    | some result =>
      have other := sane.results u (List.mem_append.mpr (.inr (List.mem_of_getElem? there)))
      simp_all
  | cancelled | recovered => cases running
  | _ => exact running

theorem Move.past (move : Move r r') (past : r.Past) : r'.Past where
  sane := move.sane past.sane
  running := by
    intro running
    obtain ⟨rested, flies⟩ := past.running (move.state past.sane running)
    exact move.rests rested flies
  settled := by
    intro stopped
    cases before : r.state with
    | running =>
      obtain ⟨rested, flies⟩ := past.running before
      rw [not_canWrite, (move.rests rested flies).1]
      exact ⟨by simp, (move.rests rested flies).2⟩
    | done => exact move.last past.sane before stopped
    | failed | cancelled =>
      have already : r.state.stopped = true := by rw [before]; rfl
      exact move.settled already (past.settled already)

/-- Every run is sane, and those before a newer run of their target are past. -/
structure World.Good (w : World Report) : Prop where
  sane : ∀ id r, w.run id = some r → r.Sane
  past : ∀ id later r, id < later → w.target id = w.target later → w.run later ≠ none → w.run id = some r → r.Past

theorem run_none {id : Nat} : w.run id = none ↔ w.rows.lookup id = none := by
  unfold World.run
  cases w.rows.lookup id <;> simp

@[simp] theorem set_rows (w : World Report) (id : Nat) (t : Task Report) : (w.set id t).rows = w.rows := rfl

theorem change_target (t : Table (ReportRow Report)) (id other : Nat) (f : ReportRow Report → ReportRow Report)
    (keeps : ∀ row, (f row).target = row.target) :
    ((change t id f).lookup other).map ReportRow.target = (t.lookup other).map ReportRow.target := by
  rw [lookup_change]
  cases t.lookup other with
  | none => rfl
  | some row =>
    by_cases here : other = id
    · simp [here, keeps]
    · simp [here]

theorem write_target (w : World Report) (id other : Nat) (u : Update Report) (now : Int) :
    (w.write id u now).target other = w.target other := by
  unfold World.target World.write updateReport
  cases w.rows.lookup id with
  | none => rfl
  | some row => exact change_target w.rows id other (.updated now u) (fun _ => rfl)

/-- A step keeps the targets of the rows, or starts a run. -/
theorem step_rows (w : World Report) (s : Step Report) :
    (∀ id, (step w s).target id = w.target id) ∨
      ∃ target trigger now periodStart scheduled, s = .claim target trigger now periodStart scheduled ∧
        w.rows.last (ReportRow.isRunning target) = none ∧
        w.rows.last (ReportRow.answers target now periodStart) = none ∧
        step w s = World.set ⟨w.rows.insert (.started target trigger now periodStart), w.task⟩ w.rows.nextId
          (.claimed scheduled) := by
  have guarded : ∀ (guard : Prop) [Decidable guard] (id : Nat) (t : Task Report) (other : Nat),
      (if guard then w.set id t else w).target other = w.target other := by
    intro guard _ id t other
    split <;> rfl
  cases s with
  | claim target trigger now periodStart scheduled =>
    simp only [step]
    rcases claimReport_spec w.rows target trigger now periodStart with ⟨same, old⟩ | ⟨quiet, unanswered, new⟩
    · left
      intro id
      rw [old, same]
      rfl
    · right
      rw [new]
      exact ⟨target, trigger, now, periodStart, scheduled, rfl, quiet, unanswered, rfl⟩
  | touch id now | slot id now =>
    left
    intro other
    have kept := change_target w.rows id other (.touched now) (fun row => by simp)
    simp only [step]
    split
    · split <;> exact kept
    · rfl
  | land id now =>
    left
    intro other
    simp only [step]
    split
    · exact write_target w id other _ now
    · rfl
  | landLoose id index now =>
    left
    intro other
    simp only [step]
    split
    · exact write_target w id other _ now
    · rfl
  | cancelReport id now =>
    left
    exact fun other => change_target w.rows id other (.cancelled now) (fun row => by simp)
  | recover now =>
    left
    intro other
    simp only [step, World.target, recoverReports, Table.lookup_update]
    cases w.rows.lookup other <;> simp
  | crash id => exact .inl fun _ => rfl
  | signedOut id | openPeriod id | register id | enter id | note id | finish id | interrupt id | fail id | leave id
  | requestCancel id =>
    left
    intro other
    exact guarded _ id _ other

theorem Becomes.is {after : World Report} {other : Nat} (becomes : Becomes after other r)
    (found : after.run other = some r') : r' = r ∨ Move r r' := by
  obtain ⟨r'', found'', result⟩ := becomes
  rw [found''] at found
  cases found
  exact result

theorem run_target {id : Nat} : w.run id = none ↔ w.target id = none := by
  rw [run_none, World.target, Option.map_eq_none_iff]

theorem run_insert (w : World Report) (row : ReportRow Report) (t : Task Report) {id : Nat}
    (found : (World.set ⟨w.rows.insert row, w.task⟩ w.rows.nextId t).run id = some r) :
    (id = w.rows.nextId ∧ r = ⟨row.state, t⟩) ∨ id ≠ w.rows.nextId ∧ w.run id = some r := by
  obtain ⟨row', there, state, task⟩ := run_some.mp found
  rw [set_rows, Table.lookup_insert] at there
  by_cases new : id = w.rows.nextId
  · left
    subst new
    rw [if_pos rfl] at there
    cases there
    cases r with
    | mk s t' =>
      simp only [World.set, Function.update_self] at task
      simp only at state
      rw [← state, ← task]
      exact ⟨rfl, rfl⟩
  · rw [if_neg new] at there
    simp only [World.set, ne_eq, new, not_false_eq_true, Function.update_of_ne] at task
    exact .inr ⟨new, run_some.mpr ⟨row', there, state, task⟩⟩

theorem claimed_sane (scheduled : Bool) : Run.Sane ⟨.running, (Task.claimed scheduled : Task Report)⟩ := by
  cases scheduled <;> constructor <;> simp [Task.claimed, Task.inFlight]

theorem World.Good.sane_step (good : w.Good) {s : Step Report} (sound : Sound w s) {id : Nat}
    (found : (step w s).run id = some r) : r.Sane := by
  cases before : w.run id with
  | some r₀ =>
    rcases (step_becomes sound before).is found with rfl | move
    · exact good.sane id _ before
    · exact move.sane (good.sane id r₀ before)
  | none =>
    rcases step_rows w s with kept | ⟨target, trigger, now, periodStart, scheduled, -, -, -, after⟩
    · have none := run_target.mp before
      rw [← kept id] at none
      rw [run_target.mpr none] at found
      cases found
    · rw [after] at found
      rcases run_insert w _ _ found with ⟨-, rfl⟩ | ⟨-, old⟩
      · exact claimed_sane scheduled
      · rw [before] at old
        cases old

/-- What was there when a claim started a run of its target has come to its end. -/
theorem World.Good.superseded (good : w.Good) {target : String} {trigger : Trigger} {now : Int} {periodStart : Option Int}
    {scheduled : Bool} (sound : Sound w (.claim target trigger now periodStart scheduled))
    (quiet : w.rows.last (ReportRow.isRunning target) = none)
    (unanswered : w.rows.last (ReportRow.answers target now periodStart) = none) {id : Nat}
    (found : w.run id = some r) (same : w.target id = some target) : r.Past where
  sane := good.sane id r found
  running := by
    intro running
    obtain ⟨row, there, state, -⟩ := run_some.mp found
    simp only [World.target, there, Option.map_some, Option.some.injEq] at same
    exact absurd (state.trans running) (not_running quiet there same)
  settled := by
    intro stopped
    obtain ⟨row, there, state, task⟩ := run_some.mp found
    simp only [World.target, there, Option.map_some, Option.some.injEq] at same
    rw [← state] at stopped
    rw [← task]
    exact sound quiet unanswered (id, row) (w.rows.mem_rows_iff.mpr there) same stopped

theorem World.Good.step (good : w.Good) {s : Step Report} (sound : Sound w s) : (step w s).Good where
  sane _ _ found := good.sane_step sound found
  past := by
    intro id later r before same newer found
    have moved : ∀ r₀, w.run id = some r₀ → r₀.Past → r.Past := by
      intro r₀ found₀ past
      rcases (step_becomes sound found₀).is found with rfl | move
      · exact past
      · exact move.past past
    rcases step_rows w s with kept | ⟨target, trigger, now, periodStart, scheduled, rfl, quiet, unanswered, after⟩
    · rw [kept, kept] at same
      have old : w.run id ≠ none := by
        intro none
        rw [run_target, ← kept id, ← run_target] at none
        rw [none] at found
        cases found
      obtain ⟨r₀, found₀⟩ := Option.ne_none_iff_exists'.mp old
      have newer₀ : w.run later ≠ none := by
        intro none
        rw [run_target, ← kept later, ← run_target] at none
        exact newer none
      exact moved r₀ found₀ (good.past id later r₀ before same newer₀ found₀)
    · rw [after] at found newer same
      obtain ⟨r', found'⟩ := Option.ne_none_iff_exists'.mp newer
      rcases run_insert w _ _ found with ⟨rfl, -⟩ | ⟨old, found₀⟩
      · -- the new row has the greatest id
        exfalso
        rcases run_insert w _ _ found' with ⟨rfl, -⟩ | ⟨-, found₀⟩
        · omega
        · obtain ⟨row, there, -, -⟩ := run_some.mp found₀
          have := w.rows.lt_nextId (w.rows.mem_rows_iff.mpr there)
          simp only at this
          omega
      · simp only [World.target, set_rows, Table.lookup_insert, if_neg old] at same
        rcases run_insert w _ _ found' with ⟨rfl, -⟩ | ⟨new, found₀'⟩
        · rw [if_pos rfl] at same
          exact moved r found₀ (good.superseded sound quiet unanswered found₀ same)
        · rw [if_neg new] at same
          apply moved r found₀
          apply good.past id later r before same _ found₀
          rw [found₀']
          exact Option.some_ne_none r'

theorem idle_good (rows : Table (ReportRow Report)) : (World.idle rows).Good := by
  have gone : ∀ id r, (World.idle rows).run id = some r → r.task = Task.gone := by
    intro id r found
    obtain ⟨-, -, -, task⟩ := run_some.mp found
    exact task.symm
  have sane : ∀ id r, (World.idle rows).run id = some r → r.Sane := by
    intro id r found
    have task := gone id r found
    constructor <;> simp [task, Task.gone, Task.inFlight]
  refine ⟨sane, ?_⟩
  intro id later r _ _ _ found
  have task := gone id r found
  refine ⟨sane id r found, ?_, ?_⟩
  · simp [task, Task.gone, Task.inFlight]
  · intro _
    rw [not_canWrite, task]
    simp [Task.gone, Task.inFlight]

theorem run_good {w : World Report} {steps : List (Step Report)} (sound : EveryTurn step Sound w steps) (good : w.Good) :
    (steps.foldl step w).Good :=
  foldl_invariant World.Good (fun _ _ _ sound good => good.step sound) sound good

theorem step_stopped {s : Step Report} (good : w.Good) (sound : Sound w s) {id : Nat} (stopped : w.Stopped id) :
    (step w s).Stopped id := by
  obtain ⟨r, found, stopped⟩ := stopped
  obtain ⟨r', found', result⟩ := step_becomes sound found
  refine ⟨r', found', ?_⟩
  rcases result with rfl | move
  · exact stopped
  · exact move.stopped (good.sane id r found) stopped

theorem World.Good.not_overwrites (good : w.Good) : ¬ w.Overwrites := by
  rintro ⟨id, later, before, newer, same, ⟨r, found, stopped⟩, writes⟩
  have past := good.past id later r before same newer found
  obtain ⟨-, -, -, task⟩ := run_some.mp found
  rw [task] at writes
  exact past.settled stopped writes

/-- In every run whose final writes come upon running rows and whose claims wait for the stopped runs to end, a stopped
report stays stopped and does not overwrite what came after it. -/
theorem stopped_stays (rows : Table (ReportRow Report)) (earlier later : List (Step Report))
    (sound : EveryTurn step Sound (World.idle rows) (earlier ++ later)) :
    (∀ id, (earlier.foldl step (World.idle rows)).Stopped id →
      ((earlier ++ later).foldl step (World.idle rows)).Stopped id) ∧
      ¬ ((earlier ++ later).foldl step (World.idle rows)).Overwrites := by
  refine ⟨?_, (run_good sound (idle_good rows)).not_overwrites⟩
  intro id stopped
  obtain ⟨first, second⟩ := everyTurn_append.mp sound
  have good := run_good first (idle_good rows)
  rw [List.foldl_append]
  have both := foldl_invariant (fun w => w.Good ∧ w.Stopped id)
    (fun w s _ sound both => ⟨both.1.step sound, step_stopped both.1 sound both.2⟩) second ⟨good, stopped⟩
  exact both.2

/-- A nightly run as the scheduler makes it, up to its model call. -/
def untilModelCall : List (Step Unit) :=
  [.claim "db" .nightly 0 (some 0) true, .slot 1 1, .openPeriod 1 (0, 1), .land 1 2, .register 1, .enter 1,
    .note 1 (.selected []), .land 1 3, .note 1 (.writing 0), .land 1 4]

def givenUp : List (Step Unit) := untilModelCall ++ [.recover 1000]

def interruptedAfter : List (Step Unit) := [.interrupt 1 false 1001, .land 1 1002, .leave 1]

def startedAgain : List (Step Unit) := givenUp ++ [.claim "db" .user 1001 none false]

def answered : List (Step Unit) := [.finish 1 () false 1 0 1800, .land 1 1800]

theorem stopped_stays_interrupted :
    ((givenUp ++ interruptedAfter).foldl step (World.idle Table.empty)).Stopped 1 :=
  (stopped_stays Table.empty givenUp interruptedAfter (by decide)).1 1 ⟨_, rfl, rfl⟩

/-- While the model call takes its time the run is given up, another is started, and the first one writes its report
after all. -/
theorem slow_report_comes_back :
    (givenUp.foldl step (World.idle Table.empty)).Stopped 1 ∧
      (startedAgain.foldl step (World.idle Table.empty)).Overwrites ∧
      (((startedAgain ++ answered).foldl step (World.idle Table.empty)).run 1).map Run.state = some .done := by
  refine ⟨⟨_, rfl, rfl⟩, ⟨1, 2, by decide, ?_, rfl, ⟨_, rfl, rfl⟩, ?_⟩, rfl⟩
  · exact Option.some_ne_none _
  · exact .inl (by decide)

end Rdst.Reports
