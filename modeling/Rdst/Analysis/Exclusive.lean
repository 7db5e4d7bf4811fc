import Rdst.Analysis.Fencing

namespace Rdst.Analysis

open RowTable Machine

variable {calendar : Calendar} {s : Store} {process : Process} {target : String} {now : Int} {options : ClaimOptions}

/-- Outside the first hour there is room beside jobs that explain only, and for a job that executes beside none. -/
theorem room_spec (room : occupied s target now = false) (later : inFirstPass s target now = false) :
    (s.executes target = true → s.inState target .running = []) ∧
    ∀ row ∈ s.inState target .running, row.2.mode = some .explain := by
  simp only [occupied, later, Bool.not_false, Bool.and_true, Bool.true_and, Bool.or_eq_false_iff,
    decide_eq_false_iff_not, not_le] at room
  constructor
  · intro executes
    have none : (s.inState target .running).length < 1 := by simpa [executes] using room.1
    exact List.length_eq_zero_iff.mp (by omega)
  · intro row running
    have explains := List.any_eq_false.mp room.2 row running
    simpa using explains

theorem started_other {row : Row} (started : (claimAnalysis calendar process s target now options).2 = .started row)
    {id : Nat} {job : Job} (other : id ≠ row.1)
    (found : (claimAnalysis calendar process s target now options).1.jobs.lookup id = some job) :
    (reclaimDead process s target).jobs.lookup id = some job := by
  obtain ⟨_, _, -, -, -, result⟩ := started_cases started
  rw [result] at found
  simp only [Store.updateJob, Table.lookup_update, other, if_false, Option.map_id'] at found
  exact found

/-- When a claim starts a job outside the first hour, the other running jobs of its target only explain, and a job
    that may execute its query runs alone. -/
theorem started_alone {row : Row} (started : (claimAnalysis calendar process s target now options).2 = .started row)
    (later : inFirstPass s target now = false) {id : Nat} {job : Job} (other : id ≠ row.1)
    (found : (claimAnalysis calendar process s target now options).1.jobs.lookup id = some job)
    (same : job.target = target) (running : job.state = .running) :
    row.2.mode ≠ some .analyze ∧ job.mode = some .explain := by
  have member : (id, job) ∈ (reclaimDead process s target).inState target .running :=
    mem_inState.mpr ⟨started_other started other found, same, running⟩
  obtain ⟨_, own, room, -, mode, -⟩ := started_cases started
  obtain ⟨alone, explains⟩ := room_spec room later
  constructor
  · intro analyze
    have executes : (reclaimDead process s target).executes target = true := by
      by_contra never
      simp [mode, Job.start, never] at analyze
    rw [alone executes] at member
    cases member
  · exact explains _ member

/-- Whatever calls came before, changes of the settings among them: a claim outside the first monitored hour starts
    no job that may execute its query beside a running job of the target, and no job beside one that may. -/
theorem measured_runs_exclusive (calendar : Calendar) (s : Store) (calls : List Call) (process : Process)
    (target : String) (now : Int) (options : ClaimOptions) (row : Row)
    (started : (claimAnalysis calendar process (queueRun calendar s calls).1 target now options).2 = .started row)
    (later : inFirstPass (queueRun calendar s calls).1 target now = false) :
    ∀ id job, id ≠ row.1 →
      (claimAnalysis calendar process (queueRun calendar s calls).1 target now options).1.jobs.lookup id = some job →
      job.target = target → job.state = .running → row.2.mode ≠ some .analyze ∧ job.mode = some .explain :=
  fun _ _ other found same running => started_alone started later other found same running

def twoQueries : List Call :=
  [.enqueue "db" "p" .new 2 100 none, .enqueue "db" "q" .new 1 100 none,
    .claim (lonelyWorker "a" 1) "db" 200 openOptions]

/-- A query's job as its worker starts it. -/
def startedJob (key : String) (priority : ℚ) (now : Int) : Job :=
  { (blankJob "db" key .new .queued 100).start (lonelyWorker "a" 1) now false (some 1) with priority := priority }

theorem measured_runs_exclusive_twoQueries :
    (claimAnalysis Calendar.utc (lonelyWorker "a" 1) (queueRun Calendar.utc Store.new twoQueries).1 "db" 300
        openOptions).2 = .started (2, startedJob "q" 1 300) ∧
      (startedJob "q" 1 300).mode ≠ some .analyze ∧ (startedJob "p" 2 200).mode = some .explain := by
  have started : (claimAnalysis Calendar.utc (lonelyWorker "a" 1) (queueRun Calendar.utc Store.new twoQueries).1 "db"
      300 openOptions).2 = .started (2, startedJob "q" 1 300) := by decide +kernel
  have exclusive := measured_runs_exclusive Calendar.utc Store.new twoQueries (lonelyWorker "a" 1) "db" 300
    openOptions (2, startedJob "q" 1 300) started (by decide +kernel) 1 (startedJob "p" 2 200)
  exact ⟨started, exclusive (by decide) (by decide +kernel) rfl rfl⟩

end Rdst.Analysis
