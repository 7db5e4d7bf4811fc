import Rdst.Analysis.Lane
import Rdst.Lib.Permits

namespace Rdst.Analysis

open Machine Permits

variable {Tid Run : Type}

section Owning

variable {made : Nat → Bool} {connections : Run → List Nat} {phases : Tid → LanePhase Run} {trace events : List (LaneEvent Run)}

/-- No connection is touched after it was closed. -/
def Untouched (trace : List (LaneEvent Run)) : Prop :=
  trace.Pairwise fun before after => ∀ conn, before = .closed conn → after ≠ .asked conn ∧ after ≠ .aborted conn

/-- A connection has one thread, which keeps it open as long as it is listed with the run that it was registered with. -/
structure Owning (made : Nat → Bool) (connections : Run → List Nat) (phases : Tid → LanePhase Run)
    (trace : List (LaneEvent Run)) : Prop where
  known : ∀ t conn, (phases t).conn = some conn → made conn = true
  own : ∀ t u conn, (phases t).conn = some conn → (phases u).conn = some conn → t = u
  listed : ∀ run, ∀ conn ∈ connections run, ∃ t, (phases t).attached = some (conn, run)
  closed : ∀ conn, .closed conn ∈ trace → made conn = true ∧ ∀ t, (phases t).conn ≠ some conn
  untouched : Untouched trace

theorem Owning.in_use (owning : Owning made connections phases trace) {run : Run} {conn : Nat}
    (listed : conn ∈ connections run) : .closed conn ∉ trace := by
  intro closed
  obtain ⟨t, attached⟩ := owning.listed run conn listed
  exact (owning.closed conn closed).2 t (LanePhase.conn_of_attached attached)

/-- What threads do to connections that are in use leaves the closed ones alone. -/
theorem Owning.touch (owning : Owning made connections phases trace) (closes : ∀ conn, .closed conn ∉ events)
    (touches : ∀ conn, .asked conn ∈ events ∨ .aborted conn ∈ events → .closed conn ∉ trace) :
    Owning made connections phases (trace ++ events) where
  known := owning.known
  own := owning.own
  listed := owning.listed
  closed conn closed := by
    rcases List.mem_append.mp closed with before | now
    · exact owning.closed conn before
    · exact absurd now (closes conn)
  untouched := by
    apply List.pairwise_append.mpr
    refine ⟨owning.untouched, ?_, ?_⟩
    · apply List.pairwise_of_forall_mem_list
      rintro before now after _ conn rfl
      exact absurd now (closes conn)
    · rintro before earlier after now conn rfl
      constructor
      · rintro rfl
        exact touches conn (.inl now) earlier
      · rintro rfl
        exact touches conn (.inr now) earlier

/-- What a thread needs to know of its connection to keep it. -/
theorem Owning.keeps (owning : Owning made connections phases trace) {t : Tid} {conn : Nat}
    (here : (phases t).conn = some conn) (name : Nat) (same : some conn = some name) :
    made name = true ∧ .closed name ∉ trace ∧ ∀ u, (phases u).conn = some name → u = t := by
  cases same
  exact ⟨owning.known t conn here, fun closed => (owning.closed conn closed).2 t here,
    fun u there => owning.own u t conn there here⟩

theorem Owning.relist (owning : Owning made connections phases trace) {lists : Run → List Nat}
    (listed : ∀ run, ∀ conn ∈ lists run, ∃ t, (phases t).attached = some (conn, run)) :
    Owning made lists phases trace := { owning with listed := listed }

theorem Owning.close (owning : Owning made connections phases trace) {conn : Nat} (known : made conn = true)
    (unused : ∀ t, (phases t).conn ≠ some conn) : Owning made connections phases (trace ++ [.closed conn]) where
  known := owning.known
  own := owning.own
  listed := owning.listed
  closed name closed := by
    rcases List.mem_append.mp closed with before | now
    · exact owning.closed name before
    · cases List.mem_singleton.mp now
      exact ⟨known, unused⟩
  untouched := by
    apply List.pairwise_append.mpr
    refine ⟨owning.untouched, List.pairwise_singleton _ _, ?_⟩
    intro before _ after now name _
    rw [List.mem_singleton.mp now]
    simp

end Owning

section Asking

variable {stopped : Run → Bool} {connections : Run → List Nat} {phases : Tid → LanePhase Run}
  {trace events : List (LaneEvent Run)}

/-- A run that was stopped has all its registered connections asked to cancel, from the moment that `stop` lists them. -/
structure Asking (stopped : Run → Bool) (connections : Run → List Nat) (phases : Tid → LanePhase Run)
    (trace : List (LaneEvent Run)) : Prop where
  told : ∀ run, .signalled run ∈ trace → stopped run = true
  stopping : ∀ t run, phases t = .stopping run → stopped run = true
  covered : ∀ t conn run, (phases t).attached = some (conn, run) → conn ∈ connections run ∨ .asked conn ∈ trace
  halted : ∀ run, .snapshot run ∈ trace → stopped run = true
  listed : ∀ run, .snapshot run ∈ trace → ∀ conn ∈ connections run, .asked conn ∈ trace
  nobody : ∀ run, .snapshot run ∈ trace → ∀ t conn, phases t ≠ .appending conn run

theorem Asking.signal [DecidableEq Run] (asking : Asking stopped connections phases trace) (run : Run) :
    Asking (Function.update stopped run true) connections phases (trace ++ [.signalled run]) := by
  have kept {other : Run} (halted : stopped other = true) : Function.update stopped run true other = true := by
    by_cases same : other = run
    · rw [same, Function.update_self]
    · rw [Function.update_of_ne same, halted]
  have earlier {other : Run} (snapshot : .snapshot other ∈ trace ++ [.signalled run]) : .snapshot other ∈ trace := by
    simpa using snapshot
  exact {
    told := by
      intro other told
      rcases List.mem_append.mp told with before | now
      · exact kept (asking.told other before)
      · cases List.mem_singleton.mp now
        exact Function.update_self ..
    stopping := fun t other there => kept (asking.stopping t other there)
    covered := fun t conn other there => (asking.covered t conn other there).imp_right (List.mem_append_left _)
    halted := fun other snapshot => kept (asking.halted other (earlier snapshot))
    listed := fun other snapshot conn listed =>
      List.mem_append_left _ (asking.listed other (earlier snapshot) conn listed)
    nobody := fun other snapshot => asking.nobody other (earlier snapshot) }

theorem Asking.snap (asking : Asking stopped connections phases trace) {run : Run} (halted : stopped run = true)
    (nobody : ∀ t conn, phases t ≠ .appending conn run) :
    Asking stopped connections phases (trace ++ ((connections run).map LaneEvent.asked ++ [.snapshot run])) := by
  have taken {other : Run} (snapshot : .snapshot other ∈ trace ++ ((connections run).map LaneEvent.asked ++ [.snapshot run])) :
      .snapshot other ∈ trace ∨ other = run := by simpa using snapshot
  exact {
    told := fun other told => asking.told other (by simpa using told)
    stopping := asking.stopping
    covered := fun t conn other there => (asking.covered t conn other there).imp_right (List.mem_append_left _)
    halted := by
      intro other snapshot
      rcases taken snapshot with before | rfl
      · exact asking.halted other before
      · exact halted
    listed := by
      intro other snapshot conn listed
      rcases taken snapshot with before | rfl
      · exact List.mem_append_left _ (asking.listed other before conn listed)
      · simp [listed]
    nobody := by
      intro other snapshot
      rcases taken snapshot with before | rfl
      · exact asking.nobody other before
      · exact nobody }

/-- Connections may be listed where no snapshot was taken, and unlisted where nobody has them any more. -/
theorem Asking.relist (asking : Asking stopped connections phases trace) {lists : Run → List Nat}
    (covered : ∀ t conn run, (phases t).attached = some (conn, run) → conn ∈ connections run →
      conn ∈ lists run ∨ .asked conn ∈ trace)
    (listed : ∀ run, .snapshot run ∈ trace → ∀ conn ∈ lists run, conn ∈ connections run) :
    Asking stopped lists phases trace := { asking with
  covered := by
    intro t conn run there
    rcases asking.covered t conn run there with here | asked
    · exact covered t conn run there here
    · exact .inr asked
  listed := fun run snapshot conn there => asking.listed run snapshot conn (listed run snapshot conn there) }

end Asking

section Late

variable [DecidableEq Run] {run : Run} {trace events : List (LaneEvent Run)}

/-- The connections of the statements of a run among some events. -/
def starts (run : Run) (events : List (LaneEvent Run)) : List Nat :=
  events.filterMap fun event =>
    match event with
    | .started conn (some own) => if own = run then some conn else none
    | _ => none

/-- The connections of the statements of a run that began after it was told to stop. -/
def late (run : Run) : List (LaneEvent Run) → List Nat
  | [] => []
  | event :: rest => if event = .signalled run then starts run rest else late run rest

theorem starts_append (first second : List (LaneEvent Run)) :
    starts run (first ++ second) = starts run first ++ starts run second := List.filterMap_append

theorem late_append (told : .signalled run ∈ trace) : late run (trace ++ events) = late run trace ++ starts run events := by
  induction trace with
  | nil => cases told
  | cons event rest ih =>
    simp only [List.cons_append, late]
    split
    · exact starts_append rest events
    · rename_i other
      exact ih ((List.mem_cons.mp told).resolve_left (Ne.symm other))

theorem late_append_untold (untold : .signalled run ∉ trace) : late run (trace ++ events) = late run events := by
  induction trace with
  | nil => rfl
  | cons event rest ih =>
    have parts := not_or.mp fun here => untold (List.mem_cons.mpr here)
    rw [List.cons_append, late, if_neg (Ne.symm parts.1), ih parts.2]

theorem late_untold (untold : .signalled run ∉ trace) : late run trace = [] := by
  have bare : late run (trace ++ []) = late run [] := late_append_untold untold
  rwa [List.append_nil] at bare

theorem late_sublist (events : List (LaneEvent Run)) : (late run events).Sublist (starts run events) := by
  induction events with
  | nil => exact List.Sublist.slnil
  | cons event rest ih =>
    have wider : (starts run rest).Sublist (starts run (event :: rest)) :=
      (List.sublist_cons_self event rest).filterMap _
    rw [late]
    split
    · exact wider
    · exact ih.trans wider

/-- Where no statement of the run began, none began late. -/
theorem late_quiet (none : starts run events = []) : late run (trace ++ events) = late run trace := by
  by_cases told : .signalled run ∈ trace
  · rw [late_append told, none, List.append_nil]
  · have nothing : (late run events).Sublist (starts run events) := late_sublist events
    rw [none] at nothing
    rw [late_append_untold told, late_untold told, List.sublist_nil.mp nothing]

/-- After a run was told to stop, no statement begins but those that had passed their check by then. -/
structure Lateness (plan : RunPlan Run) (phases : Tid → LanePhase Run) (trace : List (LaneEvent Run)) : Prop where
  once : ∀ run conn, (late run trace).count conn ≤ 1 ∧ (conn ∈ late run trace → ∀ t, phases t ≠ .checked conn run)
  alone : ∀ run, plan.execute run = true → (late run trace).length ≤ 1 ∧
    (late run trace ≠ [] → ∀ t conn, phases t ≠ .checked conn run)

end Late

variable [DecidableEq Tid]

section Owning

variable {made : Nat → Bool} {connections : Run → List Nat} {phases : Tid → LanePhase Run} {trace : List (LaneEvent Run)}

/-- A thread that keeps its connection and its registration. -/
theorem Owning.stay (owning : Owning made connections phases trace) {t : Tid} {phase : LanePhase Run}
    (conn : (phases t).conn = phase.conn) (attached : (phases t).attached = phase.attached) :
    Owning made connections (Function.update phases t phase) trace := by
  have conns : ∀ u, (Function.update phases t phase u).conn = (phases u).conn :=
    (Function.forall_update_iff phases fun u phase => phase.conn = (phases u).conn).mpr ⟨conn.symm, fun _ _ => rfl⟩
  have attacheds : ∀ u, (Function.update phases t phase u).attached = (phases u).attached :=
    (Function.forall_update_iff phases fun u phase => phase.attached = (phases u).attached).mpr
      ⟨attached.symm, fun _ _ => rfl⟩
  exact {
    known := by simpa only [conns] using owning.known
    own := by simpa only [conns] using owning.own
    listed := by simpa only [attacheds] using owning.listed
    closed := by simpa only [conns] using owning.closed
    untouched := owning.untouched }

/-- A thread that has nothing listed turns to a connection of its own, or to none. -/
theorem Owning.turn (owning : Owning made connections phases trace) {t : Tid} {phase : LanePhase Run}
    (here : ∀ conn, phase.conn = some conn → made conn = true ∧ .closed conn ∉ trace ∧
      ∀ u, (phases u).conn = some conn → u = t)
    (unlisted : ∀ run conn, (phases t).attached = some (conn, run) → conn ∉ connections run) :
    Owning made connections (Function.update phases t phase) trace where
  known := (Function.forall_update_iff phases fun _ phase => ∀ conn, phase.conn = some conn → made conn = true).mpr
    ⟨fun conn there => (here conn there).1, fun u _ => owning.known u⟩
  own u v conn first second := by
    by_cases self : u = t
    · by_cases other : v = t
      · exact self.trans other.symm
      · rw [self, Function.update_self] at first
        rw [Function.update_of_ne other] at second
        exact absurd ((here conn first).2.2 v second) other
    · rw [Function.update_of_ne self] at first
      by_cases other : v = t
      · rw [other, Function.update_self] at second
        exact absurd ((here conn second).2.2 u first) self
      · rw [Function.update_of_ne other] at second
        exact owning.own u v conn first second
  listed run conn listed := by
    obtain ⟨u, there⟩ := owning.listed run conn listed
    refine ⟨u, ?_⟩
    rw [Function.update_of_ne, there]
    rintro rfl
    exact unlisted run conn there listed
  closed conn closed := by
    have before := owning.closed conn closed
    exact ⟨before.1, (Function.forall_update_iff phases fun _ phase => phase.conn ≠ some conn).mpr
      ⟨fun there => (here conn there).2.1 closed, fun u _ => before.2 u⟩⟩
  untouched := owning.untouched

end Owning

section Asking

variable {stopped : Run → Bool} {connections : Run → List Nat} {phases : Tid → LanePhase Run}
  {trace events : List (LaneEvent Run)}

/-- A thread goes on, where nobody is told anything new. -/
theorem Asking.stay (asking : Asking stopped connections phases trace) {t : Tid} {phase : LanePhase Run}
    (covered : ∀ conn run, phase.attached = some (conn, run) → conn ∈ connections run ∨ .asked conn ∈ trace ++ events)
    (appends : ∀ conn run, phase = .appending conn run → .snapshot run ∉ trace)
    (stops : ∀ run, phase = .stopping run → stopped run = true)
    (quiet : ∀ run, .signalled run ∉ events ∧ .snapshot run ∉ events) :
    Asking stopped connections (Function.update phases t phase) (trace ++ events) := by
  have earlier {run : Run} (snapshot : .snapshot run ∈ trace ++ events) : .snapshot run ∈ trace :=
    (List.mem_append.mp snapshot).resolve_right (quiet run).2
  have later {conn : Nat} (asked : .asked conn ∈ trace) : .asked conn ∈ trace ++ events := List.mem_append_left _ asked
  exact {
    told := fun run told => asking.told run ((List.mem_append.mp told).resolve_right (quiet run).1)
    stopping := (Function.forall_update_iff phases fun _ phase => ∀ run, phase = .stopping run → stopped run = true).mpr
      ⟨stops, fun u _ => asking.stopping u⟩
    covered := (Function.forall_update_iff phases fun _ phase => ∀ conn run, phase.attached = some (conn, run) →
      conn ∈ connections run ∨ .asked conn ∈ trace ++ events).mpr
        ⟨covered, fun u _ conn run there => (asking.covered u conn run there).imp_right later⟩
    halted := fun run snapshot => asking.halted run (earlier snapshot)
    listed := fun run snapshot conn listed => later (asking.listed run (earlier snapshot) conn listed)
    nobody := fun run snapshot => (Function.forall_update_iff phases fun _ phase => ∀ conn, phase ≠ .appending conn run).mpr
      ⟨fun conn there => appends conn run there (earlier snapshot), fun u _ => asking.nobody run (earlier snapshot) u⟩ }

/-- A thread that keeps its registration. -/
theorem Asking.move (asking : Asking stopped connections phases trace) {t : Tid} {phase : LanePhase Run}
    (attached : (phases t).attached = phase.attached) (appends : ∀ conn run, phase ≠ .appending conn run)
    (stops : ∀ run, phase ≠ .stopping run) (quiet : ∀ run, .signalled run ∉ events ∧ .snapshot run ∉ events) :
    Asking stopped connections (Function.update phases t phase) (trace ++ events) := by
  apply asking.stay
  · intro conn run there
    exact (asking.covered t conn run (attached.trans there)).imp_right (List.mem_append_left _)
  · exact fun conn run same => absurd same (appends conn run)
  · exact fun run same => absurd same (stops run)
  · exact quiet

end Asking

variable [DecidableEq Run]

section Locking

variable {plan : RunPlan Run} {lane next : Lane Tid Run} {events : List (LaneEvent Run)}

/-- The locks of the runs and of the targets are held by the threads that stand inside them. -/
structure Locking (plan : RunPlan Run) (lane : Lane Tid Run) : Prop where
  runs : Locks lane.runLock fun t => (lane.phase t).locks
  statements : Locks lane.statementLock fun t => (lane.phase t).states plan

theorem Locking.step (locking : Locking plan lane) (step : LaneStep plan lane next events) : Locking plan next := by
  have runStay {t : Tid} {phase : LanePhase Run} (same : (lane.phase t).locks = phase.locks) :
      Locks lane.runLock fun u => (Function.update lane.phase t phase u).locks := by
    rw [read_enter]
    exact locking.runs.stay same
  have statementStay {t : Tid} {phase : LanePhase Run} (same : (lane.phase t).states plan = phase.states plan) :
      Locks lane.statementLock fun u => (Function.update lane.phase t phase u).states plan := by
    rw [read_enter fun phase => phase.states plan]
    exact locking.statements.stay same
  cases step with
  | tables | signals | passes | returns => exact ⟨locking.runs, locking.statements⟩
  | moves t phase runs like => exact ⟨runStay like.locks, statementStay like.states⟩
  | takes t run here | refunds t run here | holds t run here | makes t run here | adds t conn run here
  | cancels t conn run here | checks t conn run here | starts t conn run here | free t conn here | stops t conn run here
  | snapshots t run here | aborts t run unanswered here =>
    exact ⟨runStay (by rw [here]; rfl), statementStay (by rw [here]; rfl)⟩
  | closes t conn here => rcases here with here | here <;> exact ⟨runStay (by rw [here]; rfl), statementStay (by rw [here]; rfl)⟩
  | lists t conn run here free =>
    refine ⟨?_, statementStay (by rw [here]; rfl)⟩
    simp only [Lane.enter]
    rw [read_enter]
    exact locking.runs.take free (by rw [here]; rfl)
  | added t conn run here | cancelled t conn run here =>
    refine ⟨?_, statementStay (by rw [here]; rfl)⟩
    simp only [Lane.enter, Lane.unlock]
    rw [read_enter]
    exact locking.runs.drop (by rw [here]; rfl)
  | unregisters t conn run here unlocked =>
    refine ⟨?_, statementStay (by rw [here]; rfl)⟩
    simp only [Lane.enter, Lane.unlock]
    rw [← unlocked, Function.update_eq_self]
    exact runStay (by rw [here]; rfl)
  | enters t conn run here executes free =>
    refine ⟨runStay (by rw [here]; rfl), ?_⟩
    simp only [Lane.enter]
    rw [read_enter fun phase => phase.states plan]
    simp only [LanePhase.states, if_pos executes]
    exact locking.statements.take free (by rw [here]; rfl)
  | ends t conn run here =>
    have locks : (lane.phase t).locks = none := by rcases here with here | here <;> rw [here] <;> rfl
    have states : (lane.phase t).states plan = if plan.execute run = true then some (plan.target run) else none := by
      rcases here with here | here <;> rw [here] <;> rfl
    refine ⟨runStay locks, ?_⟩
    simp only [Lane.enter]
    split
    · rename_i executes
      rw [read_enter fun phase => phase.states plan]
      exact locking.statements.drop (by rw [states, if_pos executes])
    · rename_i plain
      exact statementStay (by rw [states, if_neg plain]; rfl)

/-- The slots of a target that a thread has taken. -/
def Lane.slots (plan : RunPlan Run) (lane : Lane Tid Run) (target : String) (t : Tid) : Nat :=
  (lane.held t).count (some target) + if (lane.phase t).slot plan = some target then 1 else 0

theorem budgets_step (balanced : ∀ target, Balanced planAnalysisConcurrency (lane.budget target) (lane.slots plan target))
    (step : LaneStep plan lane next events) (target : String) :
    Balanced planAnalysisConcurrency (next.budget target) (next.slots plan target) := by
  have still {t : Tid} {phase : LanePhase Run} (same : (lane.phase t).slot plan = phase.slot plan) :
      Balanced planAnalysisConcurrency (lane.budget target) ((lane.enter t phase).slots plan target) := by
    apply (balanced target).step t
    · intro u ne
      simp [Lane.slots, Lane.enter, ne]
    · simp [Lane.slots, Lane.enter, same]
  cases step with
  | tables | signals => exact balanced target
  | moves t phase runs like => exact still like.slot
  | lists t conn run here | added t conn run here | cancelled t conn run here | makes t run here | adds t conn run here
  | cancels t conn run here | checks t conn run here | starts t conn run here | free t conn here | stops t conn run here
  | snapshots t run here | aborts t run unanswered here | enters t conn run here | unregisters t conn run here =>
    exact still (by rw [here]; rfl)
  | ends t conn run here | closes t conn here => rcases here with here | here <;> exact still (by rw [here]; rfl)
  | passes t held outside same =>
    apply (balanced target).step t
    · intro u ne
      simp [Lane.slots, ne]
    · simp [Lane.slots, same target]
  | takes t run here free =>
    apply (balanced target).step t
    · intro u ne
      simp [Lane.slots, Lane.enter, ne]
    · rcases eq_or_ne (plan.target run) target with rfl | other
      · simp [Lane.slots, Lane.enter, here, LanePhase.slot]
        omega
      · simp [Lane.slots, Lane.enter, here, LanePhase.slot, other, other.symm]
  | refunds t run here =>
    apply (balanced target).step t
    · intro u ne
      simp [Lane.slots, Lane.enter, ne]
    · rcases eq_or_ne (plan.target run) target with rfl | other
      · simp [Lane.slots, Lane.enter, here, LanePhase.slot]
        omega
      · simp [Lane.slots, Lane.enter, here, LanePhase.slot, other, other.symm]
  | holds t run here =>
    apply (balanced target).step t
    · intro u ne
      simp [Lane.slots, Lane.enter, ne]
    · rcases eq_or_ne (plan.target run) target with rfl | other
      · simp [Lane.slots, Lane.enter, here, LanePhase.slot]
      · simp [Lane.slots, Lane.enter, here, LanePhase.slot, other]
  | returns t name rest outside held =>
    apply (balanced target).step t
    · intro u ne
      simp [Lane.slots, ne]
    · rcases eq_or_ne name target with rfl | other
      · simp [Lane.slots, held]
        omega
      · simp [Lane.slots, held, other, other.symm]

end Locking

section Stepping

variable {plan : RunPlan Run} {lane next : Lane Tid Run} {trace events : List (LaneEvent Run)}

theorem Owning.step (owning : Owning lane.made lane.connections lane.phase trace)
    (step : LaneStep plan lane next events) :
    Owning next.made next.connections next.phase (trace ++ events) := by
  cases step with
  | tables | passes | returns =>
    rw [List.append_nil]
    exact owning
  | signals run => exact owning.touch (by simp) (by simp)
  | moves t phase runs like =>
    rw [List.append_nil]
    exact owning.stay like.conn like.attached
  | takes t run here | refunds t run here | holds t run here | lists t conn run here | adds t conn run here
  | cancels t conn run here | enters t conn run here | checks t conn run here =>
    rw [List.append_nil]
    exact owning.stay (by rw [here]; rfl) (by rw [here]; rfl)
  | starts t conn run here | free t conn here | stops t conn run here =>
    exact (owning.stay (by rw [here]; rfl) (by rw [here]; rfl)).touch (by simp) (by simp)
  | ends t conn run here =>
    rw [List.append_nil]
    rcases here with here | here <;> exact owning.stay (by rw [here]; rfl) (by rw [here]; rfl)
  | snapshots t run here =>
    apply (owning.stay (by rw [here]; rfl) (by rw [here]; rfl)).touch (by simp)
    intro conn touched
    exact owning.in_use (by simpa using touched)
  | aborts t run unanswered here =>
    apply (owning.stay (by rw [here]; rfl) (by rw [here]; rfl)).touch (by simp)
    intro conn touched
    have listed : conn ∈ unanswered ∧ conn ∈ lane.connections run := by simpa using touched
    exact owning.in_use listed.2
  | makes t conn outside fresh =>
    rw [List.append_nil]
    have unused (u : Tid) : (lane.phase u).conn ≠ some conn := by
      intro used
      rw [owning.known u conn used] at fresh
      cases fresh
    have more : Owning (Function.update lane.made conn true) lane.connections lane.phase trace := {
      known := by
        intro u name used
        have ne : name ≠ conn := by
          rintro rfl
          exact unused u used
        rw [Function.update_of_ne ne]
        exact owning.known u name used
      own := owning.own
      listed := owning.listed
      closed := by
        intro name closed
        have before := owning.closed name closed
        refine ⟨?_, before.2⟩
        by_cases same : name = conn
        · rw [same, Function.update_self]
        · rw [Function.update_of_ne same, before.1]
      untouched := owning.untouched }
    apply more.turn
    · rintro name ⟨⟩
      refine ⟨Function.update_self .., ?_, fun u used => absurd used (unused u)⟩
      intro closed
      rw [(owning.closed conn closed).1] at fresh
      cases fresh
    · simp [outside, LanePhase.attached]
  | added t conn run here =>
    rw [List.append_nil]
    have turned : Owning lane.made lane.connections (Function.update lane.phase t (.registered conn (some run))) trace :=
      owning.turn (owning.keeps (by rw [here]; rfl)) (by simp [here, LanePhase.attached])
    apply turned.relist
    simp only [Lane.enter, Lane.unlock]
    intro other name listed
    by_cases same : other = run
    · subst same
      rw [Function.update_self, List.mem_append] at listed
      rcases listed with before | new
      · exact turned.listed other name before
      · rw [List.mem_singleton.mp new]
        exact ⟨t, by rw [Function.update_self]; rfl⟩
    · rw [Function.update_of_ne same] at listed
      exact turned.listed other name listed
  | cancelled t conn run here =>
    have turned : Owning lane.made lane.connections (Function.update lane.phase t (.registered conn (some run))) trace :=
      owning.turn (owning.keeps (by rw [here]; rfl)) (by simp [here, LanePhase.attached])
    simp only [Lane.enter, Lane.unlock, Function.update_eq_self]
    apply turned.touch (by simp)
    intro name touched
    have same : name = conn := by simpa using touched
    rw [same]
    exact (owning.keeps (by rw [here]; rfl) conn rfl).2.1
  | unregisters t conn run here =>
    rw [List.append_nil]
    have subset (other : Run) : ∀ name ∈ Function.update lane.connections run
        ((lane.connections run).filter (· ≠ conn)) other, name ∈ lane.connections other := by
      intro name listed
      by_cases same : other = run
      · subst same
        rw [Function.update_self] at listed
        exact List.mem_of_mem_filter listed
      · rwa [Function.update_of_ne same] at listed
    apply (owning.relist fun other name listed => owning.listed other name (subset other name listed)).turn
    · exact owning.keeps (by rw [here]; rfl)
    · rintro other name attached listed
      rw [here] at attached
      cases attached
      simp at listed
  | closes t conn here =>
    have used : (lane.phase t).conn = some conn := by rcases here with here | here <;> rw [here] <;> rfl
    have unlisted : (lane.phase t).attached = none := by rcases here with here | here <;> rw [here] <;> rfl
    apply (owning.turn (by rintro _ ⟨⟩) (by simp [unlisted])).close (owning.known t conn used)
    intro u there
    by_cases self : u = t
    · rw [self, Function.update_self] at there
      cases there
    · rw [Function.update_of_ne self] at there
      exact self (owning.own u t conn there used)

theorem Asking.step (asking : Asking lane.stopped lane.connections lane.phase trace) (locking : Locking plan lane)
    (owning : Owning lane.made lane.connections lane.phase trace) (step : LaneStep plan lane next events) :
    Asking next.stopped next.connections next.phase (trace ++ events) := by
  cases step with
  | tables | passes | returns =>
    rw [List.append_nil]
    exact asking
  | signals run => exact asking.signal run
  | moves t phase runs like => exact asking.move like.attached like.appends like.stops (by simp)
  | takes t run here | refunds t run here | holds t run here | lists t conn run here | cancels t conn run here
  | enters t conn run here | checks t conn run here =>
    exact asking.move (by rw [here]; rfl) (by simp) (by simp) (by simp)
  | makes t conn here | starts t conn run here | free t conn here | aborts t run unanswered here =>
    exact asking.move (by rw [here]; rfl) (by simp) (by simp) (by simp)
  | closes t conn here | ends t conn run here =>
    rcases here with here | here <;> exact asking.move (by rw [here]; rfl) (by simp) (by simp) (by simp)
  | adds t conn run here live =>
    apply asking.stay
    · rintro other own ⟨⟩
    · rintro other own ⟨⟩ snapshot
      rw [asking.halted run snapshot] at live
      cases live
    · simp
    · simp
  | stops t run current outside =>
    have told : Asking (Function.update lane.stopped run true) lane.connections
        (Function.update lane.phase t (.stopping run)) (trace ++ [.signalled run] ++ []) := by
      apply (asking.signal run).stay <;> simp [LanePhase.attached]
    rwa [List.append_nil] at told
  | snapshots t run here unlocked =>
    have nobody (u : Tid) (conn : Nat) : lane.phase u ≠ .appending conn run := by
      intro there
      exact locking.runs.free unlocked (by rw [there]; rfl)
    have snapped : Asking lane.stopped lane.connections
        (Function.update lane.phase t (.answering run (lane.connections run)))
          (trace ++ ((lane.connections run).map LaneEvent.asked ++ [.snapshot run]) ++ []) := by
      apply (asking.snap (asking.stopping t run here) nobody).stay <;> simp [LanePhase.attached]
    rwa [List.append_nil] at snapped
  | added t conn run here =>
    have listed : Asking lane.stopped (Function.update lane.connections run (lane.connections run ++ [conn]))
        lane.phase trace := by
      apply asking.relist
      · intro u name other _ there
        by_cases same : other = run
        · subst same
          simp [there]
        · simp [same, there]
      · intro other snapshot name there
        have ne : other ≠ run := by
          rintro rfl
          exact asking.nobody other snapshot t conn here
        rwa [Function.update_of_ne ne] at there
    apply listed.stay
    · rintro name other ⟨⟩
      simp
    · simp
    · simp
    · simp
  | cancelled t conn run here =>
    simp only [Lane.enter, Lane.unlock, Function.update_eq_self]
    apply asking.stay
    · rintro name other ⟨⟩
      simp
    · simp
    · simp
    · simp
  | unregisters t conn run here =>
    have gone : Asking lane.stopped lane.connections (Function.update lane.phase t (.unregistered conn)) (trace ++ []) := by
      apply asking.stay <;> simp [LanePhase.attached]
    simp only [Lane.enter, Lane.unlock]
    apply gone.relist
    · intro u name other there listed
      have elsewhere : u ≠ t := by
        rintro rfl
        rw [Function.update_self] at there
        cases there
      rw [Function.update_of_ne elsewhere] at there
      left
      by_cases same : other = run
      · subst same
        have ne : name ≠ conn := by
          rintro rfl
          exact elsewhere (owning.own u t name (LanePhase.conn_of_attached there) (by rw [here]; rfl))
        simp [listed, ne]
      · simp [same, listed]
    · intro other _ name there
      by_cases same : other = run
      · subst same
        simp only [Function.update_self] at there
        exact List.mem_of_mem_filter there
      · rwa [Function.update_of_ne same] at there

/-- A thread that has passed no new check, and begins no statement of the run. -/
theorem Lateness.stay {phases : Tid → LanePhase Run} (lateness : Lateness plan phases trace) {t : Tid}
    {phase : LanePhase Run} (checks : ∀ conn run, phase = .checked conn run → late run trace = [])
    (quiet : ∀ run, starts run events = []) : Lateness plan (Function.update phases t phase) (trace ++ events) where
  once run conn := by
    rw [late_quiet (quiet run)]
    refine ⟨(lateness.once run conn).1, fun member => ?_⟩
    apply (Function.forall_update_iff phases fun _ phase => phase ≠ .checked conn run).mpr
    refine ⟨fun there => ?_, fun u _ => (lateness.once run conn).2 member u⟩
    rw [checks conn run there] at member
    cases member
  alone run executes := by
    rw [late_quiet (quiet run)]
    refine ⟨(lateness.alone run executes).1, fun some => ?_⟩
    exact (Function.forall_update_iff phases fun _ phase => ∀ conn, phase ≠ .checked conn run).mpr
      ⟨fun conn there => some (checks conn run there), fun u _ => (lateness.alone run executes).2 some u⟩

theorem Lateness.step (lateness : Lateness plan lane.phase trace)
    (told : ∀ run, .signalled run ∈ trace → lane.stopped run = true) (locking : Locking plan lane)
    (owning : Owning lane.made lane.connections lane.phase trace) (step : LaneStep plan lane next events) :
    Lateness plan next.phase (trace ++ events) := by
  cases step with
  | tables | passes | returns =>
    rw [List.append_nil]
    exact lateness
  | signals run =>
    have quiet (other : Run) : starts other [LaneEvent.signalled run] = [] := rfl
    exact {
      once := by
        intro other conn
        rw [late_quiet (quiet other)]
        exact lateness.once other conn
      alone := by
        intro other executes
        rw [late_quiet (quiet other)]
        exact lateness.alone other executes }
  | moves t phase runs like =>
    exact lateness.stay (fun conn run there => absurd there (like.checks conn run).2) fun _ => rfl
  | takes t run here | refunds t run here | holds t run here | makes t conn here | lists t conn run here
  | adds t conn run here | cancels t conn run here | added t conn run here | cancelled t conn run here
  | enters t conn run here | free t conn here | ends t conn run here | unregisters t conn run here | closes t conn here
  | stops t run here => exact lateness.stay (by simp) fun _ => rfl
  | snapshots t run here =>
    apply lateness.stay (by simp)
    intro other
    simp [starts]
  | aborts t run unanswered here =>
    apply lateness.stay (by simp)
    intro other
    simp [starts]
  | checks t conn run here live =>
    apply lateness.stay ?_ fun _ => rfl
    rintro name other ⟨⟩
    apply late_untold
    intro before
    rw [told run before] at live
    cases live
  | starts t conn run here =>
    have now (other : Run) : late other (trace ++ [.started conn (some run)]) = late other trace ∨
        other = run ∧ late other (trace ++ [.started conn (some run)]) = late other trace ++ [conn] := by
      by_cases same : other = run
      · subst same
        by_cases before : .signalled other ∈ trace
        · right
          refine ⟨rfl, ?_⟩
          rw [late_append before]
          simp [starts]
        · left
          rw [late_append_untold before, late_untold before]
          simp [late]
      · left
        apply late_quiet
        simp [starts, Ne.symm same]
    have earlier {u : Tid} {name : Nat} {other : Run}
        (there : Function.update lane.phase t (.running conn (some run)) u = .checked name other) :
        u ≠ t ∧ lane.phase u = .checked name other := by
      by_cases self : u = t
      · rw [self, Function.update_self] at there
        cases there
      · rw [Function.update_of_ne self] at there
        exact ⟨self, there⟩
    have fresh : conn ∉ late run trace := fun member => (lateness.once run conn).2 member t here
    constructor
    · intro other name
      have before := lateness.once other name
      rcases now other with same | ⟨rfl, more⟩
      · rw [same]
        exact ⟨before.1, fun member u there => before.2 member u (earlier there).2⟩
      · rw [more, List.count_append]
        constructor
        · by_cases own : name = conn
          · subst own
            rw [List.count_eq_zero_of_not_mem fresh]
            simp
          · simpa [List.count_singleton, Ne.symm own] using before.1
        · intro member u there
          rcases List.mem_append.mp member with old | new
          · exact before.2 old u (earlier there).2
          · rw [List.mem_singleton.mp new] at there
            exact (earlier there).1 (owning.own u t conn (by rw [(earlier there).2]; rfl) (by rw [here]; rfl))
    · intro other executes
      have before := lateness.alone other executes
      rcases now other with same | ⟨rfl, more⟩
      · rw [same]
        exact ⟨before.1, fun some u name there => before.2 some u name (earlier there).2⟩
      · have none : late other trace = [] := by
          by_contra some
          exact before.2 some t conn here
        rw [more, none]
        refine ⟨le_rfl, fun _ u name there => ?_⟩
        have inside {v : Tid} {c : Nat} (stands : lane.phase v = .checked c other) :
            (lane.phase v).states plan = some (plan.target other) := by
          rw [stands, LanePhase.states, if_pos executes]
        exact (earlier there).1 (locking.statements.alone (inside (earlier there).2) (inside here))

end Stepping

/-- What holds of the connections and statements of all runs together. -/
structure LaneSafe (plan : RunPlan Run) (lane : Lane Tid Run) (trace : List (LaneEvent Run)) : Prop where
  slots : ∀ target (threads : Finset Tid),
    ∑ t ∈ threads, (lane.held t).count (some target) ≤ planAnalysisConcurrency
  alone : ∀ t u conn other run stopped, lane.phase t = .running conn (some run) →
    lane.phase u = .running other (some stopped) → plan.execute run = true → plan.execute stopped = true →
      plan.target run = plan.target stopped → t = u
  asked : ∀ run, .snapshot run ∈ trace → ∀ t conn, (lane.phase t).attached = some (conn, run) → .asked conn ∈ trace
  untouched : Untouched trace
  late : ∀ run, (∀ conn, (late run trace).count conn ≤ 1) ∧
    (plan.execute run = true → (late run trace).length ≤ 1)

structure LaneInv (plan : RunPlan Run) (lane : Lane Tid Run) (trace : List (LaneEvent Run)) : Prop where
  locking : Locking plan lane
  budgets : ∀ target, Balanced planAnalysisConcurrency (lane.budget target) (lane.slots plan target)
  owning : Owning lane.made lane.connections lane.phase trace
  asking : Asking lane.stopped lane.connections lane.phase trace
  lateness : Lateness plan lane.phase trace

omit [DecidableEq Tid] in
theorem laneInv_start (plan : RunPlan Run) : LaneInv plan (Lane.start : Lane Tid Run) [] where
  locking := ⟨fun t run => by simp [Lane.start, LanePhase.locks], fun t target => by simp [Lane.start, LanePhase.states]⟩
  budgets target := by
    have none : (Lane.start : Lane Tid Run).slots plan target = fun _ => 0 := by
      funext t
      simp [Lane.slots, Lane.start, LanePhase.slot]
    rw [none]
    exact balanced_start _
  owning := {
    known := by simp [Lane.start, LanePhase.conn]
    own := by simp [Lane.start, LanePhase.conn]
    listed := by simp [Lane.start]
    closed := by simp
    untouched := List.Pairwise.nil }
  asking := {
    told := by simp
    stopping := by simp [Lane.start]
    covered := by simp [Lane.start, LanePhase.attached]
    halted := by simp
    listed := by simp
    nobody := by simp }
  lateness := ⟨fun run conn => by simp [late], fun run _ => by simp [late]⟩

theorem laneInv_step (plan : RunPlan Run) (lane : Lane Tid Run) (trace : List (LaneEvent Run)) (input : LaneInput Tid Run)
    (inv : LaneInv plan lane trace) :
    LaneInv plan (laneStep plan lane input).1 (trace ++ (laneStep plan lane input).2) where
  locking := inv.locking.step (laneStep_cases lane input)
  budgets := budgets_step inv.budgets (laneStep_cases lane input)
  owning := inv.owning.step (laneStep_cases lane input)
  asking := inv.asking.step inv.locking inv.owning (laneStep_cases lane input)
  lateness := inv.lateness.step inv.asking.told inv.locking inv.owning (laneStep_cases lane input)

/-- The statement that has passed its check begins although its run was stopped meanwhile. -/
example : late () (exec (laneStep ⟨fun _ => "orders", fun _ => true⟩) Lane.start [.begins true (), .reserve true, .proceeds true,
    .proceeds true, .opens true 0, .register true "orders", .proceeds true, .proceeds true, .proceeds true, .execute true,
    .proceeds true, .proceeds true, .stop false (), .proceeds true]).2 = [0] := by decide

end Rdst.Analysis
