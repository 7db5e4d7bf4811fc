import Mathlib.Data.List.Dedup
import Mathlib.Tactic.Linarith
import Mathlib.Tactic.Ring
import Rdst.Discovery.Scheduler
import Rdst.Lib.Run

namespace Rdst.Discovery.Scheduler

/-- The end of a reading that its rest is measured from. -/
inductive Anchor
  | start
  | finish

def Anchor.time : Anchor → ℚ → ℚ → ℚ
  | .start, startedElapsed, _ => startedElapsed
  | .finish, _, elapsed => elapsed

def restSeconds (cost : ℚ) : ℚ := min maxIntervalSeconds (20 * cost)

/-- From a successful reading to the target's next one there is the rest that its cost asks for. -/
def DutyKept (anchor : Anchor) (trace : List Mark) : Prop :=
  ∀ (later between earlier : List Mark) (name : String) (next startedElapsed elapsed cost : ℚ),
    trace = later ++ .started name next :: between ++ .succeeded name startedElapsed elapsed cost :: earlier →
    (∀ mark ∈ between, mark.name ≠ name) → anchor.time startedElapsed elapsed + restSeconds cost ≤ next

/-- When the target's rest ends, if its last mark is a success. -/
def restEnd (anchor : Anchor) (trace : List Mark) (name : String) : Option ℚ :=
  match trace.find? fun mark => mark.name = name with
  | some (.succeeded _ startedElapsed elapsed cost) => some (anchor.time startedElapsed elapsed + restSeconds cost)
  | _ => none

def Rested (anchor : Anchor) (trace : List Mark) (name : String) (time : ℚ) : Prop :=
  ∀ rest, restEnd anchor trace name = some rest → rest ≤ time

instance (anchor : Anchor) (trace : List Mark) (name : String) (time : ℚ) :
    Decidable (Rested anchor trace name time) :=
  match found : restEnd anchor trace name with
  | none => isTrue fun rest same => by rw [found] at same; cases same
  | some stop =>
    if passed : stop ≤ time then isTrue fun rest same => by
      rw [found] at same
      cases same
      exact passed
    else isFalse fun rested => passed (rested stop found)

variable {anchor : Anchor}

theorem Rested.mono {trace : List Mark} {name : String} {first second : ℚ}
    (rested : Rested anchor trace name first) (le : first ≤ second) : Rested anchor trace name second :=
  fun rest same => (rested rest same).trans le

theorem DutyKept.nil : DutyKept anchor [] := by
  intro later between earlier name next startedElapsed elapsed cost same
  simp at same

theorem DutyKept.succeeded {trace : List Mark} (kept : DutyKept anchor trace) (name : String)
    (startedElapsed elapsed cost : ℚ) : DutyKept anchor (.succeeded name startedElapsed elapsed cost :: trace) := by
  intro later between earlier other next startedElapsed' elapsed' cost' same apart
  cases later with
  | nil => simp at same
  | cons mark rest =>
    simp only [List.cons_append, List.cons.injEq] at same
    exact kept rest between earlier other next startedElapsed' elapsed' cost' (by simpa using same.2) apart

theorem DutyKept.started {trace : List Mark} (kept : DutyKept anchor trace) {name : String} {time : ℚ}
    (rested : Rested anchor trace name time) : DutyKept anchor (.started name time :: trace) := by
  intro later between earlier other next startedElapsed elapsed cost same apart
  cases later with
  | nil =>
    simp only [List.nil_append, List.cons_append, List.cons.injEq, Mark.started.injEq] at same
    obtain ⟨⟨rfl, rfl⟩, rfl⟩ := same
    apply rested
    have skipped : between.find? (fun mark => decide (mark.name = name)) = none := by
      rw [List.find?_eq_none]
      simpa using apart
    have found : (between ++ .succeeded name startedElapsed elapsed cost :: earlier).find?
        (fun mark => decide (mark.name = name)) = some (.succeeded name startedElapsed elapsed cost) := by
      rw [List.find?_append, skipped]
      simp [Mark.name]
    simp [restEnd, found]
  | cons mark rest =>
    simp only [List.cons_append, List.cons.injEq] at same
    exact kept rest between earlier other next startedElapsed elapsed cost (by simpa using same.2) apart

theorem restEnd_other {trace : List Mark} {mark : Mark} {name : String} (other : mark.name ≠ name) :
    restEnd anchor (mark :: trace) name = restEnd anchor trace name := by
  simp [restEnd, other]

theorem rested_started {trace : List Mark} {name : String} (elapsed time : ℚ) :
    Rested anchor (.started name elapsed :: trace) name time := by
  intro rest same
  simp [restEnd, Mark.name] at same

namespace World

variable (stableHash : String → Nat)

/-- The seconds from a time to the target's next slot. -/
def untilSlot (name : String) (now interval : ℚ) : ℚ :=
  interval - ((now - phaseOffset stableHash name interval) -
    ⌊(now - phaseOffset stableHash name interval) / interval⌋ * interval)

theorem alignedNext_eq (name : String) (now interval : ℚ) :
    alignedNext stableHash name now interval = now + untilSlot stableHash name now interval := by
  unfold alignedNext untilSlot
  ring

/-- While a target rests, it is idle or its last task is ending, and its slot is not before the rest's end. -/
def Fine (anchor : Anchor) (w : World) (name : String) (schedule : TargetSchedule) : Prop :=
  Rested anchor w.trace name w.elapsed ∨
    (schedule.task = none ∨ schedule.task = some .settled) ∧
      Rested anchor w.trace name (schedule.nextDue - w.skew)

structure Good (anchor : Anchor) (w : World) : Prop where
  kept : DutyKept anchor w.trace
  fine : ∀ entry ∈ w.schedules, Fine anchor w entry.1 entry.2

section Conditions

variable (anchor : Anchor) (w : World)

/-- Aligning an idle target to a shorter interval does not cut its rest. -/
def MayRealign (name : String) (interval : ℚ) : Prop :=
  Rested anchor w.trace name (w.elapsed + untilSlot stableHash name w.clock interval)

def MayRefresh : Option Listing → Prop
  | none => True
  | some listed =>
    (∀ entry ∈ w.schedules, entry.1 ∈ listed.targets → w.changed listed.monitored entry.1 → entry.2.task = none →
      { w with monitored := listed.monitored }.MayRealign stableHash anchor entry.1
        ({ w with monitored := listed.monitored }.baseInterval entry.1 (some entry.2))) ∧
    ∀ name ∈ listed.targets, name ∉ w.schedules.map Prod.fst →
      { w with monitored := listed.monitored }.MayRealign stableHash anchor name
        ({ w with monitored := listed.monitored }.baseInterval name none)

/-- No clock change is noticed while an idle target rests. -/
def MayLaunch : Prop :=
  w.stopping = false → tickSeconds * 5 < |w.jump| → ∀ entry ∈ w.schedules, entry.2.task = none →
    Rested anchor w.trace entry.1 w.elapsed

/-- An idle target that is made due does not rest. -/
def MayWake (name : String) : Prop :=
  ∀ entry ∈ w.schedules, entry.1 = name → entry.2.task = none → Rested anchor w.trace name w.elapsed

def MayEnsure (name : String) (listing : Option Listing) : Prop :=
  (w.schedule name).isNone → w.MayRefresh stableHash anchor listing

def MayWakeLaunch (name : String) : Prop := w.idle name → w.MayWake anchor name ∧ w.MayLaunch anchor

/-- What a subscriber edge does to an idle target does not cut its rest. -/
def MayHear (name : String) (subscribed : Bool) (listing : Option Listing) : Prop :=
  w.stopping = false → w.MayEnsure stableHash anchor name listing ∧
    (subscribed = true → (w.ensure stableHash name listing).MayWakeLaunch anchor name) ∧
    (subscribed = false → ∀ entry ∈ (w.ensure stableHash name listing).schedules, entry.1 = name → entry.2.task = none →
      (w.ensure stableHash name listing).MayRealign stableHash anchor name
        ((w.ensure stableHash name listing).baseInterval name (some entry.2)))

/-- After a success that cost so much, the next slot is not before the rest's end. -/
def SlotFar (name : String) (dbMs : Option ℚ) (startedElapsed : ℚ) (schedule : TargetSchedule) : Prop :=
  anchor.time startedElapsed w.elapsed + restSeconds (w.cost startedElapsed dbMs) ≤
    w.elapsed + untilSlot stableHash name w.clock (w.intervalAfter name schedule (w.cost startedElapsed dbMs))

def MaySucceed (name : String) (dbMs : Option ℚ) : Prop :=
  match (w.schedule name).bind TargetSchedule.task with
  | some (.reading startedElapsed) =>
    ∀ entry ∈ w.schedules, entry.1 = name → w.SlotFar stableHash anchor name dbMs startedElapsed entry.2
  | _ => True

/-- The step does not start a target's reading while the target rests: neither a call that makes it due, nor a
    clock change, nor a slot that comes too early after the reading. -/
def Patient : Act → Prop
  | .setClock skew => skew ≤ w.skew ∨ ∀ entry ∈ w.schedules, Rested anchor w.trace entry.1 w.elapsed
  | .start listing =>
    w.listening = false → { w with stopping := false }.MayRefresh stableHash anchor listing ∧
      ∀ entry ∈ ({ w with stopping := false }.refreshTargets stableHash listing).schedules,
        entry.1 ∈ ({ w with stopping := false }.refreshTargets stableHash listing).monitored →
        Rested anchor w.trace entry.1 w.elapsed
  | .runOnce listing =>
    w.stopping = false →
      (w.nextTargetRefresh ≤ w.clock →
        w.MayRefresh stableHash anchor listing ∧ (w.refreshTargets stableHash listing).MayLaunch anchor) ∧
      (¬ w.nextTargetRefresh ≤ w.clock → w.MayLaunch anchor)
  | .collectSoon name => w.MayWake anchor name
  | .startFastPhase name listing =>
    w.MayEnsure stableHash anchor name listing ∧ (w.ensure stableHash name listing).MayWakeLaunch anchor name
  | .checkNow name listing =>
    w.MayRefresh stableHash anchor listing ∧
      (name ∉ (w.refreshTargets stableHash listing).running →
        (w.refreshTargets stableHash listing).MayWakeLaunch anchor name)
  | .subscriber name subscribed listing =>
    w.listening = true → (w.edge name subscribed).MayHear stableHash anchor name subscribed listing
  | .succeed name dbMs => w.MaySucceed stableHash anchor name dbMs
  | _ => True

instance (name : String) (interval : ℚ) : Decidable (w.MayRealign stableHash anchor name interval) :=
  inferInstanceAs (Decidable (Rested _ _ _ _))

instance (listing : Option Listing) : Decidable (w.MayRefresh stableHash anchor listing) :=
  match listing with
  | none => inferInstanceAs (Decidable True)
  | some _ => inferInstanceAs (Decidable (_ ∧ _))

instance : Decidable (w.MayLaunch anchor) := inferInstanceAs (Decidable (_ → _ → ∀ _ ∈ _, _ → _))

instance (name : String) : Decidable (w.MayWake anchor name) := inferInstanceAs (Decidable (∀ _ ∈ _, _ → _ → _))

instance (name : String) (listing : Option Listing) : Decidable (w.MayEnsure stableHash anchor name listing) :=
  inferInstanceAs (Decidable (_ → _))

instance (name : String) : Decidable (w.MayWakeLaunch anchor name) := inferInstanceAs (Decidable (_ → _ ∧ _))

instance (name : String) (subscribed : Bool) (listing : Option Listing) :
    Decidable (w.MayHear stableHash anchor name subscribed listing) :=
  inferInstanceAs (Decidable (_ → _ ∧ (_ → _) ∧ (_ → ∀ _ ∈ _, _ → _ → _)))

instance (name : String) (dbMs : Option ℚ) (startedElapsed : ℚ) (schedule : TargetSchedule) :
    Decidable (w.SlotFar stableHash anchor name dbMs startedElapsed schedule) := inferInstanceAs (Decidable (_ ≤ _))

instance (name : String) (dbMs : Option ℚ) : Decidable (w.MaySucceed stableHash anchor name dbMs) :=
  match task : (w.schedule name).bind TargetSchedule.task with
  | some (.reading startedElapsed) =>
    decidable_of_iff (∀ entry ∈ w.schedules, entry.1 = name →
      w.SlotFar stableHash anchor name dbMs startedElapsed entry.2) (by rw [MaySucceed, task])
  | some .admitted | some .settled | none => isTrue (by rw [MaySucceed, task]; trivial)

instance (act : Act) : Decidable (w.Patient stableHash anchor act) :=
  match act with
  | .setClock _ => inferInstanceAs (Decidable (_ ∨ ∀ _ ∈ _, _))
  | .start _ => inferInstanceAs (Decidable (_ → _ ∧ ∀ _ ∈ _, _ → _))
  | .runOnce _ => inferInstanceAs (Decidable (_ → (_ → _ ∧ _) ∧ (_ → _)))
  | .collectSoon _ => inferInstanceAs (Decidable (MayWake _ _ _))
  | .startFastPhase _ _ => inferInstanceAs (Decidable (_ ∧ _))
  | .checkNow _ _ => inferInstanceAs (Decidable (_ ∧ (_ → _)))
  | .subscriber _ _ _ => inferInstanceAs (Decidable (_ → _))
  | .succeed _ _ => inferInstanceAs (Decidable (MaySucceed _ _ _ _ _))
  | .pass _ | .stop | .refused _ | .noLease _ | .begin _ | .recordFailure _ _ _ | .taskDone _
  | .collectionReturned _ => inferInstanceAs (Decidable True)

end Conditions

variable {stableHash} {w : World}

theorem schedule_mem {name : String} {schedule : TargetSchedule} (found : w.schedule name = some schedule) :
    (name, schedule) ∈ w.schedules := by
  unfold World.schedule at found
  rw [Option.map_eq_some_iff] at found
  obtain ⟨entry, here, rfl⟩ := found
  have named := List.find?_some here
  simp only [decide_eq_true_eq] at named
  rw [← named]
  exact List.mem_of_find?_eq_some here

/-- The clocks and the marks are what they were, and the schedules are fine. -/
theorem Good.same {next : World} (good : Good anchor w) (trace : next.trace = w.trace)
    (elapsed : next.elapsed = w.elapsed) (skew : next.skew = w.skew)
    (fine : ∀ entry ∈ next.schedules, Fine anchor w entry.1 entry.2) : Good anchor next := by
  refine ⟨trace ▸ good.kept, ?_⟩
  intro entry member
  have here := fine entry member
  rw [Fine, trace, elapsed, skew]
  exact here

theorem Good.mapped (good : Good anchor w) {f : String → TargetSchedule → TargetSchedule}
    (fine : ∀ entry ∈ w.schedules, Fine anchor w entry.1 entry.2 → Fine anchor w entry.1 (f entry.1 entry.2)) :
    Good anchor (w.mapSchedules f) := by
  refine good.same rfl rfl rfl ?_
  intro entry member
  obtain ⟨old, inside, rfl⟩ := List.mem_map.mp member
  exact fine old inside (good.fine old inside)

theorem Good.edit (good : Good anchor w) {name : String} {f : TargetSchedule → TargetSchedule}
    (fine : ∀ entry ∈ w.schedules, entry.1 = name → Fine anchor w name entry.2 → Fine anchor w name (f entry.2)) :
    Good anchor (w.edit name f) := by
  apply good.mapped
  intro entry member here
  split
  · rename_i same
    rw [same] at here ⊢
    exact fine entry member same here
  · exact here

/-- A target whose task runs has rested. -/
theorem Fine.rested {name : String} {schedule : TargetSchedule} (fine : Fine anchor w name schedule)
    (idle : schedule.task ≠ none) (ending : schedule.task ≠ some .settled) :
    Rested anchor w.trace name w.elapsed := by
  rcases fine with rested | ⟨still, _⟩
  · exact rested
  · rcases still with none_ | settled
    · exact absurd none_ idle
    · exact absurd settled ending

/-- A slot that is not before the rest's end by the monotonic clock. -/
theorem MayRealign.rested {name : String} {interval : ℚ} (may : w.MayRealign stableHash anchor name interval) :
    Rested anchor w.trace name (alignedNext stableHash name w.clock interval - w.skew) := by
  have same : alignedNext stableHash name w.clock interval - w.skew =
      w.elapsed + untilSlot stableHash name w.clock interval := by
    rw [alignedNext_eq, World.clock]
    ring
  rw [same]
  exact may

theorem Fine.realigned {name : String} {schedule : TargetSchedule} (fine : Fine anchor w name schedule)
    (may : schedule.task = none → w.MayRealign stableHash anchor name (w.baseInterval name (some schedule))) :
    Fine anchor w name (w.realign stableHash name schedule) := by
  unfold World.realign
  split
  · rename_i idle
    exact .inr ⟨.inl idle, (may idle).rested⟩
  · exact fine

theorem release_same (w : World) (name : String) :
    (w.release name).schedules = w.schedules ∧ (w.release name).trace = w.trace ∧
      (w.release name).elapsed = w.elapsed ∧ (w.release name).skew = w.skew := by
  unfold release
  split <;> exact ⟨rfl, rfl, rfl, rfl⟩

theorem releases_same (names : List (String × TargetSchedule)) (w : World) :
    (names.foldl (fun w entry => w.release entry.1) w).schedules = w.schedules ∧
      (names.foldl (fun w entry => w.release entry.1) w).trace = w.trace ∧
      (names.foldl (fun w entry => w.release entry.1) w).elapsed = w.elapsed ∧
      (names.foldl (fun w entry => w.release entry.1) w).skew = w.skew := by
  induction names generalizing w with
  | nil => exact ⟨rfl, rfl, rfl, rfl⟩
  | cons entry rest ih =>
    obtain ⟨schedules, trace, elapsed, skew⟩ := ih (w.release entry.1)
    obtain ⟨schedules', trace', elapsed', skew'⟩ := release_same w entry.1
    exact ⟨schedules.trans schedules', trace.trans trace', elapsed.trans elapsed', skew.trans skew'⟩

theorem Good.refresh (good : Good anchor w) {listing : Option Listing}
    (may : w.MayRefresh stableHash anchor listing) : Good anchor (w.refreshTargets stableHash listing) := by
  cases listing with
  | none => exact good.same rfl rfl rfl good.fine
  | some listed =>
    obtain ⟨existing, fresh⟩ := may
    unfold refreshTargets
    simp only
    refine good.same (releases_same _ _).2.1 (releases_same _ _).2.2.1 (releases_same _ _).2.2.2 ?_
    intro entry member
    rw [(releases_same _ _).1, List.mem_filter, decide_eq_true_eq] at member
    obtain ⟨member, wanted⟩ := member
    rcases List.mem_append.mp member with old | new
    · obtain ⟨before, inside, rfl⟩ := List.mem_map.mp old
      have here := good.fine before inside
      simp only at wanted ⊢
      split
      · rename_i moved
        have now_fine : Fine anchor { w with monitored := listed.monitored } before.1 before.2 := here
        exact now_fine.realigned fun idle => existing before inside wanted moved idle
      · exact here
    · obtain ⟨name, listed_name, rfl⟩ := List.mem_map.mp new
      rw [List.mem_filter, List.mem_dedup, decide_eq_true_eq] at listed_name
      have absent : name ∉ w.schedules.map Prod.fst := by
        have there := listed_name.2
        simpa [mapSchedules] using there
      exact .inr ⟨.inl rfl, (fresh name listed_name.1 absent).rested⟩

theorem Good.ensured (good : Good anchor w) {name : String} {listing : Option Listing}
    (may : w.MayEnsure stableHash anchor name listing) : Good anchor (w.ensure stableHash name listing) := by
  unfold ensure
  split
  · exact good
  · rename_i absent
    apply good.refresh
    apply may
    simpa using absent

theorem Fine.of_rested {name : String} {schedule : TargetSchedule}
    (rested : Rested anchor w.trace name w.elapsed) : Fine anchor w name schedule := .inl rested

theorem Good.woken (good : Good anchor w) {name : String} (may : w.MayWake anchor name) :
    Good anchor (w.dueNow name) := by
  apply good.edit
  intro entry member same fine
  split
  · rename_i idle
    exact .of_rested (may entry member same idle)
  · exact fine

theorem Good.soon (good : Good anchor w) {name : String} (may : w.MayWake anchor name) :
    Good anchor (w.collectSoon name) := by
  apply good.edit
  intro entry member same fine
  split
  · rename_i idle
    exact .of_rested (may entry member same idle)
  · exact fine

/-- Starting what is due. -/
theorem Good.launch (good : Good anchor w) (may : w.MayLaunch anchor) : Good anchor w.launchDue := by
  unfold launchDue
  split
  · exact good
  · rename_i going
    simp only
    generalize caught_eq : (if tickSeconds * 5 < |w.jump| then _ else _ : World) = caught
    have caught_good : Good anchor caught ∧ caught.elapsed = w.elapsed ∧ caught.skew = w.skew := by
      subst caught_eq
      split
      · rename_i jumped
        refine ⟨?_, rfl, rfl⟩
        refine good.same rfl rfl rfl ?_
        intro entry member
        obtain ⟨old, inside, rfl⟩ := List.mem_map.mp member
        by_cases idle : old.2.task = none
        · exact .of_rested (may (by simpa using going) jumped old inside idle)
        · simp only [if_neg idle]
          exact good.fine old inside
      · exact ⟨good.same rfl rfl rfl good.fine, rfl, rfl⟩
    obtain ⟨caught_good, elapsed, skew⟩ := caught_good
    refine Good.same (w := caught) caught_good rfl rfl rfl ?_
    intro entry member
    obtain ⟨old, inside, rfl⟩ := List.mem_map.mp member
    simp only
    split
    · rename_i launched
      obtain ⟨first, listed, named⟩ := List.mem_map.mp launched
      have is_due := (List.mem_insertionSort _).mp (List.mem_of_mem_take listed)
      rw [due, List.mem_filter] at is_due
      simp only [decide_eq_true_eq] at is_due
      obtain ⟨there, idle, come, _⟩ := is_due
      have rested : Rested anchor caught.trace old.1 caught.elapsed := by
        rw [← named]
        rcases caught_good.fine first there with rested | ⟨_, slot⟩
        · exact rested
        · apply slot.mono
          rw [World.clock] at come
          linarith
      exact .of_rested rested
    · exact caught_good.fine old inside

/-- Editing due times does not change which targets are idle. -/
theorem MayLaunch.edited (may : w.MayLaunch anchor) (name : String) {f : TargetSchedule → TargetSchedule}
    (task : ∀ schedule, (f schedule).task = schedule.task) : (w.edit name f).MayLaunch anchor := by
  intro going jumped entry member idle
  obtain ⟨old, inside, rfl⟩ := List.mem_map.mp member
  apply may going jumped old inside
  simp only at idle
  split at idle
  · rw [← task]
    exact idle
  · exact idle

theorem dueNow_task (w : World) (schedule : TargetSchedule) :
    (if schedule.task = none then { schedule with nextDue := w.clock } else schedule).task = schedule.task := by
  split <;> rfl

theorem soon_task (w : World) (schedule : TargetSchedule) :
    (if schedule.task = none then { schedule with nextDue := min schedule.nextDue w.clock } else schedule).task =
      schedule.task := by
  split <;> rfl

theorem refresh_clocks (stableHash : String → Nat) (w : World) (listing : Option Listing) :
    (w.refreshTargets stableHash listing).trace = w.trace ∧
      (w.refreshTargets stableHash listing).elapsed = w.elapsed := by
  cases listing with
  | none => exact ⟨rfl, rfl⟩
  | some listed => exact ⟨(releases_same _ _).2.1, (releases_same _ _).2.2.1⟩

theorem Good.started (good : Good anchor w) {listing : Option Listing}
    (may : w.Patient stableHash anchor (.start listing)) : Good anchor (w.start stableHash listing) := by
  unfold World.start
  split
  · exact good
  · rename_i idle
    obtain ⟨refreshes, rested⟩ := may (by simpa using idle)
    have opened : Good anchor { w with stopping := false } := good.same rfl rfl rfl good.fine
    have ready := opened.refresh refreshes
    obtain ⟨trace, elapsed⟩ := refresh_clocks stableHash { w with stopping := false } listing
    refine ready.same rfl rfl rfl ?_
    intro entry member
    obtain ⟨old, inside, rfl⟩ := List.mem_map.mp member
    simp only
    split
    · rename_i watched
      apply Fine.of_rested
      rw [trace, elapsed]
      exact rested old inside watched
    · exact ready.fine old inside

theorem Good.begun (good : Good anchor w) (name : String) : Good anchor (w.begin name) := by
  unfold World.begin
  split
  · rename_i admitted
    obtain ⟨schedule, found, task⟩ : ∃ schedule, w.schedule name = some schedule ∧
        schedule.task = some .admitted := by
      cases found : w.schedule name with
      | none => simp [found] at admitted
      | some schedule => exact ⟨schedule, rfl, by simpa [found] using admitted⟩
    have rested := (good.fine _ (schedule_mem found)).rested (by simp [task]) (by simp [task])
    refine ⟨good.kept.started rested, ?_⟩
    intro entry listed
    obtain ⟨old, inside, rfl⟩ := List.mem_map.mp listed
    by_cases same : old.1 = name
    · left
      rw [same]
      exact rested_started w.elapsed _
    · simp only [if_neg same]
      have here := good.fine old inside
      simp only [Fine, Rested] at here ⊢
      rw [restEnd_other (by simpa [Mark.name] using Ne.symm same)]
      exact here
  · exact good

theorem Good.succeeded (good : Good anchor w) {name : String} {dbMs : Option ℚ}
    (may : w.Patient stableHash anchor (.succeed name dbMs)) : Good anchor (w.succeed stableHash name dbMs) := by
  unfold World.succeed
  split
  · rename_i startedElapsed reading
    refine ⟨good.kept.succeeded _ _ _ _, ?_⟩
    intro entry listed
    obtain ⟨old, inside, rfl⟩ := List.mem_map.mp listed
    by_cases same : old.1 = name
    · simp only [if_pos same]
      refine .inr ⟨.inr rfl, ?_⟩
      have each : ∀ entry ∈ w.schedules, entry.1 = name →
          w.SlotFar stableHash anchor name dbMs startedElapsed entry.2 := by
        have whole : w.MaySucceed stableHash anchor name dbMs := may
        rw [MaySucceed, reading] at whole
        exact whole
      have far := each old inside same
      intro rest at_rest
      rw [same] at at_rest
      simp only [restEnd, List.find?_cons, Mark.name, decide_true, Option.some.injEq] at at_rest
      rw [← at_rest]
      apply le_trans far
      show _ ≤ alignedNext stableHash name w.clock (w.intervalAfter name old.2 (w.cost startedElapsed dbMs)) - w.skew
      rw [alignedNext_eq]
      have wall : w.clock = w.elapsed + w.skew := rfl
      linarith
    · simp only [if_neg same]
      have here := good.fine old inside
      simp only [Fine, Rested] at here ⊢
      rw [restEnd_other (by simpa [Mark.name] using Ne.symm same)]
      exact here
  · exact good

/-- A task that is not ending has let its target rest, so what it does to the schedule is fine. -/
theorem Good.task_step (good : Good anchor w) (name : String) {f : TargetSchedule → TargetSchedule}
    (running : ∀ schedule, f schedule ≠ schedule → schedule.task ≠ none ∧ schedule.task ≠ some .settled) :
    Good anchor (w.edit name f) := by
  apply good.edit
  intro entry member same fine
  by_cases still : f entry.2 = entry.2
  · rw [still]
    exact fine
  · exact .of_rested (fine.rested (running _ still).1 (running _ still).2)

theorem schedule_edit (w : World) (name other : String) (f : TargetSchedule → TargetSchedule) :
    (w.edit name f).schedule other = (w.schedule other).map fun schedule => if other = name then f schedule else schedule := by
  unfold World.schedule World.edit mapSchedules
  rw [List.find?_map, Option.map_map, Option.map_map]
  cases found : w.schedules.find? (fun entry => decide (entry.1 = other)) with
  | none =>
    have same : w.schedules.find? ((fun entry : String × TargetSchedule => decide (entry.1 = other)) ∘
        fun entry => (entry.1, if entry.1 = name then f entry.2 else entry.2)) = none := found
    rw [same]
    rfl
  | some entry =>
    have same : w.schedules.find? ((fun entry : String × TargetSchedule => decide (entry.1 = other)) ∘
        fun entry => (entry.1, if entry.1 = name then f entry.2 else entry.2)) = some entry := found
    have named : entry.1 = other := by simpa using List.find?_some found
    rw [same]
    simp [named]

theorem idle_edit (w : World) (name : String) {f : TargetSchedule → TargetSchedule}
    (task : ∀ schedule, (f schedule).task = schedule.task) : (w.edit name f).idle name = w.idle name := by
  unfold idle
  rw [schedule_edit]
  cases w.schedule name <;> simp [task]

theorem MayWake.edited {name : String} (may : w.MayWake anchor name) {f : TargetSchedule → TargetSchedule}
    (task : ∀ schedule, (f schedule).task = schedule.task) : (w.edit name f).MayWake anchor name := by
  intro entry member same idle
  obtain ⟨old, inside, rfl⟩ := List.mem_map.mp member
  simp only at same idle
  rw [if_pos same, task] at idle
  exact may old inside same idle

theorem Good.wake_launch (good : Good anchor w) {name : String}
    (may : w.MayWake anchor name ∧ w.MayLaunch anchor) : Good anchor (w.dueNow name).launchDue :=
  (good.woken may.1).launch (may.2.edited name (dueNow_task w))

theorem Good.fast (good : Good anchor w) {name : String} {listing : Option Listing}
    (may : w.Patient stableHash anchor (.startFastPhase name listing)) :
    Good anchor (w.startFastPhase stableHash name listing) := by
  obtain ⟨ensures, wakes⟩ := may
  have ready := good.ensured ensures
  unfold World.startFastPhase
  simp only
  generalize w.ensure stableHash name listing = opened at ready wakes ⊢
  split
  · exact ready
  · have task : ∀ schedule : TargetSchedule,
        ({ schedule with fastUntil := opened.clock + firstRunFastSeconds } : TargetSchedule).task = schedule.task :=
      fun _ => rfl
    have fast : Good anchor (opened.edit name fun schedule =>
        { schedule with fastUntil := opened.clock + firstRunFastSeconds }) :=
      ready.edit fun entry _ _ fine => fine
    have watched : Good anchor { opened.edit name fun schedule =>
        { schedule with fastUntil := opened.clock + firstRunFastSeconds } with
        monitored := name :: opened.monitored } := fast.same rfl rfl rfl fast.fine
    split
    · rename_i idle
      have was_idle : opened.idle name = true := (idle_edit opened name task).symm.trans idle
      obtain ⟨wake, launch⟩ := wakes was_idle
      exact watched.wake_launch ⟨wake.edited task, launch.edited name task⟩
    · exact watched

theorem Good.checked (good : Good anchor w) {name : String} {listing : Option Listing}
    (may : w.Patient stableHash anchor (.checkNow name listing)) :
    Good anchor (w.checkNow stableHash name listing) := by
  obtain ⟨refreshes, wakes⟩ := may
  have ready := good.refresh refreshes
  unfold World.checkNow
  simp only
  split
  · exact ready
  · split
    · rename_i free
      exact ready.wake_launch (wakes free.2 free.1)
    · exact ready

theorem Good.heard (good : Good anchor w) {name : String} {subscribed : Bool} {listing : Option Listing}
    (may : w.MayHear stableHash anchor name subscribed listing) :
    Good anchor (w.subscriberStateChanged stableHash name subscribed listing) := by
  unfold World.subscriberStateChanged
  split
  · exact good
  · rename_i going
    obtain ⟨ensures, next⟩ := may (by simpa using going)
    have ready := good.ensured ensures
    simp only
    generalize w.ensure stableHash name listing = opened at ready next ⊢
    cases subscribed with
    | true =>
      simp only [↓reduceIte]
      split
      · rename_i idle
        obtain ⟨wake, launch⟩ := next.1 rfl idle
        exact (ready.soon wake).launch (launch.edited name (soon_task opened))
      · exact ready
    | false =>
      simp only [Bool.false_eq_true, ↓reduceIte]
      apply ready.edit
      intro entry member same fine
      exact fine.realigned (next.2 rfl entry member same)

theorem Good.subscribed (good : Good anchor w) {name : String} {subscribed : Bool} {listing : Option Listing}
    (may : w.Patient stableHash anchor (.subscriber name subscribed listing)) :
    Good anchor (w.subscriber stableHash name subscribed listing) := by
  have edged : Good anchor (w.edge name subscribed) := good.same rfl rfl rfl good.fine
  unfold World.subscriber
  split
  · rename_i listening
    exact edged.heard (may listening)
  · exact edged

theorem Good.turn (good : Good anchor w) {listing : Option Listing}
    (may : w.Patient stableHash anchor (.runOnce listing)) : Good anchor (w.runOnce stableHash listing) := by
  unfold World.runOnce
  split
  · exact good
  · rename_i going
    have turn := may (by simpa using going)
    split
    · rename_i stale
      obtain ⟨refreshes, launch⟩ := turn.1 stale
      exact (good.refresh refreshes).launch launch
    · rename_i current
      exact good.launch (turn.2 current)

theorem Good.refused (good : Good anchor w) (name : String) : Good anchor (w.refused name) := by
  unfold World.refused
  apply good.task_step
  intro schedule moved
  split at moved
  · rename_i admitted
    simp [admitted]
  · exact absurd rfl moved

theorem Good.leaseless (good : Good anchor w) (name : String) : Good anchor (w.noLease stableHash name) := by
  unfold World.noLease
  apply good.task_step
  intro schedule moved
  split at moved
  · rename_i admitted
    simp [admitted]
  · exact absurd rfl moved

theorem Good.failed (good : Good anchor w) (name : String) (retryAfter : ℚ) (returned : Bool) :
    Good anchor (w.recordFailure name retryAfter returned) := by
  unfold World.recordFailure
  simp only
  have failed : Good anchor (w.edit name fun schedule =>
      match schedule.task with
      | some (.reading _) =>
        { schedule with
          consecutiveFailures := schedule.consecutiveFailures + 1
          nextDue := w.clock + max tickSeconds retryAfter
          task := some .settled }
      | _ => schedule) := by
    apply good.task_step
    intro schedule moved
    split at moved
    · rename_i reading
      simp [reading]
    · exact absurd rfl moved
  split
  · exact failed.same rfl rfl rfl failed.fine
  · exact failed

theorem Good.ended (good : Good anchor w) (name : String) : Good anchor (w.taskDone name) := by
  unfold World.taskDone
  split
  · have idle : Good anchor (w.edit name fun schedule => { schedule with task := none }) := by
      apply good.edit
      intro entry _ _ fine
      rcases fine with rested | ⟨_, slot⟩
      · exact .inl rested
      · exact .inr ⟨.inl rfl, slot⟩
    obtain ⟨schedules, trace, elapsed, skew⟩ := release_same (w.edit name fun schedule => { schedule with task := none }) name
    exact idle.same trace elapsed skew fun entry member => idle.fine entry (schedules ▸ member)
  · exact good

theorem Good.stopped (good : Good anchor w) : Good anchor w.stop := by
  refine good.same (releases_same _ _).2.1 (releases_same _ _).2.2.1 (releases_same _ _).2.2.2 ?_
  intro entry member
  rw [World.stop, (releases_same _ _).1] at member
  cases member

theorem Good.passed (good : Good anchor w) (seconds : NNRat) :
    Good anchor { w with elapsed := w.elapsed + seconds } := by
  refine ⟨good.kept, fun entry member => ?_⟩
  rcases good.fine entry member with rested | ⟨task, slot⟩
  · refine .inl (rested.mono ?_)
    show w.elapsed ≤ w.elapsed + (seconds : ℚ)
    have nonneg : (0 : ℚ) ≤ seconds := NNRat.cast_nonneg seconds
    linarith
  · exact .inr ⟨task, slot⟩

theorem Good.clockSet (good : Good anchor w) {skew : ℚ} (may : w.Patient stableHash anchor (.setClock skew)) :
    Good anchor { w with skew := skew } := by
  refine ⟨good.kept, fun entry member => ?_⟩
  rcases may with back | rested
  · rcases good.fine entry member with rested | ⟨task, slot⟩
    · exact .inl rested
    · refine .inr ⟨task, slot.mono ?_⟩
      show entry.2.nextDue - w.skew ≤ entry.2.nextDue - skew
      linarith
  · exact .inl (rested entry member)

theorem Good.returned (good : Good anchor w) (name : String) : Good anchor (w.collectionReturned name) := by
  unfold World.collectionReturned
  split <;> exact good.same rfl rfl rfl good.fine

theorem Good.step (good : Good anchor w) {act : Act} (may : w.Patient stableHash anchor act) :
    Good anchor (w.step stableHash act) := by
  cases act with
  | pass seconds => exact good.passed seconds
  | setClock skew => exact good.clockSet may
  | start listing => exact good.started may
  | stop => exact good.stopped
  | runOnce listing => exact good.turn may
  | collectSoon name => exact good.soon may
  | startFastPhase name listing => exact good.fast may
  | checkNow name listing => exact good.checked may
  | subscriber name subscribed listing => exact good.subscribed may
  | refused name => exact good.refused name
  | noLease name => exact good.leaseless name
  | begin name => exact good.begun name
  | recordFailure name retryAfter returned => exact good.failed name retryAfter returned
  | succeed name dbMs => exact good.succeeded may
  | taskDone name => exact good.ended name
  | collectionReturned name => exact good.returned name

theorem fresh_good (elapsed skew : ℚ) : Good anchor (World.fresh elapsed skew) :=
  ⟨.nil, fun _ member => by cases member⟩

end World

/-- A monitored target is read at once, its reading costs one second of the minute between two slots, and the
    next slot reads it again. -/
def steadyActs : List Act :=
  [.start (some ⟨["shop"], ["shop"]⟩), .runOnce none, .begin "shop", .pass 1, .succeed "shop" (some 1000),
    .taskDone "shop", .pass 29, .runOnce none, .begin "shop"]

/-- A reading that costs four seconds asks for eighty, but the slots of that interval do not follow those of the
    minute: one comes a second after the reading. -/
theorem rest_cut (anchor : Anchor) : ¬ ∀ acts : List Act,
    DutyKept anchor (acts.foldl (World.step fun _ => 0) (World.fresh 0 1035)).trace := by
  intro kept
  have trace : ([.start (some ⟨["shop"], ["shop"]⟩), .runOnce none, .begin "shop", .pass 4,
      .succeed "shop" (some 4000), .taskDone "shop", .pass 1, .runOnce none, .begin "shop"].foldl
        (World.step fun _ => 0) (World.fresh 0 1035)).trace =
      [.started "shop" 5, .succeeded "shop" 0 4 4, .started "shop" 0] := by decide +kernel
  have rest := kept _ [] [] [.started "shop" 0] "shop" 5 0 4 4 trace (by simp)
  cases anchor with
  | start => exact absurd rest (by decide +kernel)
  | finish => exact absurd rest (by decide +kernel)

end Rdst.Discovery.Scheduler
