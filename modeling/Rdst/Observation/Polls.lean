import Mathlib.Tactic.Linarith
import Rdst.Observation.Attribution

namespace Rdst.Observation.SelfTraffic

open Assoc Delta Machine

inductive Engine
  | postgresql
  | mysql
deriving DecidableEq

def seriesQueries : Nat := 10000

def collectEntrantStatements : Nat := 1000

/-- The collector of one target, as far as its windows depend on it, with the store's executions. -/
structure Collector where
  executions : Executions
  baseline : Baseline
  baselineCapturedAt : Option ℚ
  baselineEpoch : Option String
  /-- The server's clock less the local one, as it was measured last. -/
  clockOffset : ℚ
  coarse : Coarse

/-- A fetch of the statement statistics, with what the cycle comes upon at its steps. -/
structure Fetch where
  rows : List CounterRow
  epochId : String
  attemptedAt : ℚ
  /-- The local time when the fetch has returned; its rows carry the server's time. -/
  fetchedAt : ℚ
  /-- `_alias_map` and the tiers when the counters advance; there are no tiers without a monitor. -/
  resolved : Aliases
  ranks : Option Tiers
  /-- The same when the windows are reported. -/
  aliases : Aliases
  tiers : Option Tiers
  lookupFails : Bool

def Fetch.capturedAt (fetch : Fetch) : ℚ :=
  match fetch.rows with
  | [] => fetch.attemptedAt
  | row :: _ => row.capturedAt

/-- Detect a selective reset that leaves the epoch unchanged. -/
def pgTargetReset (engine : Engine) (collector : Collector) (rows : List CounterRow) : Bool :=
  match engine, collector.baselineCapturedAt with
  | .postgresql, some capturedAt =>
    let previous := collector.baseline.entries.filter fun item => item.2.capturedAt = capturedAt
    let current := fun key => rows.reverse.find? fun row => row.engineKey = key
    let shared := previous.filter fun item => (current item.1).isSome
    if previous.length < 100 then false
    else if previous.length ≤ shared.length * 2 then false
    else if shared.length < 10 then true
    else
      let regressions := shared.countP fun item => (current item.1).any fun row =>
        decide (row.calls < item.2.calls ∨ row.totalExecTime < item.2.totalExecTime)
      decide (max 5 (shared.length / 5) ≤ regressions)
  | _, _ => false

/-- The order in which the rows enter the baseline: with a monitor, the statements it keeps come last. -/
def baselineRows (fetch : Fetch) : List CounterRow :=
  match fetch.ranks with
  | none => fetch.rows
  | some ranks =>
    let rank := fun row : CounterRow => ((fetch.resolved row.engineKey).bind ranks).getD (seriesQueries + 1)
    fetch.rows.insertionSort fun a b => rank b < rank a ∨ (rank a = rank b ∧ a.totalExecTime ≤ b.totalExecTime)

def Collector.measuredOffset (collector : Collector) (fetch : Fetch) : ℚ :=
  if fetch.rows.isEmpty = true then collector.clockOffset else fetch.capturedAt - fetch.fetchedAt

def Collector.epochChanged (engine : Engine) (collector : Collector) (fetch : Fetch) : Bool :=
  !collector.baseline.entries.isEmpty && (decide (collector.baselineEpoch ≠ some fetch.epochId) ||
    (decide (collector.baselineEpoch = some fetch.epochId) && pgTargetReset engine collector fetch.rows))

def Collector.deltas (engine : Engine) (collector : Collector) (fetch : Fetch) : List DeltaResult :=
  if collector.epochChanged engine fetch = true ∨ collector.baseline.entries.isEmpty = true then []
  else match collector.baselineCapturedAt with
    | none => []
    | some start => processSnapshot collector.baseline fetch.rows start fetch.capturedAt false

/-- The counters move on to the fetch. -/
def Collector.advance (engine : Engine) (collector : Collector) (fetch : Fetch) : Collector :=
  { collector with
    clockOffset := collector.measuredOffset fetch
    baseline := advanceBaseline (if collector.epochChanged engine fetch = true then ∅ else collector.baseline)
      (baselineRows fetch) 3600 (seriesQueries + collectEntrantStatements : Nat)
    baselineCapturedAt := some fetch.capturedAt
    baselineEpoch := some fetch.epochId }

/-- The rows of a poll before the attribution, with the ones that are kept back. -/
def Collector.recent (engine : Engine) (collector : Collector) (fetch : Fetch) : Coarse × List ObservationRow :=
  recentObservationRows fetch.aliases fetch.tiers collector.coarse (collector.deltas engine fetch)
    (decide (engine = .mysql))

/-- A collector after a restart: the stored counters of its last epoch are its baseline. -/
def Collector.restarted (collector : Collector) (snapshots : Baseline) (epochId : String) : Collector where
  executions := collector.executions
  baseline := snapshots
  baselineCapturedAt := (snapshots.entries.map fun item => item.2.capturedAt).max?
  baselineEpoch := if snapshots.entries.isEmpty = true then none else some epochId
  clockOffset := 0
  coarse := ∅

/-- A target's collector, and the windows that it has reported. -/
structure World where
  collector : Collector
  reported : List Window

inductive Event
  | polled (fetch : Fetch)
  /-- A cycle that fails between the advance of its counters and its report. -/
  | abandoned (fetch : Fetch)
  /-- A lane of RDST records what it executed. -/
  | recorded (rows : List Execution)
  | pruned (cutoff now : ℚ)
  | restarted (snapshots : Baseline) (epochId : String)

def World.poll (engine : Engine) (world : World) (fetch : Fetch) : World where
  collector := { world.collector.advance engine fetch with coarse := (world.collector.recent engine fetch).1 }
  reported := world.reported ++ applyRdstAttribution world.collector.executions fetch.lookupFails
    (world.collector.measuredOffset fetch) (world.collector.recent engine fetch).2

def step (engine : Engine) (world : World) : Event → World
  | .polled fetch => world.poll engine fetch
  | .abandoned fetch => { world with collector := world.collector.advance engine fetch }
  | .recorded rows => { world with collector :=
      { world.collector with executions := world.collector.executions.recordRdstExecutions rows } }
  | .pruned cutoff now => { world with collector :=
      { world.collector with executions := world.collector.executions.pruneRdstExecutions cutoff now } }
  | .restarted snapshots epochId => { world with collector := world.collector.restarted snapshots epochId }

/-- A collector that starts for the first time, on the executions recorded by then. -/
def World.start (executions : Executions) : World where
  collector := ⟨executions, ∅, none, none, 0, ∅⟩
  reported := []

/-- No execution was subtracted more than once, in one window or in several. -/
def SubtractedOnce (windows : List Window) : Prop :=
  ((windows.flatMap Window.subtracted).map Execution.key).Nodup

/-- A window lost the whole counts of executions that lie in it as a whole, or nothing; and has no negative calls. -/
structure Window.Sound (window : Window) : Prop where
  inside : ∀ overlap ∈ window.subtracted, overlap.normalizedHash = window.measured.normalizedHash ∧
    Inside (window.measured.windowStart - window.offset) (window.measured.windowEnd - window.offset) overlap
  adjusted : window.row.callsDelta =
    if window.subtracted = [] then window.measured.callsDelta
    else window.measured.callsDelta.map fun calls => max 0 (calls - totalCount window.subtracted)
  notNegative : ∀ calls, window.row.callsDelta = some calls → 0 ≤ calls

/-- Every window of a statement that was reported had ended by then. -/
def Ended (windows : List Window) (normalized : String) (time : ℚ) : Prop :=
  ∀ window ∈ windows, window.measured.normalizedHash = normalized → window.measured.windowEnd ≤ time

/-- A poll measures the clock offset of the reported windows, and no counter it closes was opened before one of them
ended, nor does any window it kept back start before; a run that was subtracted is not recorded with a later start. -/
def Follows (world : World) : Event → Prop
  | .polled fetch =>
    (∀ window ∈ world.reported, window.offset = world.collector.measuredOffset fetch) ∧
      ∀ row ∈ fetch.rows, ∀ normalized ∈ fetch.aliases row.engineKey,
        (∀ base ∈ world.collector.baseline.lookup row.engineKey,
          Ended world.reported normalized base.capturedAt) ∧
        (fetch.tiers.isSome = true → ∀ prior ∈ world.collector.coarse.lookup normalized,
          Ended world.reported normalized prior.windowStart)
  | .recorded rows => ∀ row ∈ rows, ∀ window ∈ world.reported, ∀ old ∈ window.subtracted, old.key = row.key →
      row.startedAt ≤ old.startedAt
  | _ => True

instance (windows : List Window) (normalized : String) (time : ℚ) : Decidable (Ended windows normalized time) :=
  inferInstanceAs (Decidable (∀ window ∈ windows, window.measured.normalizedHash = normalized →
    window.measured.windowEnd ≤ time))

instance (world : World) (event : Event) : Decidable (Follows world event) :=
  match event with
  | .polled fetch => inferInstanceAs (Decidable (
      (∀ window ∈ world.reported, window.offset = world.collector.measuredOffset fetch) ∧
        ∀ row ∈ fetch.rows, ∀ normalized ∈ fetch.aliases row.engineKey,
          (∀ base ∈ world.collector.baseline.lookup row.engineKey,
            Ended world.reported normalized base.capturedAt) ∧
          (fetch.tiers.isSome = true → ∀ prior ∈ world.collector.coarse.lookup normalized,
            Ended world.reported normalized prior.windowStart)))
  | .abandoned _ => inferInstanceAs (Decidable True)
  | .recorded rows => inferInstanceAs (Decidable (∀ row ∈ rows, ∀ window ∈ world.reported,
      ∀ old ∈ window.subtracted, old.key = row.key → row.startedAt ≤ old.startedAt))
  | .pruned _ _ => inferInstanceAs (Decidable True)
  | .restarted _ _ => inferInstanceAs (Decidable True)

section Report

variable {executions : Executions} {fails : Bool} {offset : ℚ} {rows : List ObservationRow} {window : Window}

theorem plainWindow_sound (offset : ℚ) {row : ObservationRow} (grown : ∀ calls, row.callsDelta = some calls → 0 ≤ calls) :
    (plainWindow offset row).Sound :=
  ⟨fun _ member => absurd member List.not_mem_nil, rfl, grown⟩

theorem attributedWindow_sound (executions : Executions) (offset : ℚ) {row : ObservationRow}
    (grown : ∀ calls, row.callsDelta = some calls → 0 ≤ calls) : (attributedWindow executions offset row).Sound := by
  obtain ⟨same, shifted⟩ := attributedWindow_measured executions offset row
  have calls := attributedWindow_calls executions offset row
  refine ⟨?_, by rw [same]; exact calls, ?_⟩
  · intro overlap member
    obtain ⟨-, own, inside⟩ := (attributedWindow_subtracted executions offset row).2 overlap member
    rw [same, shifted]
    exact ⟨own, inside⟩
  · intro left counted
    rw [calls] at counted
    split at counted
    · exact grown left counted
    · obtain ⟨before, -, rfl⟩ := Option.map_eq_some_iff.mp counted
      exact le_max_left 0 _

/-- A window of the report is one of its rows, at this cycle's offset, and takes recorded executions only. -/
theorem reported_window (grown : ∀ row ∈ rows, ∀ calls, row.callsDelta = some calls → 0 ≤ calls)
    (member : window ∈ applyRdstAttribution executions fails offset rows) :
    window.measured ∈ rows ∧ window.offset = offset ∧ window.Sound ∧
      ∀ overlap ∈ window.subtracted, overlap ∈ executions.rows ∧ window.measured.callsDelta ≠ none := by
  obtain ⟨row, there, rfl⟩ := List.mem_map.mp member
  have fine := grown row there
  cases fails with
  | true => exact ⟨there, rfl, plainWindow_sound offset fine, fun overlap taken => absurd taken List.not_mem_nil⟩
  | false =>
    obtain ⟨same, shifted⟩ := attributedWindow_measured executions offset row
    refine ⟨same.symm ▸ there, shifted, attributedWindow_sound executions offset fine, ?_⟩
    intro overlap taken
    refine ⟨((attributedWindow_subtracted executions offset row).2 overlap taken).1, ?_⟩
    intro nothing
    simp only [Bool.false_eq_true, if_false] at taken nothing
    rw [same] at nothing
    rw [attributedWindow, if_pos nothing] at taken
    exact List.not_mem_nil taken

/-- The windows of one report are of different statements, and none of them takes a run that another one takes. -/
theorem reported_once (distinct : (rows.map ObservationRow.normalizedHash).Nodup) :
    SubtractedOnce (applyRdstAttribution executions fails offset rows) := by
  cases fails with
  | true =>
    have nothing : (applyRdstAttribution executions true offset rows).flatMap Window.subtracted = [] := by
      rw [List.flatMap_eq_nil_iff]
      intro window member
      obtain ⟨row, -, rfl⟩ := List.mem_map.mp member
      rfl
    rw [SubtractedOnce, nothing]
    exact List.nodup_nil
  | false =>
    induction rows with
    | nil => exact List.nodup_nil
    | cons row rest ih =>
      obtain ⟨apart, distinct⟩ := List.nodup_cons.mp distinct
      have own := attributedWindow_subtracted executions offset row
      have others := ih distinct
      simp only [SubtractedOnce, applyRdstAttribution, Bool.false_eq_true, if_false, List.map_cons, List.flatMap_cons,
        List.map_append] at others ⊢
      refine List.nodup_append.mpr ⟨own.1, others, ?_⟩
      intro key first key' second same
      obtain ⟨overlap, member, rfl⟩ := List.mem_map.mp first
      obtain ⟨overlap', member', rfl⟩ := List.mem_map.mp second
      obtain ⟨window, reported, taken⟩ := List.mem_flatMap.mp member'
      obtain ⟨row', there, rfl⟩ := List.mem_map.mp reported
      have hash := (own.2 overlap member).2.1
      have hash' := ((attributedWindow_subtracted executions offset row').2 overlap' taken).2.1
      have keys : overlap.normalizedHash = overlap'.normalizedHash := congrArg Prod.snd same
      exact apart (List.mem_map.mpr ⟨row', there, (hash'.symm.trans keys.symm).trans hash⟩)

end Report

section Runs

variable {engine : Engine} {world : World} {fetch : Fetch}

/-- Where the window of a row of this poll may start: after the windows of its statement, which may not reach into what
was kept back of it either. -/
def Allowed (world : World) (fetch : Fetch) (normalized : String) (start : ℚ) : Prop :=
  Ended world.reported normalized start ∧ (fetch.tiers.isSome = true →
    ∀ prior ∈ world.collector.coarse.lookup normalized, Ended world.reported normalized prior.windowStart)

/-- A delta with calls closes a counter that the fetch read and the baseline held. -/
theorem deltas_window {delta : DeltaResult} {calls : Int} (member : delta ∈ world.collector.deltas engine fetch)
    (counted : delta.callsDelta = some calls) :
    0 ≤ calls ∧ ∃ row ∈ fetch.rows, delta.engineKey = row.engineKey ∧ ∃ old,
      world.collector.baseline.lookup row.engineKey = some old ∧ delta.windowStart = old.capturedAt := by
  unfold Collector.deltas at member
  split at member
  · cases member
  · split at member
    · cases member
    · exact processSnapshot_window member counted

theorem reportedRow_spec {aliases : Aliases} {tiers : Option Tiers} {incremental : Bool} {delta : DeltaResult}
    {row : ObservationRow} (reported : reportedRow aliases tiers incremental delta = some row) :
    ∃ normalized, aliases delta.engineKey = some normalized ∧ row = windowRow normalized delta := by
  unfold reportedRow at reported
  split at reported
  · cases reported
  split at reported
  · cases reported
  split at reported
  · cases reported
  · rename_i normalized known
    split at reported
    · exact ⟨normalized, known, (Option.some.inj reported).symm⟩
    · cases reported

theorem merged_measured (follows : Follows world (.polled fetch)) :
    ∀ row ∈ mergedRows fetch.aliases fetch.tiers (decide (engine = .mysql)) (world.collector.deltas engine fetch),
      Measured (Allowed world fetch) row := by
  apply mergedRows_all
  · intro delta member row reported calls counted
    obtain ⟨normalized, known, rfl⟩ := reportedRow_spec reported
    obtain ⟨grown, read, there, same, old, base, opened⟩ := deltas_window member counted
    rw [same] at known
    obtain ⟨ended, kept⟩ := follows.2 read there normalized known
    refine ⟨grown, ?_, kept⟩
    show Ended world.reported normalized delta.windowStart
    rw [opened]
    exact ended old base
  · exact fun current row first second _ => joined_measured first second

theorem Measured.weaken {allowed less : String → ℚ → Prop} {row : ObservationRow} (measured : Measured allowed row)
    (weaker : ∀ normalized start, allowed normalized start → less normalized start) : Measured less row :=
  fun calls counted => ⟨(measured calls counted).1, weaker _ _ (measured calls counted).2⟩

/-- What a run of the collector keeps: no run was subtracted twice; one that was, is recorded with no later start; what
is kept back has no negative calls. -/
structure World.Good (world : World) : Prop where
  once : SubtractedOnce world.reported
  sound : ∀ window ∈ world.reported, window.Sound
  started : ∀ window ∈ world.reported, ∀ old ∈ window.subtracted, ∀ row ∈ world.collector.executions.rows,
    row.key = old.key → row.startedAt ≤ old.startedAt
  kept : ∀ key prior, world.collector.coarse.lookup key = some prior → Measured (fun _ _ => True) prior

theorem recent_measured (good : world.Good) (follows : Follows world (.polled fetch)) :
    ∀ row ∈ (world.collector.recent engine fetch).2, Measured (Allowed world fetch) row := by
  apply recentObservationRows_measured (merged_measured follows)
  intro monitored key start allowed prior found calls counted
  exact ⟨(good.kept key prior found calls counted).1, allowed.2 monitored prior found, allowed.2⟩

theorem recent_kept (good : world.Good) (follows : Follows world (.polled fetch)) {key : String}
    {prior : ObservationRow} (found : (world.collector.recent engine fetch).1.lookup key = some prior) :
    Measured (fun _ _ => True) prior := by
  apply recentObservationRows_kept _ good.kept found
  exact fun row member => (merged_measured follows row member).weaken fun _ _ _ => True.intro

/-- An execution in a window that starts after the end of another one is not the run that the other one took. -/
theorem World.Good.apart (good : world.Good) (follows : Follows world (.polled fetch)) {old window : Window}
    (before : old ∈ world.reported) (now : window ∈ applyRdstAttribution world.collector.executions fetch.lookupFails
      (world.collector.measuredOffset fetch) (world.collector.recent engine fetch).2)
    {taken overlap : Execution} (first : taken ∈ old.subtracted) (second : overlap ∈ window.subtracted) :
    taken.key ≠ overlap.key := by
  intro same
  have measured : ∀ row ∈ (world.collector.recent engine fetch).2, Measured (Allowed world fetch) row :=
    recent_measured good follows
  have grown : ∀ row ∈ (world.collector.recent engine fetch).2, ∀ calls, row.callsDelta = some calls → 0 ≤ calls :=
    fun row member calls counted => (measured row member calls counted).1
  obtain ⟨there, shifted, sound, recorded⟩ := reported_window grown now
  obtain ⟨known, counted⟩ := recorded overlap second
  obtain ⟨calls, counted⟩ := Option.ne_none_iff_exists'.mp counted
  obtain ⟨hash, after, -⟩ := sound.inside overlap second
  obtain ⟨hash', -, starts, -⟩ := (good.sound old before).inside taken first
  have hashes : taken.normalizedHash = overlap.normalizedHash := congrArg Prod.snd same
  have later := good.started old before taken first overlap known same.symm
  have ended := (measured _ there calls counted).2.1 old before ((hash'.symm.trans hashes).trans hash)
  rw [shifted] at after
  rw [follows.1 old before] at starts
  linarith

theorem World.Good.poll (good : world.Good) (follows : Follows world (.polled fetch)) :
    (world.poll engine fetch).Good := by
  have measured : ∀ row ∈ (world.collector.recent engine fetch).2, Measured (Allowed world fetch) row :=
    recent_measured good follows
  have grown : ∀ row ∈ (world.collector.recent engine fetch).2, ∀ calls, row.callsDelta = some calls → 0 ≤ calls :=
    fun row member calls counted => (measured row member calls counted).1
  refine ⟨?_, ?_, ?_, fun key prior found => recent_kept good follows found⟩
  · have distinct : ((world.collector.recent engine fetch).2.map ObservationRow.normalizedHash).Nodup :=
      recentObservationRows_distinct
    simp only [SubtractedOnce, World.poll, List.flatMap_append, List.map_append]
    refine List.nodup_append.mpr ⟨good.once, reported_once distinct, ?_⟩
    intro key first key' second same
    obtain ⟨taken, member, rfl⟩ := List.mem_map.mp first
    obtain ⟨overlap, member', rfl⟩ := List.mem_map.mp second
    obtain ⟨old, before, took⟩ := List.mem_flatMap.mp member
    obtain ⟨window, now, takes⟩ := List.mem_flatMap.mp member'
    exact good.apart follows before now took takes same
  · intro window member
    rcases List.mem_append.mp member with before | now
    · exact good.sound window before
    · exact (reported_window grown now).2.2.1
  · intro window member old taken row there same
    rcases List.mem_append.mp member with before | now
    · exact good.started window before old taken row there same
    · have recorded := ((reported_window grown now).2.2.2 old taken).1
      rw [Executions.eq_of_key there recorded same]

theorem World.Good.step (good : world.Good) {event : Event} (follows : Follows world event) :
    (step engine world event).Good := by
  cases event with
  | polled fetch => exact good.poll follows
  | abandoned fetch => exact ⟨good.once, good.sound, good.started, good.kept⟩
  | recorded rows =>
    refine ⟨good.once, good.sound, ?_, good.kept⟩
    intro window member old taken row there same
    rcases Executions.mem_recorded there with new | before
    · exact follows row new window member old taken same.symm
    · exact good.started window member old taken row before same
  | pruned cutoff now =>
    refine ⟨good.once, good.sound, ?_, good.kept⟩
    intro window member old taken row there same
    obtain ⟨before, known, key, start⟩ := Executions.mem_pruned there
    rw [start]
    exact good.started window member old taken before known (key.symm.trans same)
  | restarted snapshots epochId =>
    refine ⟨good.once, good.sound, good.started, ?_⟩
    intro key prior found
    cases found

theorem start_good (executions : Executions) : (World.start executions).Good := by
  refine ⟨List.nodup_nil, ?_, ?_, ?_⟩
  · exact fun window member => absurd member List.not_mem_nil
  · exact fun window member => absurd member List.not_mem_nil
  · intro key prior found
    cases found

/-- Whatever a target's polls come upon: where each of them takes its windows up where the reported ones ended, and at
their clock offset, no run of RDST is subtracted twice, none in part, and no window's calls are negative. -/
theorem subtracted_once (engine : Engine) (executions : Executions) (events : List Event)
    (followed : EveryTurn (step engine) Follows (World.start executions) events) :
    SubtractedOnce (events.foldl (step engine) (World.start executions)).reported ∧
      ∀ window ∈ (events.foldl (step engine) (World.start executions)).reported, window.Sound := by
  have good := foldl_invariant World.Good (fun _ _ _ follows good => good.step follows) followed
    (start_good executions)
  exact ⟨good.once, good.sound⟩

def counterAt (engineKey : String) (calls : Int) (time : ℚ) : CounterRow where
  engineKey := engineKey
  calls := calls
  rows := calls
  totalExecTime := calls
  meanExecTime := 1
  minExecTime := 1
  maxExecTime := 1
  capturedAt := time
  epochId := "epoch"
  statsSince := none
  firstSeen := none
  minmaxStatsSince := none
  blksHit := 0
  blksRead := 0
  tempBlks := 0

/-- A fetch of counters that all belong to one statement. -/
def fetchOf (rows : List CounterRow) (fetchedAt : ℚ) (tiers : Option Tiers) : Fetch where
  rows := rows
  epochId := "epoch"
  attemptedAt := fetchedAt
  fetchedAt := fetchedAt
  resolved := fun _ => some "statement"
  ranks := tiers
  aliases := fun _ => some "statement"
  tiers := tiers
  lookupFails := false

/-- Executions that completed at a point of time. -/
def completed (time : ℚ) : Event := .recorded [⟨"statement", "rdst/analyze", "run", time, some time, some 3⟩]

def steadyPolls : List Event :=
  [.polled (fetchOf [counterAt "app:q" 5 100] 100 none), completed 160,
    .polled (fetchOf [counterAt "app:q" 15 160] 160 none), .polled (fetchOf [counterAt "app:q" 25 220] 220 none)]

theorem subtracted_once_steady :
    SubtractedOnce (steadyPolls.foldl (step .mysql) (World.start .empty)).reported ∧
      ∀ window ∈ (steadyPolls.foldl (step .mysql) (World.start .empty)).reported, window.Sound :=
  subtracted_once .mysql .empty steadyPolls (by decide +kernel)

example : ((steadyPolls.foldl (step .mysql) (World.start .empty)).reported.map fun window => window.row.callsDelta) =
    [some 7, some 10] := by
  decide +kernel

/-- The clocks agree, and the second fetch takes two seconds. -/
def slowFetch : List Event :=
  [.polled (fetchOf [counterAt "app:q" 5 100] 100 none), completed 161,
    .polled (fetchOf [counterAt "app:q" 15 160] 162 none), .polled (fetchOf [counterAt "app:q" 25 220] 220 none)]

/-- The second poll reads one of the statement's two counters only, as the other one is idle. -/
def idleCounter : List Event :=
  [.polled (fetchOf [counterAt "app:q" 5 100, counterAt "crm:q" 5 100] 100 none), completed 130,
    .polled (fetchOf [counterAt "app:q" 15 160] 160 none),
    .polled (fetchOf [counterAt "crm:q" 15 220, counterAt "app:q" 25 220] 220 none)]

/-- The statement is not in full detail; at the third poll the monitor's store is not to be had. -/
def monitorAway : List Event :=
  let monitored : Option Tiers := some fun _ => some 2000
  [.polled (fetchOf [counterAt "app:q" 5 100] 100 monitored), .polled (fetchOf [counterAt "app:q" 15 160] 160 monitored),
    completed 190, .polled (fetchOf [counterAt "app:q" 25 220] 220 none),
    .polled (fetchOf [counterAt "app:q" 45 460] 460 monitored)]

/-- In each of these runs two windows have lost the counts of one execution. -/
theorem execution_subtracted_twice :
    ¬ SubtractedOnce (slowFetch.foldl (step .mysql) (World.start .empty)).reported ∧
      ¬ SubtractedOnce (idleCounter.foldl (step .mysql) (World.start .empty)).reported ∧
      ¬ SubtractedOnce (monitorAway.foldl (step .mysql) (World.start .empty)).reported := by
  unfold SubtractedOnce
  decide +kernel

end Runs

end Rdst.Observation.SelfTraffic
