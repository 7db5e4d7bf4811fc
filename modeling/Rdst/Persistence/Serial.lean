import Mathlib.Data.List.Infix
import Rdst.Persistence.Writers

namespace Rdst.Persistence

open Machine

variable {Key Atom Json Pid : Type} {depth : Nat} [DecidableEq Key] [DecidableEq Atom]
variable (formats : Formats Json (Mapping Key Atom depth)) (calls : Pid → Call Key Atom Json depth)

/-- In the `with` block of the lock. -/
def Phase.locked : Phase → Bool
  | .holding | .creating _ | .staging .. | .staged .. | .cleaning _ | .leaving _ => true
  | .waiting | .done _ | .killed => false

/-- The call took effect and will say so. -/
def Phase.landed : Phase → Bool
  | .leaving .returned | .done .returned => true
  | _ => false

def Phase.gone : Phase → Bool
  | .killed => true
  | _ => false

theorem Phase.alive_of_locked {phase : Phase} (held : phase.locked = true) : phase.gone = false := by
  cases phase <;> first | rfl | cases held

/-- What a call in the `with` block knows of the file and of its staging file. -/
def Ready (call : Call Key Atom Json depth) (file : Option Text) (temps : Nat → Option Text) : Phase → Prop
  | .creating writing => call.decision formats file = .write writing
  | .staging name left raises => ∃ written, call.decision formats file = .write ⟨written ++ left, raises⟩ ∧
      temps name = some written.flatten
  | .staged name _ => ∃ writing, call.decision formats file = .write writing ∧ temps name = some writing.text
  | _ => True

theorem ready_of_unlocked {call : Call Key Atom Json depth} {phase : Phase} (file : Option Text)
    (temps : Nat → Option Text) (outside : phase.locked = false) : Ready formats call file temps phase := by
  cases phase <;> first | exact True.intro | cases outside

@[simp] theorem committed_nil : committed ([] : List (Event Pid)) = [] := rfl

@[simp] theorem committed_append (first second : List (Event Pid)) :
    committed (first ++ second) = committed first ++ committed second := List.filterMap_append

@[simp] theorem committed_committed (p : Pid) : committed [Event.committed p] = [p] := rfl

@[simp] theorem committed_seen (text : Option Text) : committed [(Event.seen text : Event Pid)] = [] := rfl

@[simp] theorem serial_nil (start : Option Text) : serial formats calls start [] = start := rfl

theorem serial_snoc (start : Option Text) (log : List Pid) (p : Pid) :
    serial formats calls start (log ++ [p]) = (calls p).effect formats (serial formats calls start log) := by
  simp [serial]

/-- The lock has one holder, who knows the file; the file is what the calls that took effect make of it one by one. -/
structure Sound (start : Option Text) (d : Disk Pid) (trace : List (Event Pid)) : Prop where
  file : d.file = serial formats calls start (committed trace)
  once : (committed trace).Nodup
  holder : ∀ p, (d.phase p).locked = true ↔ d.lock = some p
  ready : ∀ p, Ready formats (calls p) d.file d.temps (d.phase p)
  landed : ∀ p, (d.phase p).landed = true → p ∈ committed trace
  logged : ∀ p ∈ committed trace, (d.phase p).landed = true ∨ (d.phase p).gone = true
  seen : ∀ text, .seen text ∈ trace → ∃ earlier, earlier <+: committed trace ∧ text = serial formats calls start earlier

variable {formats calls} {start : Option Text} {d : Disk Pid} {trace : List (Event Pid)}

theorem sound_start : Sound formats calls start (Disk.start start) ([] : List (Event Pid)) where
  file := rfl
  once := List.nodup_nil
  holder p := by simp [Disk.start, Phase.locked]
  ready p := True.intro
  landed p here := by cases here
  logged p member := by cases member
  seen text member := by cases member

theorem Sound.look (sound : Sound formats calls start d trace) : Sound formats calls start d (trace ++ [.seen d.file]) where
  file := by simpa using sound.file
  once := by simpa using sound.once
  holder := sound.holder
  ready := sound.ready
  landed p here := by simpa using sound.landed p here
  logged p member := sound.logged p (by simpa using member)
  seen text member := by
    rw [committed_append, committed_seen, List.append_nil]
    rcases List.mem_append.mp member with old | new
    · exact sound.seen text old
    · cases List.mem_singleton.mp new
      exact ⟨committed trace, List.prefix_refl _, sound.file⟩

variable [DecidableEq Pid]

/-- A step that leaves the file alone. Only the holder of the lock touches staging files. -/
theorem Sound.move (sound : Sound formats calls start d trace) {p : Pid} {old : Phase} (here : d.phase p = old)
    (alive : old.gone = false) (phase : Phase) (temps : Nat → Option Text) (lock : Option Pid)
    (same : phase.gone = true ∨ phase.landed = old.landed)
    (mine : phase.locked = true ↔ lock = some p) (others : ∀ q, q ≠ p → (lock = some q ↔ d.lock = some q))
    (untouched : temps = d.temps ∨ d.lock = some p) (ready : Ready formats (calls p) d.file temps phase) :
    Sound formats calls start ⟨d.file, temps, lock, Function.update d.phase p phase⟩ trace where
  file := sound.file
  once := sound.once
  holder q := by
    by_cases equal : q = p
    · subst equal
      simpa using mine
    · simp only [Function.update_of_ne equal]
      rw [others q equal, sound.holder q]
  ready q := by
    by_cases equal : q = p
    · subst equal
      simpa using ready
    · simp only [Function.update_of_ne equal]
      rcases untouched with rfl | held
      · exact sound.ready q
      · have outside : (d.phase q).locked = false := by
          rw [Bool.eq_false_iff, Ne, sound.holder q, held]
          exact fun holder => equal (Option.some.inj holder).symm
        exact ready_of_unlocked formats _ _ outside
  landed q := by
    by_cases equal : q = p
    · subst equal
      simp only [Function.update_self]
      intro landed
      rcases same with gone | same
      · cases phase <;> cases gone
        cases landed
      · exact sound.landed q (by rw [here, ← same, landed])
    · simpa only [Function.update_of_ne equal] using sound.landed q
  logged q member := by
    by_cases equal : q = p
    · subst equal
      simp only [Function.update_self]
      rcases same with gone | same
      · exact .inr gone
      · have before := sound.logged q member
        rw [here, alive, or_iff_left Bool.false_ne_true] at before
        exact .inl (same.trans before)
    · simpa only [Function.update_of_ne equal] using sound.logged q member
  seen := sound.seen

/-- The step at which the call of the holder takes effect. -/
theorem Sound.commit (sound : Sound formats calls start d trace) {p : Pid} {old : Phase} (here : d.phase p = old)
    (held : old.locked = true) (pending : old.landed = false) (temps : Nat → Option Text) {file : Option Text}
    (effect : file = (calls p).effect formats d.file) :
    Sound formats calls start ⟨file, temps, d.lock, Function.update d.phase p (.leaving .returned)⟩
      (trace ++ [.committed p]) := by
  have lock := (sound.holder p).mp (here ▸ held)
  have new : p ∉ committed trace := by
    intro member
    have before := sound.logged p member
    rw [here, pending, Phase.alive_of_locked held] at before
    simp at before
  constructor
  · rw [committed_append, committed_committed, serial_snoc, ← sound.file, effect]
  · rw [committed_append, committed_committed, List.nodup_append]
    refine ⟨sound.once, List.nodup_singleton p, ?_⟩
    rintro q member _ last rfl
    rw [List.mem_singleton.mp last] at member
    exact new member
  · intro q
    by_cases equal : q = p
    · subst equal
      simp [Phase.locked, lock]
    · simpa only [Function.update_of_ne equal] using sound.holder q
  · intro q
    by_cases equal : q = p
    · subst equal
      simp [Ready]
    · simp only [Function.update_of_ne equal]
      have outside : (d.phase q).locked = false := by
        rw [Bool.eq_false_iff, Ne, sound.holder q, lock]
        exact fun holder => equal (Option.some.inj holder).symm
      exact ready_of_unlocked formats _ _ outside
  · intro q
    rw [committed_append, committed_committed, List.mem_append, List.mem_singleton]
    by_cases equal : q = p
    · exact fun _ => .inr equal
    · simp only [Function.update_of_ne equal]
      exact fun landed => .inl (sound.landed q landed)
  · intro q member
    rw [committed_append, committed_committed, List.mem_append, List.mem_singleton] at member
    by_cases equal : q = p
    · subst equal
      simp [Phase.landed]
    · simp only [Function.update_of_ne equal]
      exact sound.logged q (member.resolve_right equal)
  · intro text member
    have old : Event.seen text ∈ trace := by simpa using member
    obtain ⟨earlier, front, same⟩ := sound.seen text old
    rw [committed_append]
    exact ⟨earlier, front.trans (List.prefix_append _ _), same⟩

/-- A step from one operation in the `with` block to another. -/
theorem Sound.stays (sound : Sound formats calls start d trace) {p : Pid} {old : Phase} (here : d.phase p = old)
    (held : old.locked = true) (phase : Phase) (temps : Nat → Option Text) (open_ : phase.locked = true)
    (same : phase.landed = old.landed) (ready : Ready formats (calls p) d.file temps phase) :
    Sound formats calls start ⟨d.file, temps, d.lock, Function.update d.phase p phase⟩ trace := by
  have lock := (sound.holder p).mp (here ▸ held)
  exact sound.move here (Phase.alive_of_locked held) phase temps d.lock (.inr same) (by simp [open_, lock])
    (fun q _ => Iff.rfl) (.inr lock) ready

theorem Sound.runs (sound : Sound formats calls start d trace) (p : Pid) (name : Nat) :
    Sound formats calls start (d.runs formats (calls p) p name).1 (trace ++ (d.runs formats (calls p) p name).2) := by
  have ready := sound.ready p
  unfold Disk.runs
  cases phase : d.phase p with
  | waiting =>
    simp only
    split
    · rename_i free
      rw [List.append_nil]
      refine sound.move phase rfl .holding d.temps (some p) (.inr rfl) ?_ ?_ (.inl rfl) True.intro
      · simp [Phase.locked]
      · intro q other
        simp [free, Ne.symm other]
    · rwa [List.append_nil]
  | holding =>
    simp only
    cases decision : (calls p).decision formats d.file with
    | write writing =>
      rw [List.append_nil]
      exact sound.stays phase rfl (.creating writing) d.temps rfl rfl decision
    | remove => exact sound.commit phase rfl rfl d.temps (by simp [Call.effect, decision])
    | nothing => exact sound.commit phase rfl rfl d.temps (by simp [Call.effect, decision])
    | raise =>
      rw [List.append_nil]
      exact sound.stays phase rfl (.leaving .raised) d.temps rfl rfl True.intro
  | creating writing =>
    rw [phase] at ready
    simp only
    split
    · rw [List.append_nil]
      refine sound.stays phase rfl (.staging name writing.pieces writing.raises) _ rfl rfl ⟨[], ready, ?_⟩
      simp
    · rwa [List.append_nil]
  | staging temp left raises =>
    rw [phase] at ready
    obtain ⟨written, decision, content⟩ := ready
    cases left with
    | cons piece left =>
      simp only
      rw [List.append_nil]
      refine sound.stays phase rfl (.staging temp left raises) _ rfl rfl ⟨written ++ [piece], ?_, ?_⟩
      · rw [decision, List.append_assoc, List.singleton_append]
      · simp [content]
    | nil =>
      cases raises with
      | true =>
        simp only
        rw [List.append_nil]
        exact sound.stays phase rfl (.cleaning temp) d.temps rfl rfl True.intro
      | false =>
        simp only
        rw [List.append_nil]
        refine sound.stays phase rfl (.staged temp 0) d.temps rfl rfl ⟨_, decision, ?_⟩
        rw [content, Writing.text, List.append_nil]
  | staged temp attempt =>
    rw [phase] at ready
    obtain ⟨writing, decision, content⟩ := ready
    simp only [content]
    exact sound.commit phase rfl rfl _ (by simp [Call.effect, decision])
  | cleaning temp =>
    simp only
    rw [List.append_nil]
    exact sound.stays phase rfl (.leaving .raised) _ rfl rfl True.intro
  | leaving outcome =>
    have lock := (sound.holder p).mp (by rw [phase]; rfl)
    simp only
    rw [List.append_nil]
    refine sound.move phase rfl (.done outcome) d.temps none (.inr ?_) ?_ ?_ (.inl rfl) True.intro
    · cases outcome <;> rfl
    · simp [Phase.locked]
    · intro q other
      simp [lock, Ne.symm other]
  | done outcome => simpa using sound
  | killed => simpa using sound

theorem Sound.fails (sound : Sound formats calls start d trace) (p : Pid) :
    Sound formats calls start (d.fails p) trace := by
  unfold Disk.fails
  cases phase : d.phase p with
  | waiting =>
    have outside : ¬ d.lock = some p := by
      rw [← sound.holder p, phase]
      simp [Phase.locked]
    refine sound.move phase rfl (.done .raised) d.temps d.lock (.inr rfl) ?_ (fun q _ => Iff.rfl) (.inl rfl) True.intro
    simp [Phase.locked, outside]
  | holding => exact sound.stays phase rfl (.leaving .raised) d.temps rfl rfl True.intro
  | creating => exact sound.stays phase rfl (.leaving .raised) d.temps rfl rfl True.intro
  | cleaning => exact sound.stays phase rfl (.leaving .raised) d.temps rfl rfl True.intro
  | staging temp => exact sound.stays phase rfl (.cleaning temp) d.temps rfl rfl True.intro
  | staged temp => exact sound.stays phase rfl (.cleaning temp) d.temps rfl rfl True.intro
  | leaving => exact sound
  | done => exact sound
  | killed => exact sound

theorem Sound.denied (sound : Sound formats calls start d trace) (p : Pid) :
    Sound formats calls start (d.denied p) trace := by
  have ready := sound.ready p
  unfold Disk.denied
  cases phase : d.phase p with
  | staged temp attempt =>
    rw [phase] at ready
    simp only
    split
    · exact sound.stays phase rfl (.cleaning temp) d.temps rfl rfl True.intro
    · exact sound.stays phase rfl (.staged temp (attempt + 1)) d.temps rfl rfl ready
  | _ => exact sound

theorem Sound.kill (sound : Sound formats calls start d trace) (p : Pid) :
    Sound formats calls start (d.kill p) trace := by
  have dies {old : Phase} (here : d.phase p = old) (alive : old.gone = false) : Sound formats calls start
      ({ d with lock := if d.lock = some p then none else d.lock }.enter p .killed) trace := by
    refine sound.move here alive .killed d.temps _ (.inl rfl) ?_ ?_ (.inl rfl) True.intro
    · by_cases held : d.lock = some p <;> simp [Phase.locked, held]
    · intro q other
      by_cases held : d.lock = some p
      · simp [held, Ne.symm other]
      · simp [held]
  unfold Disk.kill
  cases phase : d.phase p with
  | done => exact sound
  | killed => exact sound
  | _ => exact dies phase rfl

theorem Sound.step (sound : Sound formats calls start d trace) (input : Input Pid) :
    Sound formats calls start (step formats calls d input).1 (trace ++ (step formats calls d input).2) := by
  cases input with
  | runs p name => exact sound.runs p name
  | fails p => simpa [Persistence.step] using sound.fails p
  | denied p => simpa [Persistence.step] using sound.denied p
  | kill p => simpa [Persistence.step] using sound.kill p
  | read => exact sound.look

/-- However the calls interleave, fail and die, the file is what the calls that took effect make of it one after the
    other, each at most once; a call that returns is one of them and a call that raises is not; and whoever reads the file
    without its lock finds a file that they had made by then. -/
theorem writers_serialize (formats : Formats Json (Mapping Key Atom depth)) (calls : Pid → Call Key Atom Json depth)
    (start : Option Text) (inputs : List (Input Pid)) :
    let final := exec (Persistence.step formats calls) (Disk.start start) inputs
    final.1.file = serial formats calls start (committed final.2) ∧ (committed final.2).Nodup ∧
      (∀ p, final.1.phase p = .done .returned → p ∈ committed final.2) ∧
      (∀ p, final.1.phase p = .done .raised → p ∉ committed final.2) ∧
      ∀ text, .seen text ∈ final.2 → ∃ earlier, earlier <+: committed final.2 ∧
        text = serial formats calls start earlier := by
  have sound := exec_invariant (Sound formats calls start) (fun _ _ => True)
    (fun d trace input _ sound => sound.step input) (Disk.start start) inputs (everyStep_trivial _ _) sound_start
  refine ⟨sound.file, sound.once, ?_, ?_, sound.seen⟩
  · intro p returned
    apply sound.landed p
    rw [returned]
    rfl
  · intro p raised member
    have before := sound.logged p member
    rw [raised] at before
    simp [Phase.landed, Phase.gone] at before

/-- The staging file that a call is at work on. -/
def Phase.temp : Phase → Option Nat
  | .staging name _ _ | .staged name _ | .cleaning name => some name
  | _ => none

def Phase.cleans : Phase → Bool
  | .cleaning _ => true
  | _ => false

/-- Nothing that leaves a staging file behind: a process that dies, an `os.unlink` that raises. -/
def Input.Tidy (d : Disk Pid) : Input Pid → Prop
  | .kill _ => False
  | .fails p => (d.phase p).cleans = false
  | .runs .. | .denied _ | .read => True

instance Input.decidableTidy (d : Disk Pid) : (input : Input Pid) → Decidable (input.Tidy d)
  | .kill _ => inferInstanceAs (Decidable False)
  | .fails p => inferInstanceAs (Decidable ((d.phase p).cleans = false))
  | .runs .. | .denied _ | .read => inferInstanceAs (Decidable True)

def Owned (d : Disk Pid) : Prop := ∀ name, d.temps name ≠ none → ∃ p, (d.phase p).temp = some name

/-- A step of a call that keeps its staging file, or takes one that was not there, or removes it. -/
theorem Owned.move (owned : Owned d) {p : Pid} {old : Phase} (here : d.phase p = old) (phase : Phase)
    (file : Option Text) (temps : Nat → Option Text) (lock : Option Pid)
    (kept : ∀ name, temps name ≠ none → phase.temp = some name ∨ old.temp ≠ some name ∧ d.temps name ≠ none) :
    Owned ⟨file, temps, lock, Function.update d.phase p phase⟩ := by
  intro name present
  rcases kept name present with mine | ⟨other, before⟩
  · exact ⟨p, by simpa using mine⟩
  · obtain ⟨q, its⟩ := owned name before
    have differs : q ≠ p := by
      rintro rfl
      rw [here] at its
      exact other its
    exact ⟨q, by simpa only [Function.update_of_ne differs] using its⟩

/-- A step of a call that leaves the staging files as they are. -/
theorem Owned.same (owned : Owned d) {p : Pid} {old : Phase} (here : d.phase p = old) (phase : Phase) (file : Option Text)
    (lock : Option Pid) (same : phase.temp = old.temp) :
    Owned ⟨file, d.temps, lock, Function.update d.phase p phase⟩ := by
  refine owned.move here phase file d.temps lock fun name present => ?_
  rw [same]
  by_cases mine : old.temp = some name
  · exact .inl mine
  · exact .inr ⟨mine, present⟩

/-- A step of a call that removes its staging file. -/
theorem Owned.dropped (owned : Owned d) {p : Pid} {old : Phase} (here : d.phase p = old) {temp : Nat}
    (its : old.temp = some temp) (phase : Phase) (file : Option Text) (lock : Option Pid) :
    Owned ⟨file, Function.update d.temps temp none, lock, Function.update d.phase p phase⟩ := by
  refine owned.move here phase file _ lock fun other present => ?_
  by_cases equal : other = temp
  · subst equal
    simp at present
  · rw [Function.update_of_ne equal] at present
    rw [its]
    exact .inr ⟨fun mine => equal (Option.some.inj mine).symm, present⟩

theorem Owned.runs (owned : Owned d) (p : Pid) (name : Nat) : Owned (d.runs formats (calls p) p name).1 := by
  unfold Disk.runs
  cases phase : d.phase p with
  | waiting =>
    simp only
    split
    · exact owned.same phase .holding d.file (some p) rfl
    · exact owned
  | holding =>
    simp only
    cases (calls p).decision formats d.file with
    | write writing => exact owned.same phase (.creating writing) d.file d.lock rfl
    | remove => exact owned.same phase (.leaving .returned) none d.lock rfl
    | nothing => exact owned.same phase (.leaving .returned) d.file d.lock rfl
    | raise => exact owned.same phase (.leaving .raised) d.file d.lock rfl
  | creating writing =>
    simp only
    split
    · refine owned.move phase (.staging name writing.pieces writing.raises) d.file _ d.lock fun other present => ?_
      by_cases equal : other = name
      · exact .inl (congrArg some equal.symm)
      · rw [Disk.putTemp_temps, Function.update_of_ne equal] at present
        exact .inr ⟨by simp [Phase.temp], present⟩
    · exact owned
  | staging temp left raises =>
    cases left with
    | cons piece left =>
      refine owned.move phase (.staging temp left raises) d.file _ d.lock fun other present => ?_
      by_cases equal : other = temp
      · exact .inl (congrArg some equal.symm)
      · rw [Disk.putTemp_temps, Function.update_of_ne equal] at present
        exact .inr ⟨fun mine => equal (Option.some.inj mine).symm, present⟩
    | nil =>
      cases raises with
      | true => exact owned.same phase (.cleaning temp) d.file d.lock rfl
      | false => exact owned.same phase (.staged temp 0) d.file d.lock rfl
  | staged temp attempt =>
    simp only
    cases d.temps temp with
    | none => exact owned.same phase (.cleaning temp) d.file d.lock rfl
    | some text => exact owned.dropped phase rfl (.leaving .returned) (some text) d.lock
  | cleaning temp => exact owned.dropped phase rfl (.leaving .raised) d.file d.lock
  | leaving outcome => exact owned.same phase (.done outcome) d.file none rfl
  | done outcome => exact owned
  | killed => exact owned

theorem Owned.step (owned : Owned d) (input : Input Pid) (tidy : input.Tidy d) :
    Owned (Persistence.step formats calls d input).1 := by
  cases input with
  | runs p name => exact owned.runs p name
  | kill p => exact tidy.elim
  | read => exact owned
  | denied p =>
    simp only [Persistence.step, Disk.denied]
    cases phase : d.phase p with
    | staged temp attempt =>
      simp only
      split
      · exact owned.same phase (.cleaning temp) d.file d.lock rfl
      · exact owned.same phase (.staged temp (attempt + 1)) d.file d.lock rfl
    | _ => exact owned
  | fails p =>
    simp only [Persistence.step, Disk.fails]
    cases phase : d.phase p with
    | waiting => exact owned.same phase (.done .raised) d.file d.lock rfl
    | holding => exact owned.same phase (.leaving .raised) d.file d.lock rfl
    | creating => exact owned.same phase (.leaving .raised) d.file d.lock rfl
    | staging temp => exact owned.same phase (.cleaning temp) d.file d.lock rfl
    | staged temp => exact owned.same phase (.cleaning temp) d.file d.lock rfl
    | cleaning temp =>
      rw [Input.Tidy, phase] at tidy
      cases tidy
    | leaving => exact owned
    | done => exact owned
    | killed => exact owned

/-- While no process dies and every `os.unlink` works, there is at most one staging file, of the call that holds the lock. -/
theorem staging_file_of_holder (formats : Formats Json (Mapping Key Atom depth)) (calls : Pid → Call Key Atom Json depth)
    (start : Option Text) (inputs : List (Input Pid))
    (tidy : EveryStep (Persistence.step formats calls) (fun d input => input.Tidy d) (Disk.start start) inputs) :
    let final := (exec (Persistence.step formats calls) (Disk.start start) inputs).1
    ∀ name, final.temps name ≠ none → ∃ p, final.lock = some p ∧ (final.phase p).temp = some name := by
  have both := exec_invariant (fun d trace => Sound formats calls start d trace ∧ Owned d) (fun d input => input.Tidy d)
    (fun d trace input tidy holds => ⟨holds.1.step input, holds.2.step input tidy⟩) (Disk.start start) inputs tidy
    ⟨sound_start, fun name present => absurd rfl present⟩
  intro final name present
  obtain ⟨p, its⟩ := both.2 name present
  refine ⟨p, (both.1.holder p).mp ?_, its⟩
  cases phase : final.phase p <;> rw [phase] at its <;> first | rfl | cases its

/-- A file of plain text: one piece, whatever it holds. -/
def plainFormats : Formats Text (Mapping Nat Nat 0) where
  dumpJson data := ⟨[data], false⟩
  loadJson := some
  emptyJson := []
  dumpToml _ := ⟨[], false⟩
  loadToml _ := none

/-- One call adds to the file that the other one removes. -/
def twoWriters (p : Nat) : Call Nat Nat Text 0 :=
  if p = 0 then .updateJson (fun latest => some (latest ++ ['b'])) true else .deleteFile

theorem staging_file_of_holder_twoWriters :
    let inputs : List (Input Nat) := [.runs 1 0, .runs 0 0, .runs 1 0, .fails 1, .runs 1 0, .runs 0 0, .runs 0 0, .runs 0 7,
      .runs 0 0, .read]
    let final := (exec (Persistence.step plainFormats twoWriters) (Disk.start (some ['a'])) inputs).1
    final.temps 7 = some ['b'] ∧ ∃ p, final.lock = some p ∧ (final.phase p).temp = some 7 :=
  ⟨by decide, staging_file_of_holder plainFormats twoWriters (some ['a']) _ (by decide) 7 (by decide)⟩

end Rdst.Persistence
