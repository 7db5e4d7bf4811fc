import Mathlib.Data.List.Basic

namespace Machine

variable {State Input Event : Type*}

/-- Feed a list of inputs to a step function and collect the events of every step, oldest first. -/
def exec (step : State → Input → State × List Event) : State → List Input → State × List Event
  | s, [] => (s, [])
  | s, i :: rest =>
    let next := step s i
    let final := exec step next.1 rest
    (final.1, next.2 ++ final.2)

/-- Every step of the run meets `ok` in the state that it starts from. -/
def EveryStep (step : State → Input → State × List Event) (ok : State → Input → Prop) :
    State → List Input → Prop
  | _, [] => True
  | s, i :: rest => ok s i ∧ EveryStep step ok (step s i).1 rest

variable {step : State → Input → State × List Event}

@[simp] theorem exec_nil (s : State) : exec step s [] = (s, []) := rfl

@[simp] theorem exec_cons (s : State) (i : Input) (rest : List Input) :
    exec step s (i :: rest) =
      ((exec step (step s i).1 rest).1, (step s i).2 ++ (exec step (step s i).1 rest).2) := rfl

theorem exec_append (s : State) (first second : List Input) :
    exec step s (first ++ second) =
      ((exec step (exec step s first).1 second).1,
        (exec step s first).2 ++ (exec step (exec step s first).1 second).2) := by
  induction first generalizing s with
  | nil => rfl
  | cons i rest ih => simp only [List.cons_append, exec_cons, ih, List.append_assoc]

theorem everyStep_trivial (s : State) (inputs : List Input) :
    EveryStep step (fun _ _ => True) s inputs := by
  induction inputs generalizing s with
  | nil => exact True.intro
  | cons i rest ih => exact ⟨True.intro, ih _⟩

theorem everyStep_append {ok : State → Input → Prop} (s : State) (first second : List Input) :
    EveryStep step ok s (first ++ second) ↔
      EveryStep step ok s first ∧ EveryStep step ok (exec step s first).1 second := by
  induction first generalizing s with
  | nil => simp [EveryStep]
  | cons i rest ih => simp only [List.cons_append, EveryStep, exec_cons, ih, and_assoc]

instance decidableEveryStep (step : State → Input → State × List Event) (ok : State → Input → Prop)
    [∀ s i, Decidable (ok s i)] (s : State) (inputs : List Input) : Decidable (EveryStep step ok s inputs) :=
  match inputs with
  | [] => inferInstanceAs (Decidable True)
  | i :: rest =>
    have : Decidable (EveryStep step ok (step s i).1 rest) := decidableEveryStep step ok (step s i).1 rest
    inferInstanceAs (Decidable (ok s i ∧ EveryStep step ok (step s i).1 rest))

theorem exec_from (Inv : State → List Event → Prop) (ok : State → Input → Prop)
    (preserved : ∀ s trace i, ok s i → Inv s trace → Inv (step s i).1 (trace ++ (step s i).2))
    (s : State) (trace : List Event) (inputs : List Input)
    (meets : EveryStep step ok s inputs) (start : Inv s trace) :
    Inv (exec step s inputs).1 (trace ++ (exec step s inputs).2) := by
  induction inputs generalizing s trace with
  | nil => simpa using start
  | cons i rest ih =>
    have after := ih _ _ meets.2 (preserved s trace i meets.1 start)
    simpa only [exec_cons, List.append_assoc] using after

/-- What holds at the start and is preserved by every step holds of the whole run and its trace. -/
theorem exec_invariant (Inv : State → List Event → Prop) (ok : State → Input → Prop)
    (preserved : ∀ s trace i, ok s i → Inv s trace → Inv (step s i).1 (trace ++ (step s i).2))
    (s : State) (inputs : List Input) (meets : EveryStep step ok s inputs) (start : Inv s []) :
    Inv (exec step s inputs).1 (exec step s inputs).2 := by
  simpa using exec_from Inv ok preserved s [] inputs meets start

/-- Every turn of a loop meets `ok` in the state that it comes upon. -/
def EveryTurn (body : State → Input → State) (ok : State → Input → Prop) : State → List Input → Prop
  | _, [] => True
  | s, i :: rest => ok s i ∧ EveryTurn body ok (body s i) rest

instance decidableEveryTurn (body : State → Input → State) (ok : State → Input → Prop) [∀ s i, Decidable (ok s i)]
    (s : State) (inputs : List Input) : Decidable (EveryTurn body ok s inputs) :=
  match inputs with
  | [] => inferInstanceAs (Decidable True)
  | i :: rest =>
    have : Decidable (EveryTurn body ok (body s i) rest) := decidableEveryTurn body ok (body s i) rest
    inferInstanceAs (Decidable (ok s i ∧ EveryTurn body ok (body s i) rest))

theorem everyTurn_trivial (body : State → Input → State) (s : State) (inputs : List Input) :
    EveryTurn body (fun _ _ => True) s inputs := by
  induction inputs generalizing s with
  | nil => exact True.intro
  | cons i rest ih => exact ⟨True.intro, ih _⟩

theorem everyTurn_append {body : State → Input → State} {ok : State → Input → Prop} {s : State}
    {first second : List Input} : EveryTurn body ok s (first ++ second) ↔
      EveryTurn body ok s first ∧ EveryTurn body ok (first.foldl body s) second := by
  induction first generalizing s with
  | nil => simp [EveryTurn]
  | cons i rest ih => simp only [List.cons_append, EveryTurn, List.foldl_cons, ih, and_assoc]

theorem EveryTurn.and {body : State → Input → State} {ok good : State → Input → Prop} {s : State} {inputs : List Input}
    (first : EveryTurn body ok s inputs) (second : EveryTurn body good s inputs) :
    EveryTurn body (fun s i => ok s i ∧ good s i) s inputs := by
  induction inputs generalizing s with
  | nil => exact True.intro
  | cons i rest ih => exact ⟨⟨first.1, second.1⟩, ih first.2 second.2⟩

theorem foldl_invariant {body : State → Input → State} {ok : State → Input → Prop} {inputs : List Input}
    (Inv : State → Prop) (preserved : ∀ s, ∀ i ∈ inputs, ok s i → Inv s → Inv (body s i)) {s : State}
    (meets : EveryTurn body ok s inputs) (start : Inv s) : Inv (inputs.foldl body s) := by
  induction inputs generalizing s with
  | nil => exact start
  | cons i rest ih =>
    have next := preserved s i List.mem_cons_self meets.1 start
    exact ih (fun s j member => preserved s j (List.mem_cons_of_mem _ member)) meets.2 next

/-- What an invariant gives at every turn. -/
theorem everyTurn_of_invariant {body : State → Input → State} {ok good : State → Input → Prop} {inputs : List Input}
    (Inv : State → Prop) (preserved : ∀ s i, ok s i → Inv s → Inv (body s i))
    (gives : ∀ s i, ok s i → Inv s → good s i) {s : State} (meets : EveryTurn body ok s inputs) (start : Inv s) :
    EveryTurn body good s inputs := by
  induction inputs generalizing s with
  | nil => exact True.intro
  | cons i rest ih => exact ⟨gives s i meets.1 start, ih meets.2 (preserved s i meets.1 start)⟩

section Listing

variable {Key : Type*} (body : State → Input → State) (keys : State → List Key) (takes : Input → Prop)

/-- A loop that passes over what it has seen lists every key once. -/
theorem foldl_listing (seen : State → List Key) (key : Input → Key)
    (skips : ∀ s i, ¬ takes i ∨ key i ∈ seen s → body s i = s)
    (adds : ∀ s i, takes i → key i ∉ seen s → seen (body s i) = key i :: seen s ∧ keys (body s i) = keys s ++ [key i])
    {s : State} (listed : ∀ k ∈ seen s, k ∈ keys s) (inputs : List Input) :
    (∀ k ∈ seen (inputs.foldl body s), k ∈ keys (inputs.foldl body s)) ∧
      ∀ k, k ∈ keys (inputs.foldl body s) ↔ k ∈ keys s ∨ ∃ i ∈ inputs, takes i ∧ key i = k := by
  induction inputs generalizing s with
  | nil => exact ⟨listed, by simp⟩
  | cons i rest ih =>
    rw [List.foldl_cons]
    by_cases new : takes i ∧ key i ∉ seen s
    · obtain ⟨grown, added⟩ := adds s i new.1 new.2
      have later := ih (s := body s i) (by
        intro k member
        rw [grown] at member
        rw [added]
        rcases List.mem_cons.mp member with rfl | old
        · simp
        · exact List.mem_append_left _ (listed k old))
      refine ⟨later.1, fun k => ?_⟩
      rw [later.2, added]
      simp [new.1, or_assoc, eq_comm]
    · have old : ¬ takes i ∨ key i ∈ seen s := by
        by_cases taken : takes i
        · exact .inr (not_not.mp fun unseen => new ⟨taken, unseen⟩)
        · exact .inl taken
      rw [skips s i old]
      refine ⟨(ih listed).1, fun k => ?_⟩
      rw [(ih listed).2]
      constructor
      · rintro (early | ⟨j, member, taken, same⟩)
        · exact .inl early
        · exact .inr ⟨j, List.mem_cons_of_mem _ member, taken, same⟩
      · rintro (early | ⟨j, member, taken, same⟩)
        · exact .inl early
        · rcases List.mem_cons.mp member with rfl | later
          · rcases old with passed | seen_
            · exact absurd taken passed
            · exact .inl (same ▸ listed _ seen_)
          · exact .inr ⟨j, later, taken, same⟩

/-- A loop that counts what it takes numbers the keys that it adds. -/
theorem foldl_numbering [DecidablePred takes] (count : State → Nat) (label : Nat → Key)
    (skips : ∀ s i, ¬ takes i → body s i = s)
    (adds : ∀ s i, takes i → count (body s i) = count s + 1 ∧ keys (body s i) = keys s ++ [label (count s)])
    (s : State) (inputs : List Input) :
    keys (inputs.foldl body s) =
      keys s ++ (List.range' (count s) (inputs.countP fun i => takes i)).map label := by
  induction inputs generalizing s with
  | nil => simp
  | cons i rest ih =>
    rw [List.foldl_cons, ih]
    by_cases taken : takes i
    · obtain ⟨next, added⟩ := adds s i taken
      rw [next, added, List.countP_cons_of_pos (by simpa using taken), List.range'_succ]
      simp
    · rw [skips s i taken, List.countP_cons_of_neg (by simpa using taken)]

end Listing

end Machine
