import Mathlib.Data.List.Chain
import Mathlib.Data.List.Nodup

/-! A list cut into runs of marked elements. One element without the mark does not end a run. -/

namespace Bouts

variable {α : Type*} (high : α → Bool)

/-- From one marked element to another, with no two neighbours without the mark. -/
structure Run (run : List α) : Prop where
  first : ∃ x ∈ run.head?, high x = true
  last : ∃ x ∈ run.getLast?, high x = true
  dense : run.IsChain fun x y => high x = true ∨ high y = true

/-- Runs with the pauses behind them, and what is in front of the first one. -/
def join (calm : List α) (bouts : List (List α × List α)) : List α := calm ++ bouts.flatMap fun b => b.1 ++ b.2

structure Parted (calm : List α) (bouts : List (List α × List α)) : Prop where
  calm : ∀ x ∈ calm, high x = false
  runs : ∀ b ∈ bouts, Run high b.1
  pauses : ∀ b ∈ bouts, ∀ x ∈ b.2, high x = false
  apart : ∀ front a b back, bouts = front ++ a :: b :: back → 2 ≤ a.2.length

variable {high} {calm : List α} {bouts : List (List α × List α)} {run pause : List α} {x : α}

theorem join_snoc (b : List α × List α) : join calm (bouts ++ [b]) = join calm bouts ++ (b.1 ++ b.2) := by
  rw [join, join, List.flatMap_append, List.append_assoc]
  simp

theorem run_single (marked : high x = true) : Run high [x] := ⟨⟨x, rfl, marked⟩, ⟨x, rfl, marked⟩, List.isChain_singleton x⟩

/-- A run goes on behind a pause of at most one element. -/
theorem Run.extend (within : Run high run) (short : pause.length ≤ 1) (marked : high x = true) : Run high (run ++ pause ++ [x]) := by
  obtain ⟨first, head, marked'⟩ := within.first
  obtain ⟨last, tail, marked''⟩ := within.last
  refine ⟨⟨first, ?_, marked'⟩, ⟨x, by simp, marked⟩, ?_⟩
  · rw [List.append_assoc, List.head?_append, head]
    rfl
  · match pause, short with
    | [], _ =>
      rw [List.append_nil]
      refine List.isChain_append.mpr ⟨within.dense, List.isChain_singleton x, fun y _ z next => ?_⟩
      right
      rwa [← Option.some.inj next]
    | [y], _ =>
      rw [List.append_assoc]
      refine List.isChain_append.mpr ⟨within.dense, ?_, fun z before w next => ?_⟩
      · exact List.isChain_cons_cons.mpr ⟨.inr marked, List.isChain_singleton x⟩
      · left
        rw [tail] at before
        rwa [← Option.some.inj before]

theorem parted_nil : Parted high [] [] := by
  refine ⟨by simp, by simp, by simp, fun front a b back split => ?_⟩
  cases front <;> cases split

theorem Parted.quiet (parted : Parted high calm bouts) (unmarked : high x = false) : Parted high (calm ++ [x]) bouts := by
  refine ⟨fun y inside => ?_, parted.runs, parted.pauses, parted.apart⟩
  rcases List.mem_append.mp inside with early | here
  · exact parted.calm y early
  · rwa [List.mem_singleton.mp here]

/-- Behind a pause that is long enough, another run may begin. -/
theorem Parted.begins (parted : Parted high calm bouts) (long : ∀ b ∈ bouts, 2 ≤ b.2.length) (marked : high x = true) :
    Parted high calm (bouts ++ [([x], [])]) := by
  constructor
  · exact parted.calm
  · intro b inside
    rcases List.mem_append.mp inside with early | here
    · exact parted.runs b early
    · rw [List.mem_singleton.mp here]
      exact run_single marked
  · intro b inside
    rcases List.mem_append.mp inside with early | here
    · exact parted.pauses b early
    · rw [List.mem_singleton.mp here]
      simp
  · intro front a b back split
    cases back using List.reverseRecOn with
    | nil =>
      have cut : bouts ++ [([x], [])] = (front ++ [a]) ++ [b] := by rw [split]; simp
      have inits := List.append_inj_left' cut rfl
      exact long a (by rw [inits]; simp)
    | append_singleton back c =>
      have cut : bouts ++ [([x], [])] = (front ++ a :: b :: back) ++ [c] := by rw [split]; simp
      exact parted.apart front a b back (List.append_inj_left' cut rfl)

/-- The last bout goes on. -/
theorem Parted.last (parted : Parted high calm (bouts ++ [(run, pause)])) {run' pause' : List α} (within : Run high run')
    (quiet : ∀ y ∈ pause', high y = false) : Parted high calm (bouts ++ [(run', pause')]) := by
  constructor
  · exact parted.calm
  · intro b inside
    rcases List.mem_append.mp inside with early | here
    · exact parted.runs b (List.mem_append_left _ early)
    · rw [List.mem_singleton.mp here]
      exact within
  · intro b inside
    rcases List.mem_append.mp inside with early | here
    · exact parted.pauses b (List.mem_append_left _ early)
    · rw [List.mem_singleton.mp here]
      exact quiet
  · intro front a b back split
    cases back using List.reverseRecOn with
    | nil =>
      have cut : bouts ++ [(run', pause')] = (front ++ [a]) ++ [b] := by rw [split]; simp
      have inits := List.append_inj_left' cut rfl
      exact parted.apart front a (run, pause) [] (by rw [inits]; simp)
    | append_singleton back c =>
      have cut : bouts ++ [(run', pause')] = (front ++ a :: b :: back) ++ [c] := by rw [split]; simp
      have inits := List.append_inj_left' cut rfl
      exact parted.apart front a b (back ++ [(run, pause)]) (by rw [inits]; simp)

/-- Every marked element is in a run. -/
theorem Parted.covered (parted : Parted high calm bouts) (inside : x ∈ join calm bouts) (marked : high x = true) :
    ∃ b ∈ bouts, x ∈ b.1 := by
  rcases List.mem_append.mp inside with early | late
  · rw [parted.calm x early] at marked
    cases marked
  · obtain ⟨b, member, here⟩ := List.mem_flatMap.mp late
    rcases List.mem_append.mp here with run | pause
    · exact ⟨b, member, run⟩
    · rw [parted.pauses b member x pause] at marked
      cases marked

theorem join_split {front back : List (List α × List α)} {b : List α × List α} :
    join calm (front ++ b :: back) = join calm front ++ b.1 ++ (b.2 ++ back.flatMap fun b => b.1 ++ b.2) := by
  rw [join, join, List.flatMap_append, List.flatMap_cons]
  simp [List.append_assoc]

end Bouts
