import Mathlib.Algebra.Order.BigOperators.Group.List
import Mathlib.Algebra.Order.Ring.Nat
import Mathlib.Data.List.Count

/-! A text with something in the place of each of its marks. -/

namespace Weaving

variable {α Mark : Type*} (gap : Nat → Nat → List α) (last : Nat → List α) (start stop : Mark → Nat)

/-- What stands between the marks, from a place on, and in the place of each mark what is written there. -/
def weave (written : Mark → List α) : Nat → List Mark → List α
  | place, [] => last place
  | place, m :: marks => gap place (start m) ++ (written m ++ weave written (stop m) marks)

variable {gap last start stop} {written written' : Mark → List α}

theorem weave_congr {marks : List Mark} (same : ∀ m ∈ marks, written m = written' m) (place : Nat) :
    weave gap last start stop written place marks = weave gap last start stop written' place marks := by
  induction marks generalizing place with
  | nil => rfl
  | cons m marks ih =>
    rw [weave, weave, same m List.mem_cons_self, ih fun m' later => same m' (List.mem_cons_of_mem m later)]

variable [DecidableEq α]

/-- The gaps and what is written share out each character. -/
theorem count_weave (x : α) (place : Nat) (marks : List Mark) :
    (weave gap last start stop written place marks).count x =
      (weave gap last start stop (fun _ => []) place marks).count x + (marks.map fun m => (written m).count x).sum := by
  induction marks generalizing place with
  | nil => simp [weave]
  | cons m marks ih =>
    simp only [weave, List.count_append, List.map_cons, List.sum_cons, List.nil_append, ih (stop m)]
    omega

/-- Where one text of two with equal weaves has no more of a character at any mark, they have as many of it at each. -/
theorem counts_eq {place : Nat} {marks : List Mark} {x : α}
    (same : weave gap last start stop written place marks = weave gap last start stop written' place marks)
    (most : ∀ m ∈ marks, (written m).count x ≤ (written' m).count x) :
    ∀ m ∈ marks, (written m).count x = (written' m).count x := by
  have counts := congrArg (List.count x) same
  rw [count_weave, @count_weave _ _ gap last start stop written'] at counts
  intro m member
  by_contra differ
  have fewer := List.sum_lt_sum (fun m => (written m).count x) (fun m => (written' m).count x) most
    ⟨m, member, lt_of_le_of_ne (most m member) differ⟩
  omega

end Weaving
