import Mathlib.Algebra.Order.Group.Nat
import Mathlib.Data.Nat.Basic
import Mathlib.Tactic.Ring

namespace Buckets

/-- Where the bucket of a width begins that holds a time. -/
def start (width time : Nat) : Nat := time / width * width

variable {width narrow wide time bucket : Nat}

theorem start_le : start width time ≤ time := Nat.div_mul_le_self time width

theorem lt_start_add (wide : 0 < width) : time < start width time + width := by
  exact Nat.lt_div_mul_add wide

theorem dvd_start : width ∣ start width time := Dvd.intro_left _ rfl

theorem start_of_dvd (aligned : width ∣ bucket) : start width bucket = bucket := Nat.div_mul_cancel aligned

theorem start_mono {later : Nat} (before : time ≤ later) : start width time ≤ start width later :=
  Nat.mul_le_mul_right _ (Nat.div_le_div_right before)

theorem le_start (aligned : width ∣ bucket) (le : bucket ≤ time) : bucket ≤ start width time := by
  rw [← start_of_dvd aligned]
  exact start_mono le

/-- Between two aligned times there is a whole bucket. -/
theorem add_le_of_lt {later : Nat} (aligned : width ∣ bucket) (alignedLater : width ∣ later) (lt : bucket < later) :
    bucket + width ≤ later := by
  obtain ⟨a, rfl⟩ := aligned
  obtain ⟨b, rfl⟩ := alignedLater
  have less : a < b := Nat.lt_of_mul_lt_mul_left lt
  calc width * a + width = width * (a + 1) := by ring
    _ ≤ width * b := Nat.mul_le_mul_left _ less

/-- A time is in a bucket only where that is its own. -/
theorem start_eq (aligned : width ∣ bucket) (after : bucket ≤ time) (before : time < bucket + width) :
    start width time = bucket := by
  obtain ⟨k, rfl⟩ := aligned
  have quotient : time / width = k := Nat.div_eq_of_lt_le (by rw [mul_comm]; exact after) (by rw [Nat.succ_mul, mul_comm]; exact before)
  rw [start, quotient, mul_comm]

theorem mem_iff (positive : 0 < width) (aligned : width ∣ bucket) :
    bucket ≤ time ∧ time < bucket + width ↔ start width time = bucket := by
  constructor
  · intro inside
    exact start_eq aligned inside.1 inside.2
  · intro same
    rw [← same]
    exact ⟨start_le, lt_start_add positive⟩

/-- The bucket of a finer bucket is the bucket of what is in it. -/
theorem start_start (nested : narrow ∣ wide) : start wide (start narrow time) = start wide time := by
  obtain ⟨k, rfl⟩ := nested
  rcases Nat.eq_zero_or_pos narrow with rfl | positive
  · simp [start]
  · unfold start
    rw [← Nat.div_div_eq_div_mul, ← Nat.div_div_eq_div_mul, Nat.mul_div_cancel _ positive]

theorem start_le_start (nested : narrow ∣ wide) : start wide time ≤ start narrow time := by
  rw [← start_start nested]
  exact start_le

theorem start_add_le (nested : narrow ∣ wide) (positive : 0 < wide) :
    start narrow time + narrow ≤ start wide time + wide := by
  obtain ⟨k, rfl⟩ := nested
  have inside : start narrow time < start (narrow * k) time + narrow * k := by
    have lower : start narrow time ≤ time := start_le
    have upper : time < start (narrow * k) time + narrow * k := lt_start_add positive
    omega
  have lower : narrow ∣ start narrow time := dvd_start
  have upper : narrow ∣ start (narrow * k) time + narrow * k :=
    (Nat.dvd_add_right (Dvd.dvd.trans (Dvd.intro _ rfl) dvd_start)).mpr (Dvd.intro _ rfl)
  exact add_le_of_lt lower upper inside

end Buckets
