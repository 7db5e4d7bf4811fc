import Mathlib.Algebra.BigOperators.Group.Finset.Basic
import Mathlib.Algebra.Order.BigOperators.Group.Finset

/-! Locks and counting semaphores over any threads. -/

namespace Permits

variable {Tid Key : Type}

/-- Every lock is held by the one thread that is inside, if there is one; a thread is inside one lock at most. -/
def Locks (lock : Key → Option Tid) (inside : Tid → Option Key) : Prop :=
  ∀ t key, inside t = some key ↔ lock key = some t

section Locks

variable {lock : Key → Option Tid} {inside : Tid → Option Key} {t u : Tid} {key : Key}

theorem Locks.alone (locks : Locks lock inside) (first : inside t = some key) (second : inside u = some key) : t = u :=
  Option.some_inj.mp (((locks t key).mp first).symm.trans ((locks u key).mp second))

theorem Locks.free (locks : Locks lock inside) (free : lock key = none) : inside t ≠ some key := by
  intro within
  rw [locks, free] at within
  cases within

variable [DecidableEq Tid]

/-- Nothing changes with a thread that stays where it was. -/
theorem Locks.stay (locks : Locks lock inside) {key : Option Key} (same : inside t = key) :
    Locks lock (Function.update inside t key) := by
  rwa [← same, Function.update_eq_self]

variable [DecidableEq Key]

theorem Locks.take (locks : Locks lock inside) (free : lock key = none) (outside : inside t = none) :
    Locks (Function.update lock key (some t)) (Function.update inside t (some key)) := by
  intro u name
  by_cases self : u = t
  · subst self
    by_cases same : name = key
    · subst same
      simp
    · have elsewhere : lock name ≠ some u := by
        rw [ne_eq, ← locks, outside]
        simp
      simp [same, Ne.symm same, elsewhere]
  · rw [Function.update_of_ne self, locks]
    by_cases same : name = key
    · subst same
      simp [free, Ne.symm self]
    · simp [same]

theorem Locks.drop (locks : Locks lock inside) (within : inside t = some key) :
    Locks (Function.update lock key none) (Function.update inside t none) := by
  intro u name
  have held := (locks t key).mp within
  by_cases self : u = t
  · subst self
    by_cases same : name = key
    · subst same
      simp
    · have elsewhere : lock name ≠ some u := by
        rw [ne_eq, ← locks, within, Option.some_inj]
        exact fun equal => same equal.symm
      simp [same, elsewhere]
  · rw [Function.update_of_ne self, locks]
    by_cases same : name = key
    · subst same
      simp [held, Ne.symm self]
    · simp [same]

end Locks

/-- The value of a semaphore and what the threads hold of it make up its permits. -/
def Balanced (permits value : Nat) (held : Tid → Nat) : Prop :=
  ∃ threads : Finset Tid, (∀ t ∉ threads, held t = 0) ∧ value + ∑ t ∈ threads, held t = permits

section Balanced

variable {permits value : Nat} {held : Tid → Nat}

theorem balanced_start (permits : Nat) : Balanced permits permits fun _ : Tid => 0 := ⟨∅, by simp⟩

variable [DecidableEq Tid]

/-- The threads of a balance may be taken to be more. -/
theorem Balanced.widen (balanced : Balanced permits value held) (more : Finset Tid) :
    ∃ threads : Finset Tid, more ⊆ threads ∧ (∀ t ∉ threads, held t = 0) ∧ value + ∑ t ∈ threads, held t = permits := by
  obtain ⟨threads, none, sum⟩ := balanced
  refine ⟨more ∪ threads, Finset.subset_union_left, ?_, ?_⟩
  · intro t outside
    exact none t fun inside => outside (Finset.mem_union_right _ inside)
  · rw [← sum, Finset.sum_subset Finset.subset_union_right fun t _ outside => none t outside]

theorem Balanced.sum_le (balanced : Balanced permits value held) (some : Finset Tid) : ∑ t ∈ some, held t ≤ permits := by
  obtain ⟨threads, inside, _, sum⟩ := balanced.widen some
  have := Finset.sum_le_sum_of_subset (f := held) inside
  omega

/-- What one thread takes is taken from the value, and what it gives back is added to it. -/
theorem Balanced.step (balanced : Balanced permits value held) {now : Nat} {holds : Tid → Nat} (t : Tid)
    (others : ∀ u ≠ t, holds u = held u) (same : now + holds t = value + held t) : Balanced permits now holds := by
  obtain ⟨threads, inside, none, sum⟩ := balanced.widen {t}
  have member : t ∈ threads := inside (Finset.mem_singleton_self t)
  refine ⟨threads, ?_, ?_⟩
  · intro u outside
    rw [others u, none u outside]
    rintro rfl
    exact outside member
  · have before := Finset.add_sum_erase threads held member
    have after := Finset.add_sum_erase threads holds member
    have rest : ∑ u ∈ threads.erase t, holds u = ∑ u ∈ threads.erase t, held u :=
      Finset.sum_congr rfl fun u other => others u (Finset.ne_of_mem_erase other)
    omega

end Balanced

end Permits
