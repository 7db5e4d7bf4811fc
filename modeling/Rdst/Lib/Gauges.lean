import Mathlib.Logic.Function.Basic
import Mathlib.Data.List.Pairwise

namespace Gauges

variable {Row Gauge : Type*}

/-- Counters that grow and that start anew at zero, those of a row together: how often each row started anew, what every
counter shows, and what it ever counted. -/
structure Engine (Row Gauge : Type*) where
  epoch : Row → Nat
  value : Gauge → Nat
  total : Gauge → Nat

def Engine.start : Engine Row Gauge := ⟨fun _ => 0, fun _ => 0, fun _ => 0⟩

def Engine.work [DecidableEq Gauge] (engine : Engine Row Gauge) (gauge : Gauge) (amount : Nat) : Engine Row Gauge :=
  { engine with
    value := fun other => if other = gauge then engine.value other + amount else engine.value other
    total := fun other => if other = gauge then engine.total other + amount else engine.total other }

def Engine.restart (row : Gauge → Row) (engine : Engine Row Gauge) (rows : Row → Bool) : Engine Row Gauge :=
  { engine with
    epoch := fun other => if rows other = true then engine.epoch other + 1 else engine.epoch other
    value := fun gauge => if rows (row gauge) = true then 0 else engine.value gauge }

/-- What an engine counts between two moments, as far as its counters show it. -/
structure Follows (row : Gauge → Row) (a b : Engine Row Gauge) : Prop where
  epoch : ∀ gauge, a.epoch (row gauge) ≤ b.epoch (row gauge)
  growth : ∀ gauge, a.epoch (row gauge) = b.epoch (row gauge) →
    a.value gauge ≤ b.value gauge ∧ b.value gauge + a.total gauge = a.value gauge + b.total gauge
  anew : ∀ gauge, a.epoch (row gauge) < b.epoch (row gauge) → b.value gauge + a.total gauge ≤ b.total gauge

variable {row : Gauge → Row} {a b c : Engine Row Gauge}

theorem Follows.refl (a : Engine Row Gauge) : Follows row a a where
  epoch _ := Nat.le_refl _
  growth _ _ := ⟨Nat.le_refl _, rfl⟩
  anew _ later := absurd later (Nat.lt_irrefl _)

theorem Follows.total_le (follows : Follows row a b) (gauge : Gauge) : a.total gauge ≤ b.total gauge := by
  rcases Nat.eq_or_lt_of_le (follows.epoch gauge) with same | later
  · have grown := follows.growth gauge same
    omega
  · have restarted := follows.anew gauge later
    omega

theorem Follows.trans (first : Follows row a b) (second : Follows row b c) : Follows row a c where
  epoch gauge := Nat.le_trans (first.epoch gauge) (second.epoch gauge)
  growth gauge same := by
    have before := first.epoch gauge
    have after := second.epoch gauge
    have grown := first.growth gauge (by omega)
    have further := second.growth gauge (by omega)
    omega
  anew gauge later := by
    have counted := first.total_le gauge
    rcases Nat.eq_or_lt_of_le (second.epoch gauge) with same | restarted
    · have earlier := first.anew gauge (by omega)
      have further := second.growth gauge same
      omega
    · have again := second.anew gauge restarted
      omega

theorem Follows.work [DecidableEq Gauge] (a : Engine Row Gauge) (gauge : Gauge) (amount : Nat) :
    Follows row a (a.work gauge amount) where
  epoch _ := Nat.le_refl _
  growth other _ := by
    simp only [Engine.work]
    split <;> omega
  anew _ later := absurd later (Nat.lt_irrefl _)

theorem Follows.restart (a : Engine Row Gauge) (rows : Row → Bool) : Follows row a (a.restart row rows) where
  epoch gauge := by
    simp only [Engine.restart]
    split <;> omega
  growth gauge same := by
    simp only [Engine.restart] at same ⊢
    split at same
    · omega
    · rename_i kept
      rw [if_neg kept]
      exact ⟨Nat.le_refl _, rfl⟩
  anew gauge later := by
    simp only [Engine.restart] at later ⊢
    split at later
    · rename_i restarted
      rw [if_pos restarted]
      omega
    · omega

/-- A counter that fell started anew. -/
theorem Follows.fell (follows : Follows row a b) {gauge : Gauge} (fell : b.value gauge < a.value gauge) :
    a.epoch (row gauge) < b.epoch (row gauge) := by
  by_contra same
  have grown := follows.growth gauge (by have := follows.epoch gauge; omega)
  omega

/-- A counter grows by no more than was counted, whether or not it started anew in between. -/
theorem Follows.growth_le (follows : Follows row a b) (gauge : Gauge) :
    b.value gauge + a.total gauge ≤ a.value gauge + b.total gauge := by
  rcases Nat.eq_or_lt_of_le (follows.epoch gauge) with same | later
  · exact Nat.le_of_eq (follows.growth gauge same).2
  · have restarted := follows.anew gauge later
    omega

end Gauges
