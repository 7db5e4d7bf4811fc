import Mathlib.Data.List.Sublists
import Rdst.Lib.Assoc

/-! Names that are given to keys one after another, so that no two keys have one. -/

namespace Roster

open Assoc

section Giving

variable {Key Name : Type} [DecidableEq Key]

structure State (Key Name : Type) where
  names : Dict Key Name
  used : List Name

def State.give (s : State Key Name) (key : Key) (name : Name) : State Key Name := ⟨s.names.insert key name, name :: s.used⟩

/-- No two keys have one name. -/
def Distinct (names : Dict Key Name) : Prop := ∀ k k' n, names.lookup k = some n → names.lookup k' = some n → k = k'

/-- Every name is known to be used, no two keys have one, and those that had a name at the start have it still. -/
structure Fair (start : Dict Key Name) (s : State Key Name) : Prop where
  known : ∀ k n, s.names.lookup k = some n → n ∈ s.used
  distinct : Distinct s.names
  kept : ∀ k n, start.lookup k = some n → s.names.lookup k = some n

variable {start : Dict Key Name} {s : State Key Name} {key : Key} {name : Name}

theorem give_lookup (s : State Key Name) (key : Key) (name : Name) (k : Key) :
    (s.give key name).names.lookup k = if k = key then some name else s.names.lookup k :=
  insert_lookup s.names key name k

/-- A name that nobody uses may be given to a key that has none. -/
theorem Fair.give (fair : Fair start s) (nameless : s.names.lookup key = none) (unused : name ∉ s.used) :
    Fair start (s.give key name) where
  known k n found := by
    rw [give_lookup] at found
    split at found
    · rw [← Option.some_inj.mp found]
      exact List.mem_cons_self
    · exact List.mem_cons_of_mem name (fair.known k n found)
  distinct k k' n found found' := by
    rw [give_lookup] at found found'
    split at found
    · rename_i same
      split at found'
      · rename_i same'
        exact same.trans same'.symm
      · rw [Option.some_inj.mp found] at unused
        exact absurd (fair.known k' n found') unused
    · split at found'
      · rw [Option.some_inj.mp found'] at unused
        exact absurd (fair.known k n found) unused
      · exact fair.distinct k k' n found found'
  kept k n found := by
    have there := fair.kept k n found
    rw [give_lookup, if_neg, there]
    rintro rfl
    rw [nameless] at there
    cases there

theorem give_named (s : State Key Name) (key : Key) (name : Name) {k : Key} (named : s.names.lookup k ≠ none) :
    (s.give key name).names.lookup k ≠ none := by
  rw [give_lookup]
  split
  · exact Option.some_ne_none name
  · exact named

/-- A key that had no name at the start has one that no key had. -/
theorem Fair.fresh (fair : Fair start s) {k k' : Key} {n : Name} (nameless : start.lookup k = none)
    (found : s.names.lookup k = some n) : start.lookup k' ≠ some n := by
  intro held
  have same := fair.distinct k k' n found (fair.kept k' n held)
  rw [same, held] at nameless
  cases nameless

end Giving

section Free

variable {Name : Type} [DecidableEq Name]

/-- The first number from an index on whose name is free. -/
def firstFree (name : Nat → Name) (used : List Name) : Nat → Nat → Nat
  | 0, index => index
  | fuel + 1, index => if name index ∈ used then firstFree name used fuel (index + 1) else index

variable {name : Nat → Name} {used : List Name}

theorem firstFree_free {fuel index free : Nat} (later : index ≤ free) (soon : free ≤ index + fuel) (unused : name free ∉ used) :
    name (firstFree name used fuel index) ∉ used := by
  induction fuel generalizing index with
  | zero =>
    have here : index = free := by omega
    rw [firstFree, here]
    exact unused
  | succ fuel ih =>
    rw [firstFree]
    split
    · rename_i taken
      have other : index ≠ free := by
        rintro rfl
        exact unused taken
      exact ih (by omega) (by omega)
    · assumption

omit [DecidableEq Name] in
/-- Of more names than are used one is free. -/
theorem exists_free (injective : Function.Injective name) (used : List Name) (index : Nat) :
    ∃ free, index ≤ free ∧ free ≤ index + used.length ∧ name free ∉ used := by
  by_contra all
  push Not at all
  have names : ((List.range' index (used.length + 1)).map name).Nodup :=
    (List.nodup_range' ..).map injective
  have within : (List.range' index (used.length + 1)).map name ⊆ used := by
    intro n member
    obtain ⟨free, range, rfl⟩ := List.mem_map.mp member
    rw [List.mem_range'_1] at range
    exact all free range.1 (by omega)
  have lengths := (names.subperm within).length_le
  rw [List.length_map, List.length_range'] at lengths
  omega

theorem firstFree_unused (injective : Function.Injective name) (used : List Name) (index : Nat) :
    name (firstFree name used used.length index) ∉ used := by
  obtain ⟨free, later, soon, unused⟩ := exists_free injective used index
  exact firstFree_free later soon unused

end Free

end Roster
