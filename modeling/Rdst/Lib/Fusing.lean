import Mathlib.Algebra.BigOperators.Group.List.Basic
import Mathlib.Data.Option.NAry

namespace Fusing

variable {Body M : Type*}

/-- The body is what absorbing one listed body in another makes of all of them, in some order. -/
inductive Made (absorb : Body → Body → Body) : List Body → Body → Prop
  | alone (body : Body) : Made absorb [body] body
  | both {first second : List Body} {stored arriving : Body} (left : Made absorb first stored)
      (right : Made absorb second arriving) : Made absorb (first ++ second) (absorb stored arriving)

/-- The total of counts, known when each of them is. -/
def knownTotal [AddCommMonoid M] (counts : List (Option M)) : Option M :=
  counts.foldr (Option.map₂ (· + ·)) (some 0)

theorem Made.length_pos {absorb : Body → Body → Body} {parts : List Body} {body : Body}
    (made : Made absorb parts body) : 0 < parts.length := by
  induction made with
  | alone => simp
  | both _ _ first second =>
    rw [List.length_append]
    omega

/-- Made of one body, it is that body. -/
theorem Made.single {absorb : Body → Body → Body} {parts : List Body} {body : Body}
    (made : Made absorb parts body) (one : parts.length ≤ 1) : parts = [body] := by
  cases made with
  | alone => rfl
  | both left right =>
    have first := left.length_pos
    have second := right.length_pos
    rw [List.length_append] at one
    omega

/-- Made of several, it came out of an absorbing. -/
theorem Made.absorbed {absorb : Body → Body → Body} {parts : List Body} {body : Body}
    (made : Made absorb parts body) (several : 1 < parts.length) :
    ∃ stored arriving, body = absorb stored arriving := by
  cases made with
  | alone => simp at several
  | both => exact ⟨_, _, rfl⟩

section KnownTotal

variable [AddCommMonoid M]

@[simp] theorem knownTotal_nil : knownTotal ([] : List (Option M)) = some 0 := rfl

@[simp] theorem knownTotal_cons (count : Option M) (rest : List (Option M)) :
    knownTotal (count :: rest) = Option.map₂ (· + ·) count (knownTotal rest) := rfl

theorem knownTotal_single (count : Option M) : knownTotal [count] = count := by
  cases count <;> simp

theorem knownTotal_append (first second : List (Option M)) :
    knownTotal (first ++ second) = Option.map₂ (· + ·) (knownTotal first) (knownTotal second) := by
  induction first with
  | nil => cases h : knownTotal second <;> simp [h]
  | cons count rest ih =>
    rw [List.cons_append, knownTotal_cons, ih, knownTotal_cons]
    exact (Option.map₂_assoc add_assoc).symm

theorem knownTotal_perm {first second : List (Option M)} (same : first.Perm second) :
    knownTotal first = knownTotal second := by
  induction same with
  | nil => rfl
  | cons count _ ih => rw [knownTotal_cons, knownTotal_cons, ih]
  | swap left right rest =>
    simp only [knownTotal_cons]
    exact Option.map₂_left_comm add_left_comm
  | trans _ _ ih again => exact ih.trans again

theorem knownTotal_isSome {counts : List (Option M)} :
    (knownTotal counts).isSome ↔ ∀ count ∈ counts, count.isSome := by
  induction counts with
  | nil => simp
  | cons count rest ih => cases count <;> cases h : knownTotal rest <;> simp_all

end KnownTotal

/-- Absorbing adds, and takes what is unknown for nothing. -/
def Adds [AddCommMonoid M] (absorb : Body → Body → Body) (count : Body → Option M) : Prop :=
  ∀ stored arriving, count (absorb stored arriving) = some ((count stored).getD 0 + (count arriving).getD 0)

theorem Made.total [AddCommMonoid M] {absorb : Body → Body → Body} {count : Body → Option M}
    (adds : Adds absorb count) {parts : List Body} {body : Body} (made : Made absorb parts body)
    (known : ∀ part ∈ parts, (count part).isSome) : count body = knownTotal (parts.map count) := by
  induction made with
  | alone body => exact (knownTotal_single (count body)).symm
  | @both first second stored arriving left right one two =>
    have here := one fun part member => known part (List.mem_append_left _ member)
    have there := two fun part member => known part (List.mem_append_right _ member)
    have stored_known : (count stored).isSome := by
      rw [here, knownTotal_isSome]
      simpa using fun part member => known part (List.mem_append_left _ member)
    have arriving_known : (count arriving).isSome := by
      rw [there, knownTotal_isSome]
      simpa using fun part member => known part (List.mem_append_right _ member)
    obtain ⟨m, at_stored⟩ := Option.isSome_iff_exists.mp stored_known
    obtain ⟨n, at_arriving⟩ := Option.isSome_iff_exists.mp arriving_known
    rw [adds, List.map_append, knownTotal_append, ← here, ← there, at_stored, at_arriving]
    rfl

/-- The count that absorbing leaves is the total of the parts' counts just when nothing was absorbed or
    every part's count is known. -/
theorem Made.total_iff [AddCommMonoid M] {absorb : Body → Body → Body} {count : Body → Option M}
    (adds : Adds absorb count) {parts : List Body} {body : Body} (made : Made absorb parts body) :
    count body = knownTotal (parts.map count) ↔ 1 < parts.length → ∀ part ∈ parts, (count part).isSome := by
  constructor
  · intro same several part member
    obtain ⟨stored, arriving, rfl⟩ := made.absorbed several
    have known : (knownTotal (parts.map count)).isSome := by
      rw [← same, adds]
      rfl
    exact knownTotal_isSome.mp known _ (List.mem_map_of_mem member)
  · intro known
    by_cases several : 1 < parts.length
    · exact made.total adds (known several)
    · rw [made.single (by omega)]
      exact (knownTotal_single _).symm

/-- Where absorbing always leaves a value, it says that a part has none just when nothing was absorbed or
    every part has one. -/
theorem Made.missing_iff {Value : Type*} {absorb : Body → Body → Body} {value : Body → Option Value}
    (fills : ∀ stored arriving, (value (absorb stored arriving)).isSome) {parts : List Body} {body : Body}
    (made : Made absorb parts body) :
    (value body = none ↔ ∃ part ∈ parts, value part = none) ↔
      1 < parts.length → ∀ part ∈ parts, (value part).isSome := by
  by_cases several : 1 < parts.length
  · obtain ⟨stored, arriving, rfl⟩ := made.absorbed several
    have filled : value (absorb stored arriving) ≠ none := Option.isSome_iff_ne_none.mp (fills _ _)
    simp only [filled, several, false_iff, not_exists, not_and, forall_const, Option.isSome_iff_ne_none, ne_eq]
  · rw [made.single (by omega)]
    simp

end Fusing
