import Mathlib.Data.List.Basic
import Mathlib.Data.List.Pairwise
import Mathlib.Data.List.TakeWhile
import Mathlib.Data.List.Infix

namespace Increasing

variable {α β : Type*} {key : α → Nat}

/-- The keys of the list grow strictly from left to right. -/
abbrev By (key : α → Nat) (xs : List α) : Prop := xs.Pairwise fun a b => key a < key b

theorem by_cons {x : α} {xs : List α} :
    By key (x :: xs) ↔ (∀ b ∈ xs, key x < key b) ∧ By key xs := List.pairwise_cons

theorem by_append {xs ys : List α} :
    By key (xs ++ ys) ↔ By key xs ∧ By key ys ∧ ∀ a ∈ xs, ∀ b ∈ ys, key a < key b :=
  List.pairwise_append

theorem By.injective {xs : List α} (grows : By key xs) {a b : α} (ha : a ∈ xs) (hb : b ∈ xs)
    (same : key a = key b) : a = b := by
  induction xs with
  | nil => cases ha
  | cons x rest ih =>
    rw [by_cons] at grows
    rcases List.mem_cons.mp ha with rfl | tailA <;> rcases List.mem_cons.mp hb with rfl | tailB
    · rfl
    · have := grows.1 b tailB; omega
    · have := grows.1 a tailA; omega
    · exact ih grows.2 tailA tailB

/-- What lies above the key of an element is what follows it. -/
theorem By.filter_above {before after : List α} {x : α} (grows : By key (before ++ x :: after)) :
    (before ++ x :: after).filter (fun a => key x < key a) = after := by
  rw [by_append, by_cons] at grows
  have low : before.filter (fun a => key x < key a) = [] := by
    rw [List.filter_eq_nil_iff]
    intro a ha
    have := grows.2.2 a ha x (by simp)
    simp only [decide_eq_true_eq]
    omega
  have high : after.filter (fun a => key x < key a) = after := by
    rw [List.filter_eq_self]
    intro a ha
    simpa using grows.2.1.1 a ha
  simp [List.filter_append, low, high]

theorem By.filter_above_of_split {xs before after : List α} {x : α} (grows : By key xs)
    (split : xs = before ++ x :: after) : xs.filter (fun a => key x < key a) = after := by
  subst split
  exact grows.filter_above

/-- On growing keys a downward closed test picks out a prefix. -/
theorem By.filter_initial {xs : List α} (grows : By key xs) {test : α → Bool}
    (closed : xs.Pairwise fun a b => test b = true → test a = true) : xs.filter test <+: xs := by
  induction xs with
  | nil => simp
  | cons x rest ih =>
    rw [by_cons] at grows
    rw [List.pairwise_cons] at closed
    cases holds : test x with
    | true =>
      rw [List.filter_cons_of_pos holds]
      exact List.prefix_cons_inj x |>.mpr (ih grows.2 closed.2)
    | false =>
      rw [List.filter_cons_of_neg (by simp [holds])]
      have none : rest.filter test = [] := by
        rw [List.filter_eq_nil_iff]
        intro b hb positive
        rw [closed.1 b hb positive] at holds
        cases holds
      rw [none]
      exact List.nil_prefix

theorem By.remove_initial [DecidableEq α] {xs front : List α} (grows : By key xs) (lead : front <+: xs) :
    xs.filter (fun a => key a ∉ front.map key) = xs.drop front.length := by
  obtain ⟨rest, rfl⟩ := lead
  rw [List.drop_left, List.filter_append]
  have gone : front.filter (fun a => key a ∉ front.map key) = [] := by
    rw [List.filter_eq_nil_iff]
    intro a ha
    have member : key a ∈ front.map key := List.mem_map_of_mem ha
    simp only [member, not_true_eq_false, decide_false, Bool.false_eq_true, not_false_eq_true]
  have kept : rest.filter (fun a => key a ∉ front.map key) = rest := by
    rw [List.filter_eq_self]
    intro a ha
    rw [by_append] at grows
    simp only [List.mem_map, decide_eq_true_eq, not_exists, not_and]
    intro b hb same
    have := grows.2.2 b hb a ha
    omega
  rw [gone, kept, List.nil_append]

theorem By.le_last {xs : List α} {last : α} (grows : By key (xs ++ [last])) {a : α}
    (ha : a ∈ xs ++ [last]) : key a ≤ key last := by
  rcases List.mem_append.mp ha with early | here
  · rw [by_append] at grows
    exact Nat.le_of_lt (grows.2.2 a early last (by simp))
  · rw [List.mem_singleton.mp here]

theorem By.head_of_least {xs : List α} (grows : By key xs) {x : α} (member : x ∈ xs)
    (least : ∀ a ∈ xs, key x ≤ key a) : ∃ rest, xs = x :: rest := by
  obtain ⟨before, after, rfl⟩ := List.append_of_mem member
  rw [by_append] at grows
  cases before with
  | nil => exact ⟨after, rfl⟩
  | cons a rest =>
    have early := grows.2.2 a (by simp) x (by simp)
    have late := least a (by simp)
    omega

/-- Growing keys split at any bound. -/
theorem By.split {xs : List α} (grows : By key xs) (bound : Nat) :
    xs = xs.filter (fun a => key a ≤ bound) ++ xs.filter (fun a => bound < key a) := by
  induction xs with
  | nil => rfl
  | cons x rest ih =>
    rw [by_cons] at grows
    by_cases low : key x ≤ bound
    · rw [List.filter_cons_of_pos (by simpa using low), List.filter_cons_of_neg (by simpa using low),
        List.cons_append, ← ih grows.2]
    · have none : rest.filter (fun a => key a ≤ bound) = [] := by
        rw [List.filter_eq_nil_iff]
        intro a ha
        have := grows.1 a ha
        simp only [decide_eq_true_eq]
        omega
      have all : rest.filter (fun a => bound < key a) = rest := by
        rw [List.filter_eq_self]
        intro a ha
        have := grows.1 a ha
        simp only [decide_eq_true_eq]
        omega
      rw [List.filter_cons_of_neg (by simpa using low),
        List.filter_cons_of_pos (by simp only [decide_eq_true_eq]; omega), none, all, List.nil_append]

end Increasing
