import Mathlib.Data.List.Sort

namespace Greedy

variable {α κ Budget : Type*} (admits : Budget → α → Bool) (spend : Budget → α → Budget)

/-- One pass over the candidates that takes each one the budget left admits. -/
def walk : Budget → List α → List α
  | _, [] => []
  | budget, a :: rest =>
    if admits budget a = true then a :: walk (spend budget a) rest else walk budget rest

/-- Take the first admitted candidate, and begin anew with the others. -/
def choices [DecidableEq κ] (key : α → κ) : Nat → Budget → List α → List α
  | 0, _, _ => []
  | n + 1, budget, list =>
    match list.find? (admits budget) with
    | none => []
    | some a => a :: choices key n (spend budget a) (list.filter fun other => key other ≠ key a)

variable {admits spend} {budget : Budget} {a : α} {list rest : List α}

theorem walk_sublist (budget : Budget) (list : List α) : (walk admits spend budget list).Sublist list := by
  induction list generalizing budget with
  | nil => exact List.Sublist.slnil
  | cons a rest ih =>
    unfold walk
    split
    · exact (ih _).cons_cons a
    · exact (ih _).cons a

theorem admitted_of_mem (member : a ∈ walk admits spend budget list) : ∃ budget, admits budget a = true := by
  induction list generalizing budget with
  | nil => cases member
  | cons b rest ih =>
    unfold walk at member
    split at member
    · rename_i taken
      rcases List.mem_cons.mp member with rfl | later
      · exact ⟨budget, taken⟩
      · exact ih later
    · exact ih member

/-- Two passes agree where they admit the same within the budgets that the first one reaches. -/
theorem walk_congr {admits' : Budget → α → Bool} (within : Budget → Prop)
    (agree : ∀ budget, within budget → ∀ a ∈ list, admits budget a = admits' budget a)
    (kept : ∀ budget a, within budget → admits budget a = true → within (spend budget a)) (start : within budget) :
    walk admits spend budget list = walk admits' spend budget list := by
  induction list generalizing budget with
  | nil => rfl
  | cons a rest ih =>
    have first := agree budget start a List.mem_cons_self
    have others := fun budget start b member => agree budget start b (List.mem_cons_of_mem a member)
    unfold walk
    rw [← first]
    split
    · rename_i taken
      rw [ih others (kept budget a start taken)]
    · exact ih others start

/-- Where nothing that is taken spends, everything admitted at the start is taken. -/
theorem mem_walk (free : ∀ b ∈ walk admits spend budget list, ∀ budget, spend budget b = budget) (member : a ∈ list)
    (admitted : admits budget a = true) : a ∈ walk admits spend budget list := by
  induction list with
  | nil => cases member
  | cons b rest ih =>
    unfold walk at free ⊢
    split
    · rename_i taken
      rw [if_pos taken] at free
      rw [free b List.mem_cons_self] at free ⊢
      rcases List.mem_cons.mp member with rfl | later
      · exact List.mem_cons_self
      · exact List.mem_cons_of_mem b (ih (fun c inside => free c (List.mem_cons_of_mem b inside)) later)
    · rename_i refused
      rw [if_neg refused] at free
      rcases List.mem_cons.mp member with rfl | later
      · exact absurd admitted refused
      · exact ih free later

section Choices

variable [DecidableEq κ] {key : α → κ}

theorem choices_none (none : list.find? (admits budget) = none) (n : Nat) :
    choices admits spend key n budget list = [] := by
  cases n with
  | zero => rfl
  | succ n => simp only [choices, none]

/-- What is refused once is refused for good, and so changes nothing. -/
theorem choices_refused (shrinks : ∀ budget a b, admits (spend budget a) b = true → admits budget b = true)
    (refused : admits budget a = false) (distinct : key a ∉ rest.map key) (n : Nat) :
    choices admits spend key n budget (a :: rest) = choices admits spend key n budget rest := by
  induction n generalizing budget rest with
  | zero => rfl
  | succ n ih =>
    simp only [choices, List.find?_cons, refused]
    cases found : rest.find? (admits budget) with
    | none => rfl
    | some b =>
      have member : b ∈ rest := List.mem_of_find?_eq_some found
      have other : key a ≠ key b := fun same => distinct (same ▸ List.mem_map_of_mem member)
      have still : admits (spend budget b) a = false := by
        by_contra admitted
        have before := shrinks budget b a (by simpa using admitted)
        rw [refused] at before
        cases before
      have apart : key a ∉ (rest.filter fun c => key c ≠ key b).map key := fun inside =>
        distinct ((List.filter_sublist.map key).subset inside)
      simp only [List.filter_cons, ne_eq, other, not_false_eq_true, decide_true, if_true]
      rw [ih still apart]

/-- Choosing the first admitted candidate again and again takes what one pass takes, in its order. -/
theorem choices_eq_walk (shrinks : ∀ budget a b, admits (spend budget a) b = true → admits budget b = true)
    (distinct : (list.map key).Nodup) (n : Nat) :
    choices admits spend key n budget list = (walk admits spend budget list).take n := by
  induction list generalizing n budget with
  | nil => cases n <;> rfl
  | cons a rest ih =>
    obtain ⟨apart, distinct⟩ := List.nodup_cons.mp distinct
    unfold walk
    split
    · rename_i taken
      cases n with
      | zero => rfl
      | succ n =>
        have others : rest.filter (fun b => key b ≠ key a) = rest := by
          apply List.filter_eq_self.mpr
          intro b member
          simp only [ne_eq, decide_eq_true_eq]
          intro same
          exact apart (same ▸ List.mem_map_of_mem member)
        simp only [choices, List.find?_cons, taken]
        rw [List.filter_cons_of_neg (by simp), others, ih distinct, List.take_succ_cons]
    · rename_i refused
      rw [choices_refused shrinks (by simpa using refused) apart, ih distinct]

end Choices

section Sorting

variable {before : α → α → Prop} [DecidableRel before] [Std.Total before] [IsTrans α before]

/-- Sorting and selecting commute where the order tells the candidates apart. -/
theorem insertionSort_filter (strict : ∀ a ∈ list, ∀ b ∈ list, before a b → before b a → a = b) (test : α → Bool) :
    (list.filter test).insertionSort before = (list.insertionSort before).filter test := by
  have apart : ∀ a b, a ∈ (list.filter test).insertionSort before → b ∈ (list.insertionSort before).filter test →
      before a b → before b a → a = b := by
    intro a b first second
    have member := List.mem_of_mem_filter ((List.mem_insertionSort before).mp first)
    have member' := (List.mem_insertionSort before).mp (List.mem_of_mem_filter second)
    exact strict a member b member'
  have same : ((list.filter test).insertionSort before).Perm ((list.insertionSort before).filter test) :=
    (List.perm_insertionSort before _).trans ((List.perm_insertionSort before list).symm.filter test)
  exact same.eq_of_pairwise apart (List.pairwise_insertionSort before _)
    ((List.pairwise_insertionSort before list).filter test)

end Sorting

end Greedy
