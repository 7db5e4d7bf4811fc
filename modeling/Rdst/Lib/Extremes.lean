import Mathlib.Order.Basic

/-! The first of some values under an order, where a blank value says nothing. -/

namespace Extremes

variable {α : Type*} {before : α → α → Prop} {blank : α}

/-- A value that stands first among those that are not blank; blank where all are. -/
def Picks (before : α → α → Prop) (blank : α) (xs : List α) (v : α) : Prop :=
  (v = blank ∧ ∀ x ∈ xs, x = blank) ∨ (v ≠ blank ∧ v ∈ xs ∧ ∀ x ∈ xs, x ≠ blank → before v x)

theorem Picks.single (refl : ∀ x, before x x) (x : α) : Picks before blank [x] x := by
  by_cases empty : x = blank
  · exact .inl ⟨empty, fun y member => (List.mem_singleton.mp member).trans empty⟩
  · refine .inr ⟨empty, List.mem_cons_self, fun y member _ => ?_⟩
    rw [List.mem_singleton.mp member]
    exact refl x

theorem Picks.congr {xs ys : List α} {v : α} (picks : Picks before blank xs v) (same : ∀ x, x ∈ xs ↔ x ∈ ys) :
    Picks before blank ys v :=
  picks.imp (fun none_ => ⟨none_.1, fun x member => none_.2 x ((same x).mpr member)⟩)
    fun some_ => ⟨some_.1, (same v).mp some_.2.1, fun x member => some_.2.2 x ((same x).mpr member)⟩

/-- What is picked of two picks is picked of all that they were picked of. -/
theorem Picks.join (trans : ∀ x y z, before x y → before y z → before x z) {xs ys : List α} {a b v : α}
    (first : Picks before blank xs a) (second : Picks before blank ys b) (both : Picks before blank [a, b] v) :
    Picks before blank (xs ++ ys) v := by
  have front : ∀ x ∈ xs, x ≠ blank → before a x ∧ a ≠ blank := fun x member some_ =>
    first.elim (fun none_ => absurd (none_.2 x member) some_) fun found => ⟨found.2.2 x member some_, found.1⟩
  have back : ∀ x ∈ ys, x ≠ blank → before b x ∧ b ≠ blank := fun x member some_ =>
    second.elim (fun none_ => absurd (none_.2 x member) some_) fun found => ⟨found.2.2 x member some_, found.1⟩
  rcases both with ⟨empty, all⟩ | ⟨some_, member, least⟩
  · refine .inl ⟨empty, ?_⟩
    intro x inside
    by_contra some_
    rcases List.mem_append.mp inside with early | late
    · exact (front x early some_).2 (all a (by simp))
    · exact (back x late some_).2 (all b (by simp))
  · refine .inr ⟨some_, ?_, ?_⟩
    · rcases List.mem_cons.mp member with rfl | member
      · exact List.mem_append_left _ (first.resolve_left fun none_ => some_ none_.1).2.1
      · obtain rfl := List.mem_singleton.mp member
        exact List.mem_append_right _ (second.resolve_left fun none_ => some_ none_.1).2.1
    · intro x inside other
      rcases List.mem_append.mp inside with early | late
      · exact trans _ _ _ (least a (by simp) (front x early other).2) (front x early other).1
      · exact trans _ _ _ (least b (by simp) (back x late other).2) (back x late other).1

theorem Picks.unique (antisymm : ∀ x y, before x y → before y x → x = y) {xs : List α} {v w : α}
    (first : Picks before blank xs v) (second : Picks before blank xs w) : v = w := by
  rcases first with ⟨empty, all⟩ | ⟨some_, member, least⟩
  · rcases second with ⟨empty', -⟩ | ⟨some_', member', -⟩
    · exact empty.trans empty'.symm
    · exact absurd (all w member') some_'
  · rcases second with ⟨-, all⟩ | ⟨some_', member', least'⟩
    · exact absurd (all v member) some_
    · exact antisymm _ _ (least w member' some_') (least' v member some_)

end Extremes
