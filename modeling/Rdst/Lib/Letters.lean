import Mathlib.Data.List.Basic

/-! Texts as lists of characters, and the letters of ASCII among them. -/

namespace Letters

instance lawfulTexts : LawfulBEq (List Char) := List.instLawfulBEq

theorem isUpper_eq (c : Char) : c.isUpper = decide (c.val ≥ 'A'.val ∧ c.val ≤ 'Z'.val) := rfl

theorem isLower_eq (c : Char) : c.isLower = (decide (c.val ≥ 'a'.val) && decide (c.val ≤ 'z'.val)) := rfl

theorem isAlpha_eq (c : Char) : c.isAlpha = (c.isUpper || c.isLower) := rfl

end Letters
