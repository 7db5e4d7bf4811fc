import Mathlib.Data.List.Infix

/-! A needle replaced everywhere in a text. -/

namespace ReplaceAll

variable {α β : Type*} [DecidableEq α]

/-- The text with the needle replaced, after characters of an occurrence that are still to be passed. -/
def replaceFrom (needle value : List α) : Nat → List α → List α
  | _, [] => []
  | passing + 1, _ :: rest => replaceFrom needle value passing rest
  | 0, c :: rest =>
    if needle.isPrefixOf (c :: rest) then value ++ replaceFrom needle value (needle.length - 1) rest
    else c :: replaceFrom needle value 0 rest

/-- `text.replace(needle, value)`. -/
def replaceAll (needle value text : List α) : List α := replaceFrom needle value 0 text

variable {needle value : List α}

theorem replaceFrom_pass (front rest : List α) :
    replaceFrom needle value front.length (front ++ rest) = replaceFrom needle value 0 rest := by
  induction front with
  | nil => rfl
  | cons c front ih => exact ih

theorem replaceFrom_hit (some_ : needle ≠ []) (rest : List α) :
    replaceFrom needle value 0 (needle ++ rest) = value ++ replaceFrom needle value 0 rest := by
  cases needle with
  | nil => exact absurd rfl some_
  | cons c needle =>
    have here : (c :: needle).isPrefixOf (c :: (needle ++ rest)) = true :=
      List.isPrefixOf_iff_prefix.mpr (List.prefix_append (c :: needle) rest)
    rw [List.cons_append, replaceFrom, if_pos here, List.length_cons, Nat.add_sub_cancel, replaceFrom_pass]

/-- A part of the text in which no occurrence begins stays. -/
theorem replaceFrom_apart {part rest : List α}
    (apart : ∀ front back, part = front ++ back → back ≠ [] → ¬ needle <+: back ++ rest) :
    replaceFrom needle value 0 (part ++ rest) = part ++ replaceFrom needle value 0 rest := by
  induction part with
  | nil => rfl
  | cons c part ih =>
    have here : ¬ needle.isPrefixOf (c :: (part ++ rest)) = true := by
      rw [List.isPrefixOf_iff_prefix]
      exact apart [] (c :: part) rfl (List.cons_ne_nil c part)
    have later := ih fun front back split => apart (c :: front) back (by rw [split]; rfl)
    rw [List.cons_append, replaceFrom, if_neg here, later, List.cons_append]

/-- A text written cell by cell, where the needle stands as whole cells only. -/
theorem replaceAll_flatMap (some_ : needle ≠ []) {write after : β → List α} {cells : List β}
    (each : ∀ before cell rest, cells = before ++ cell :: rest →
      (write cell = needle ∧ after cell = value) ∨
        (after cell = write cell ∧
          ∀ front back, write cell = front ++ back → back ≠ [] → ¬ needle <+: back ++ rest.flatMap write)) :
    replaceAll needle value (cells.flatMap write) = cells.flatMap after := by
  unfold replaceAll
  induction cells with
  | nil => rfl
  | cons cell rest ih =>
    have later := ih fun before other more split => each (cell :: before) other more (by rw [split]; rfl)
    rw [List.flatMap_cons, List.flatMap_cons]
    rcases each [] cell rest rfl with ⟨hit, filled⟩ | ⟨same, apart⟩
    · rw [hit, filled, replaceFrom_hit some_, later]
    · rw [same, replaceFrom_apart apart, later]

end ReplaceAll
