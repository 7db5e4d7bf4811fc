import Rdst.Lib.Regex

/-! Slots of a text that are found in a mask of it, and filled. -/

namespace Slots

open Regex

variable {α : Type*}

/-- A text with parts of it replaced: where each begins and ends, and what stands there instead. -/
def splice (text : List α) (edits : List (Nat × Nat × List α)) : List α :=
  let done := edits.foldl (fun s edit => (s.1 ++ (text.take edit.1).drop s.2 ++ edit.2.2, edit.2.1)) (([] : List α), 0)
  done.1 ++ text.drop done.2

/-- The edits for the matches that have a value, given the number and the text of a match. -/
def edits (value : Nat → List α → Option (List α)) (found : List (Cursor α × Cursor α)) (first : Nat) :
    List (Nat × Nat × List α) :=
  (found.zipIdx first).filterMap fun m =>
    (value m.2 (matched m.1.1 m.1.2)).map fun filled => (m.1.1.offset, m.1.2.offset, filled)

section Fill

variable (width : List α → Option Nat) (value : Nat → List α → Option (List α))

/-- The same from left to right. A slot is as wide as `width` says of the mask, from its first character on; while one is
    passed, its characters stay or go. -/
def fill : Nat → Bool → Nat → List α → List α → List α
  | _, _, _, [], _ => []
  | _, _, _, _ :: _, [] => []
  | number, stays, passing + 1, c :: text, _ :: mask =>
    (if stays then [c] else []) ++ fill number stays passing text mask
  | number, _, 0, c :: text, m :: mask =>
    match width (m :: mask) with
    | none => c :: fill number true 0 text mask
    | some n =>
      match value number ((m :: mask).take n) with
      | none => c :: fill (number + 1) true (n - 1) text mask
      | some filled => filled ++ fill (number + 1) false (n - 1) text mask

variable {width value}

theorem fill_passing (number : Nat) (stays : Bool) (n : Nat) (text mask : List α) (long : text.length = mask.length) :
    fill width value number stays n text mask =
      (if stays then text.take n else []) ++ fill width value number true 0 (text.drop n) (mask.drop n) := by
  induction n generalizing text mask with
  | zero => cases text <;> cases mask <;> simp [fill]
  | succ n ih =>
    cases text with
    | nil => simp [fill]
    | cons c text =>
      cases mask with
      | nil => cases long
      | cons m mask =>
        have rest := ih text mask (Nat.succ.inj long)
        cases stays <;> simp_all [fill]

/-- Characters that stay can be passed one by one where no slot begins. -/
theorem fill_stays (number n : Nat) (text mask : List α) (long : text.length = mask.length)
    (none_ : ∀ i < n, width (mask.drop i) = none) :
    fill width value number true n text mask = fill width value number true 0 text mask := by
  induction n generalizing text mask with
  | zero => rfl
  | succ n ih =>
    cases text with
    | nil => cases mask <;> rfl
    | cons c text =>
      cases mask with
      | nil => cases long
      | cons m mask =>
        have here := none_ 0 (Nat.succ_pos n)
        rw [List.drop_zero] at here
        have later := ih text mask (Nat.succ.inj long) fun i small => none_ (i + 1) (Nat.succ_lt_succ small)
        simp only [fill, here, later, if_true, List.singleton_append]

/-- Nothing is found where no match begins. -/
theorem finditer_eq_nil {found : Cursor α → Option (Cursor α)} {mask : List α} :
    finditer found mask = [] ↔ ∀ before rest, mask = before ++ rest → found ⟨before.reverse, rest, []⟩ = none := by
  have run : ∀ fuel before rest, rest.length < fuel → (finditerFrom found fuel ⟨before, rest, []⟩ = [] ↔
      ∀ early late, rest = early ++ late → found ⟨early.reverse ++ before, late, []⟩ = none) := by
    intro fuel
    induction fuel with
    | zero => exact fun _ _ enough => absurd enough (Nat.not_lt_zero _)
    | succ fuel ih =>
      intro before rest enough
      rw [finditerFrom]
      cases here : found ⟨before, rest, []⟩ with
      | some d =>
        constructor
        · exact nofun
        · intro never
          have missing := never [] rest rfl
          rw [List.reverse_nil, List.nil_append, here] at missing
          cases missing
      | none =>
        cases rest with
        | nil =>
          constructor
          · intro _ early late split
            obtain ⟨rfl, rfl⟩ := List.append_eq_nil_iff.mp split.symm
            exact here
          · exact fun _ => rfl
        | cons x rest =>
          have later := ih (x :: before) rest (Nat.lt_of_succ_lt_succ enough)
          show finditerFrom found fuel ⟨x :: before, rest, []⟩ = [] ↔ _
          rw [later]
          constructor
          · intro never early late split
            cases early with
            | nil =>
              cases split
              exact here
            | cons y early =>
              cases split
              simpa using never early late rfl
          · intro never early late split
            simpa using never (x :: early) late (by rw [split]; rfl)
  have whole := run (mask.length + 1) [] mask (Nat.lt_succ_self _)
  simpa [finditer, start] using whole

/-- How wide the matches are. -/
def Measures (found : Cursor α → Option (Cursor α)) (width : List α → Option Nat) : Prop :=
  ∀ before rest, match width rest with
    | none => found ⟨before, rest, []⟩ = none
    | some n => 0 < n ∧ n ≤ rest.length ∧ found ⟨before, rest, []⟩ = some ⟨(rest.take n).reverse ++ before, rest.drop n, []⟩

theorem edits_cons (m : Cursor α × Cursor α) (found : List (Cursor α × Cursor α)) (first : Nat) :
    edits value (m :: found) first =
      ((value first (matched m.1 m.2)).map fun filled => (m.1.offset, m.2.offset, filled)).toList ++
        edits value found (first + 1) := by
  unfold edits
  rw [List.zipIdx_cons, List.filterMap_cons]
  cases value first (matched m.1 m.2) <;> rfl

/-- The texts of the slots, from left to right. -/
def tokens (width : List α → Option Nat) : Nat → List α → List (List α)
  | _, [] => []
  | passing + 1, _ :: mask => tokens width passing mask
  | 0, m :: mask =>
    match width (m :: mask) with
    | none => tokens width 0 mask
    | some n => (m :: mask).take n :: tokens width (n - 1) mask

theorem tokens_pass (n : Nat) (mask : List α) : tokens width n mask = tokens width 0 (mask.drop n) := by
  induction n generalizing mask with
  | zero => rfl
  | succ n ih =>
    cases mask with
    | nil => rfl
    | cons m mask => exact ih mask

theorem finditer_tokens {found : Cursor α → Option (Cursor α)} (measures : Measures found width) (mask : List α) :
    (finditer found mask).map (fun m => matched m.1 m.2) = tokens width 0 mask := by
  have run : ∀ fuel before rest, rest.length < fuel →
      (finditerFrom found fuel ⟨before, rest, []⟩).map (fun m => matched m.1 m.2) = tokens width 0 rest := by
    intro fuel
    induction fuel with
    | zero => exact fun _ _ enough => absurd enough (Nat.not_lt_zero _)
    | succ fuel ih =>
      intro before rest enough
      have measure := measures before rest
      rw [finditerFrom]
      cases wide : width rest with
      | none =>
        rw [wide] at measure
        rw [measure]
        cases rest with
        | nil => rfl
        | cons m rest =>
          simp only [tokens, wide]
          exact ih (m :: before) rest (Nat.lt_of_succ_lt_succ enough)
      | some n =>
        rw [wide] at measure
        obtain ⟨some_, within, here⟩ := measure
        rw [here]
        have taken : matched ⟨before, rest, []⟩ ⟨(rest.take n).reverse ++ before, rest.drop n, []⟩ = rest.take n := by
          have whole := matched_append before ((rest.take n).reverse ++ before) (rest.take n) (rest.drop n) [] []
          rwa [List.take_append_drop] at whole
        have later := ih ((rest.take n).reverse ++ before) (rest.drop n) (by rw [List.length_drop]; omega)
        cases rest with
        | nil => exact absurd within (by simp; omega)
        | cons m rest =>
          simp only [List.map_cons, taken, tokens, wide]
          have tail : (m :: rest).drop n = rest.drop (n - 1) := by
            cases n with
            | zero => omega
            | succ n => rfl
          rw [later, tokens_pass (n - 1), tail]
  exact run _ _ _ (Nat.lt_succ_self _)

/-- Splicing the matches into a text fills its slots. -/
theorem splice_fill {found : Cursor α → Option (Cursor α)} (measures : Measures found width) {text mask : List α}
    (long : text.length = mask.length) (first : Nat) :
    splice text (edits value (finditer found mask) first) = fill width value first true 0 text mask := by
  have run : ∀ fuel number before rest done left out last, rest.length < fuel → text = done ++ left →
      done.length = before.length → left.length = rest.length → last ≤ done.length →
      let s := (edits value (finditerFrom found fuel ⟨before, rest, []⟩) number).foldl
        (fun s edit => (s.1 ++ (text.take edit.1).drop s.2 ++ edit.2.2, edit.2.1)) (out, last)
      s.1 ++ text.drop s.2 = out ++ (done.drop last ++ fill width value number true 0 left rest) := by
    intro fuel
    induction fuel with
    | zero => exact fun _ _ _ _ _ _ _ enough => absurd enough (Nat.not_lt_zero _)
    | succ fuel ih =>
      intro number before rest done left out last enough split same level behind
      have measure := measures before rest
      rw [finditerFrom]
      cases wide : width rest with
      | none =>
        rw [wide] at measure
        rw [measure]
        cases rest with
        | nil =>
          have empty : left = [] := List.length_eq_zero_iff.mp level
          subst empty
          rw [List.append_nil] at split
          simp [edits, fill, split]
        | cons m rest =>
          cases left with
          | nil => cases level
          | cons c left =>
            have later := ih number (m :: before) rest (done ++ [c]) left out last (Nat.lt_of_succ_lt_succ enough)
              (by rw [split]; simp) (by simp [same]) (Nat.succ.inj level) (by simp; omega)
            simp only [fill, wide]
            rw [List.drop_append_of_le_length behind, List.append_assoc] at later
            exact later
      | some n =>
        rw [wide] at measure
        obtain ⟨some_, within, here⟩ := measure
        rw [here]
        have taken : matched ⟨before, rest, []⟩ ⟨(rest.take n).reverse ++ before, rest.drop n, []⟩ = rest.take n := by
          have whole := matched_append before ((rest.take n).reverse ++ before) (rest.take n) (rest.drop n) [] []
          rwa [List.take_append_drop] at whole
        have wideLeft : n ≤ left.length := by omega
        have later := ih (number + 1) ((rest.take n).reverse ++ before) (rest.drop n) (done ++ left.take n) (left.drop n)
        have shorter : (rest.drop n).length < fuel := by
          rw [List.length_drop]
          omega
        have whole : text = done ++ left.take n ++ left.drop n := by
          rw [List.append_assoc, List.take_append_drop, split]
        have steps : (done ++ left.take n).length = ((rest.take n).reverse ++ before).length := by
          rw [List.length_append, List.length_append, List.length_reverse, List.length_take, List.length_take]
          omega
        have leaves : (left.drop n).length = (rest.drop n).length := by
          rw [List.length_drop, List.length_drop, level]
        have passed : ∀ stays, fill width value (number + 1) stays (n - 1) left.tail rest.tail =
            (if stays then left.tail.take (n - 1) else []) ++
              fill width value (number + 1) true 0 (left.drop n) (rest.drop n) := by
          intro stays
          rw [fill_passing _ _ _ _ _ (by simp [level]), ← List.drop_one, ← List.drop_one, List.drop_drop, List.drop_drop,
            Nat.add_sub_cancel' some_]
        simp only [edits_cons, taken]
        cases rest with
        | nil => exact absurd within (by simp; omega)
        | cons m rest =>
          cases left with
          | nil => cases level
          | cons c left =>
            simp only [fill, wide]
            cases filled : value number ((m :: rest).take n) with
            | none =>
              have last_ := later out last shorter whole steps leaves (by rw [List.length_append]; omega)
              have kept := passed true
              simp only [List.tail_cons, if_true] at kept
              simp only [Option.map_none, Option.toList_none, List.nil_append, kept]
              rw [List.drop_append_of_le_length behind, List.append_assoc] at last_
              have first_ : (c :: left).take n = c :: left.take (n - 1) := by
                cases n with
                | zero => omega
                | succ n => rfl
              rw [first_] at last_
              exact last_
            | some literal =>
              have gone := passed false
              simp only [List.tail_cons, Bool.false_eq_true, if_false, List.nil_append] at gone
              have last_ := later (out ++ (text.take before.length).drop last ++ literal)
                (((m :: rest).take n).reverse ++ before).length shorter whole steps leaves (Nat.le_of_eq steps.symm)
              simp only [Option.map_some, Option.toList_some, List.cons_append, List.nil_append, List.foldl_cons, gone,
                Cursor.offset]
              rw [last_, ← steps, List.drop_length, List.nil_append, ← same, split, List.take_left]
              simp
  have whole := run (mask.length + 1) first [] mask [] text [] 0 (Nat.lt_succ_self _) rfl rfl long (Nat.le_refl _)
  simpa [splice, finditer, start] using whole

end Fill

end Slots
