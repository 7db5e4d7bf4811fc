import Rdst.Analysis.Placeholders
import Rdst.Registry.SlotReading

namespace Rdst.Registry.Positional

open PyText Regex Slots SqlLexer
open Library.Listing (maskStringLiterals pgParam)

section Scans

variable (tables : Tables) (params : List Char → Option Stored)

/-- Outside of the literals. -/
def Scan.isCode : Scan → Bool
  | .code | .tag _ => true
  | _ => false

/-- The number of the slot that a dollar sign begins in the scan. -/
def scanNumber (b : Scan) (after : List Char) : List Char := if b = .code then after.takeWhile (isDecimal tables) else []

/-- The first pass, from left to right. -/
def dollarsFrom : Scan → Nat → List Char → List Char
  | _, _, [] => []
  | b, passing + 1, c :: rest => dollarsFrom (b.step tables c) passing rest
  | b, 0, c :: rest =>
    if c = '$' ∧ scanNumber tables b rest ≠ [] then
      match params (slotName (scanNumber tables b rest)) with
      | some stored => paramLiteral stored ++ dollarsFrom (b.step tables c) (scanNumber tables b rest).length rest
      | none => c :: dollarsFrom (b.step tables c) 0 rest
    else c :: dollarsFrom (b.step tables c) 0 rest

/-- The second pass, where it fills anything. -/
def questionsFrom : Scan → Nat → List Char → List Char
  | _, _, [] => []
  | b, index, c :: rest =>
    if c = '?' ∧ b.isCode = true then
      ((params (questionName index)).map paramLiteral).getD [c] ++ questionsFrom (b.step tables c) (index + 1) rest
    else c :: questionsFrom (b.step tables c) index rest

end Scans

section Visible

variable {tables : Tables}

theorem visible_length (b : Scan) (text : List Char) : (visible tables b text).length = text.length := by
  induction text generalizing b with
  | nil => rfl
  | cons c rest ih => simp [visible, ih]

theorem visible_drop (b : Scan) (text : List Char) (n : Nat) :
    (visible tables b text).drop n = visible tables ((text.take n).foldl (Scan.step tables) b) (text.drop n) := by
  induction n generalizing b text with
  | zero => rfl
  | succ n ih =>
    cases text with
    | nil => rfl
    | cons c rest => exact ih (b.step tables c) rest

theorem decimal_plain {c : Char} (decimal : isDecimal tables c = true) :
    c ≠ '$' ∧ c ≠ '\'' ∧ c ≠ '?' ∧ c ≠ ' ' ∧ inTag tables [] c = false := by
  have plain : ∀ x ∈ ['$', '\'', '?', ' '], isDecimal tables x = false := by
    intro x member
    simp only [List.mem_cons, List.not_mem_nil, or_false] at member
    rcases member with rfl | rfl | rfl | rfl <;> rfl
  have other : ∀ x ∈ ['$', '\'', '?', ' '], c ≠ x := by
    intro x member same
    rw [same, plain x member] at decimal
    exact Bool.noConfusion decimal
  refine ⟨other _ (by simp), other _ (by simp), other _ (by simp), other _ (by simp), ?_⟩
  by_contra letter
  rw [Bool.not_eq_false, inTag, if_pos rfl, Bool.or_eq_true, beq_iff_eq] at letter
  rcases letter with alpha | rfl
  · have ascii := isAlphanum_ascii (c := c) (by simp [Char.isAlphanum, alpha])
    rw [isDecimal, if_pos ascii] at decimal
    simp only [Letters.isAlpha_eq, Letters.isUpper_eq, Letters.isLower_eq, Char.isDigit, Bool.or_eq_true, Bool.and_eq_true, decide_eq_true_eq] at alpha decimal
    have high := UInt32.le_iff_toNat_le.mp decimal.2
    rcases alpha with upper | lower
    · have low := UInt32.le_iff_toNat_le.mp upper.1
      exact absurd (Nat.le_trans low high) (by decide)
    · have low := UInt32.le_iff_toNat_le.mp lower.1
      exact absurd (Nat.le_trans low high) (by decide)
  · have mark : isDecimal tables '_' = false := rfl
    rw [mark] at decimal
    exact Bool.noConfusion decimal

theorem decimal_completes {c : Char} (decimal : isDecimal tables c = true) (rest : List Char) :
    completes tables [] (c :: rest) = false := by
  have plain := decimal_plain decimal
  simp [completes, plain.1, plain.2.2.2.2]

/-- The numbers of a text are in its visible part too. -/
theorem visible_decimals (text : List Char) :
    (visible tables .code text).takeWhile (isDecimal tables) = text.takeWhile (isDecimal tables) := by
  induction text with
  | nil => rfl
  | cons c rest ih =>
    cases decimal : isDecimal tables c with
    | true =>
      have plain := decimal_plain decimal
      have shown : hides tables .code c rest = false := by simp [hides, plain]
      have stays : Scan.step tables .code c = .code := by simp [Scan.step, Scan.leave, plain]
      rw [visible, shown, stays, List.takeWhile_cons_of_pos decimal]
      simp [decimal, ih]
    | false =>
      have first : isDecimal tables (if hides tables .code c rest then ' ' else c) = false := by
        split
        · rfl
        · exact decimal
      rw [visible, List.takeWhile_cons_of_neg (by simp [first]), List.takeWhile_cons_of_neg (by simp [decimal])]

/-- After a dollar sign the same numbers are visible. -/
theorem visible_number {text : List Char} (some_ : text.takeWhile (isDecimal tables) ≠ []) :
    (visible tables (.tag []) text).takeWhile (isDecimal tables) = text.takeWhile (isDecimal tables) := by
  have open_ : completes tables [] text = false := by
    cases text with
    | nil => exact absurd rfl some_
    | cons c rest =>
      cases decimal : isDecimal tables c with
      | true => exact decimal_completes decimal rest
      | false => exact absurd (List.takeWhile_cons_of_neg (by simp [decimal])) some_
  rw [visible_tag text open_, visible_decimals]

end Visible

section Widths

variable (tables : Tables)

def dollarWidth : List Char → Option Nat
  | [] => none
  | c :: rest => if c = '$' ∧ rest.takeWhile (isDecimal tables) ≠ [] then
      some ((rest.takeWhile (isDecimal tables)).length + 1) else none

def questionWidth : List Char → Option Nat
  | [] => none
  | c :: _ => if c = '?' then some 1 else none

theorem dollar_measures : Measures (matchAt (pgParam tables)) (dollarWidth tables) := by
  intro before rest
  let m := Analysis.Placeholders.dollarNumber tables
  have same : ∀ c, matchAt (pgParam tables) c = matchNotAfter m.barred m.pattern c := by
    intro c
    rw [matchNotAfter, if_neg]
    · rfl
    · cases c.before.head? <;> exact Bool.false_ne_true
  cases rest with
  | nil => simp [dollarWidth, pgParam, matchAt, successes]
  | cons x rest =>
    have begins : m.Begins before.head? x rest ↔ x = '$' ∧ rest.takeWhile (isDecimal tables) ≠ [] := by
      have first : rest.head?.any (isDecimal tables) = true ↔ rest.takeWhile (isDecimal tables) ≠ [] := by
        cases rest with
        | nil => simp
        | cons y more => cases decimal : isDecimal tables y <;> simp [decimal]
      have free : before.head?.any m.barred = false := by cases before.head? <;> rfl
      constructor
      · exact fun all => ⟨beq_iff_eq.mp all.1, first.mp all.2.2⟩
      · exact fun both => ⟨beq_iff_eq.mpr both.1, free, first.mpr both.2⟩
    rw [same, m.match_pattern, dollarWidth]
    by_cases slot : x = '$' ∧ rest.takeWhile (isDecimal tables) ≠ []
    · rw [if_pos slot, if_pos (begins.mpr slot)]
      have split := List.takeWhile_append_dropWhile (p := isDecimal tables) (l := rest)
      show 0 < _ ∧ _ ∧ some (⟨(rest.takeWhile (isDecimal tables)).reverse ++ x :: before, rest.dropWhile (isDecimal tables), []⟩ :
        Cursor Char) = _
      generalize rest.takeWhile (isDecimal tables) = number at split ⊢
      generalize rest.dropWhile (isDecimal tables) = after at split ⊢
      subst split
      simp
    · rw [if_neg slot, if_neg fun all => slot (begins.mp all)]

theorem question_measures : Measures (matchAt (.char (· == '?'))) questionWidth := by
  intro before rest
  cases rest with
  | nil => simp [questionWidth, matchAt, successes]
  | cons x rest =>
    rw [questionWidth]
    by_cases mark : x = '?'
    · simp [mark, matchAt, successes, Cursor.next]
    · simp [mark, matchAt, successes]

end Widths

section Passes

variable {tables : Tables} {params : List Char → Option Stored}

def dollarValue (params : List Char → Option Stored) (_ : Nat) (token : List Char) : Option (List Char) :=
  (params (slotName (token.drop 1))).map paramLiteral

theorem dollarValue_cons (number : Nat) (digits : List Char) :
    dollarValue params number ('$' :: digits) = (params (slotName digits)).map paramLiteral := rfl

/-- A slot that the scan sees is visible, and with it its number. -/
theorem visible_slot {rest : List Char} (some_ : rest.takeWhile (isDecimal tables) ≠ []) :
    visible tables .code ('$' :: rest) = '$' :: visible tables (.tag []) rest := by
  have open_ : completes tables [] rest = false := by
    cases rest with
    | nil => rfl
    | cons c rest =>
      cases decimal : isDecimal tables c with
      | true => exact decimal_completes decimal rest
      | false => exact absurd (List.takeWhile_cons_of_neg (by simp [decimal])) some_
  have shown : hides tables .code '$' rest = false := by simp [hides, open_]
  rw [visible, shown]
  rfl

/-- A dollar sign that begins no slot in the scan begins none in the mask. -/
theorem dollarWidth_none {b : Scan} {c : Char} {rest : List Char} (none_ : ¬ (c = '$' ∧ scanNumber tables b rest ≠ [])) :
    dollarWidth tables (visible tables b (c :: rest)) = none := by
  rw [visible, dollarWidth]
  apply if_neg
  rintro ⟨mark, digits⟩
  apply none_
  cases hidden : hides tables b c rest with
  | true =>
    rw [hidden, if_pos rfl] at mark
    exact absurd mark (by decide)
  | false =>
    rw [hidden] at mark
    have dollar : c = '$' := mark
    subst dollar
    apply And.intro rfl
    cases b with
    | code =>
      rw [scanNumber, if_pos rfl]
      cases rest with
      | nil => exact digits
      | cons d rest =>
        intro none_
        apply digits
        have other : isDecimal tables d = false := by
          cases decimal : isDecimal tables d with
          | true => simp [decimal] at none_
          | false => rfl
        rw [visible]
        apply List.takeWhile_cons_of_neg
        split
        · exact Bool.false_ne_true
        · rw [other]
          exact Bool.false_ne_true
    | tag name => simp [hides, completes] at hidden
    | quote => cases hidden
    | body name seen => cases hidden

theorem dollarWidth_digits {text : List Char} (i : Nat) (inside : i < (text.takeWhile (isDecimal tables)).length) :
    dollarWidth tables (text.drop i) = none := by
  have split := List.takeWhile_append_dropWhile (p := isDecimal tables) (l := text)
  have decimals : ∀ c ∈ text.takeWhile (isDecimal tables), isDecimal tables c = true := List.all_eq_true.mp List.all_takeWhile
  rw [← split, List.drop_append_of_le_length (Nat.le_of_lt inside), List.drop_eq_getElem_cons inside]
  rw [List.cons_append, dollarWidth]
  apply if_neg
  intro both
  exact (decimal_plain (decimals _ (List.getElem_mem inside))).1 both.1

/-- Filling the numbered slots through the mask is the first pass. -/
theorem fill_dollars (b : Scan) (text : List Char) (number passing : Nat) (stays : Bool)
    (gone : passing = 0 ∨ stays = false) :
    fill (dollarWidth tables) (dollarValue params) number stays passing text (visible tables b text) =
      dollarsFrom tables params b passing text := by
  induction text generalizing b number passing stays with
  | nil => cases passing <;> rfl
  | cons c rest ih =>
    cases passing with
    | succ passing =>
      have out : stays = false := gone.resolve_left (Nat.succ_ne_zero _)
      subst out
      exact ih (b.step tables c) number passing false (.inr rfl)
    | zero =>
      by_cases slot : c = '$' ∧ scanNumber tables b rest ≠ []
      · obtain ⟨rfl, some_⟩ := slot
        have code : b = .code := by
          by_contra other
          exact some_ (if_neg other)
        subst code
        have digits : scanNumber tables .code rest = rest.takeWhile (isDecimal tables) := if_pos rfl
        rw [digits] at some_
        have same := visible_number some_
        have width : dollarWidth tables ('$' :: visible tables (.tag []) rest) =
            some ((rest.takeWhile (isDecimal tables)).length + 1) := by
          rw [dollarWidth, same]
          exact if_pos ⟨rfl, some_⟩
        have token : (visible tables (.tag []) rest).take (rest.takeWhile (isDecimal tables)).length =
            rest.takeWhile (isDecimal tables) := by
          rw [← same]
          exact (List.prefix_iff_eq_take.mp (List.takeWhile_prefix _)).symm
        rw [visible_slot some_]
        simp only [fill, width, dollarsFrom, digits, ne_eq, some_, not_false_eq_true, and_self, if_true, Nat.add_sub_cancel,
          List.take_succ_cons, token, dollarValue_cons]
        cases params (slotName (rest.takeWhile (isDecimal tables))) with
        | none =>
          have passed : fill (dollarWidth tables) (dollarValue params) (number + 1) true _ rest (visible tables (.tag []) rest) = _ :=
            fill_stays (number + 1) (rest.takeWhile (isDecimal tables)).length rest (visible tables (.tag []) rest)
              (visible_length _ _).symm (by rw [← same]; exact dollarWidth_digits)
          simp only [Option.map_none]
          rw [passed]
          exact congrArg _ (ih (.tag []) (number + 1) 0 true (.inl rfl))
        | some stored =>
          simp only [Option.map_some]
          exact congrArg _ (ih (.tag []) (number + 1) _ false (.inr rfl))
      · have width := dollarWidth_none slot
        rw [visible] at width ⊢
        simp only [fill, width, dollarsFrom, slot, if_false]
        exact congrArg _ (ih (b.step tables c) number 0 true (.inl rfl))

theorem substitute_dollars (sql : List Char) :
    substituteDollarSlots tables params sql = dollarsFrom tables params .code 0 sql := by
  unfold substituteDollarSlots dollarSlots
  rw [mask_visible, splice_fill (dollar_measures tables) (visible_length _ _).symm]
  exact fill_dollars .code sql 1 0 true (.inl rfl)

theorem question_hides (b : Scan) (rest : List Char) : hides tables b '?' rest = !b.isCode := by
  cases b with
  | code => rfl
  | quote => rfl
  | body name seen => rfl
  | tag name =>
    have other : inTag tables name '?' = false := by
      unfold inTag
      split <;> rfl
    simp [hides, completes, other, Scan.isCode]

/-- Filling the question marks through the mask is the second pass. -/
theorem fill_questions (b : Scan) (text : List Char) (index : Nat) (stays : Bool) :
    fill questionWidth (fun index _ => (params (questionName index)).map paramLiteral) index stays 0 text
      (visible tables b text) = questionsFrom tables params b index text := by
  induction text generalizing b index stays with
  | nil => rfl
  | cons c rest ih =>
    by_cases mark : c = '?' ∧ b.isCode = true
    · obtain ⟨rfl, code⟩ := mark
      have shown : hides tables b '?' rest = false := by rw [question_hides, code]; rfl
      have width : ∀ text, questionWidth ('?' :: text) = some 1 := fun _ => rfl
      rw [visible, shown]
      simp only [Bool.false_eq_true, if_false, fill, width, questionsFrom, code, and_self, if_true]
      cases params (questionName index) with
      | none => exact congrArg _ (ih (b.step tables '?') (index + 1) true)
      | some stored => exact congrArg _ (ih (b.step tables '?') (index + 1) false)
    · have width : questionWidth (visible tables b (c :: rest)) = none := by
        rw [visible, questionWidth]
        apply if_neg
        intro same
        apply mark
        cases hidden : hides tables b c rest with
        | true =>
          rw [hidden, if_pos rfl] at same
          exact absurd same (by decide)
        | false =>
          rw [hidden] at same
          have question : c = '?' := same
          subst question
          rw [question_hides] at hidden
          exact ⟨rfl, by simpa using hidden⟩
      rw [visible] at width ⊢
      simp only [fill, width, questionsFrom, mark, if_false]
      exact congrArg _ (ih (b.step tables c) index true)

end Passes

end Rdst.Registry.Positional
