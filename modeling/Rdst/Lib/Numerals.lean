import Mathlib.Data.List.DropRight
import Rdst.Lib.Double

/-! Decimal numerals: what a text of one is, and the text of a float. -/

namespace Numerals

open Float64

section Reading

def wholeNumber (digits : List Char) : Option ℕ :=
  if digits ≠ [] ∧ digits.all Char.isDigit = true then some (Nat.ofDigitChars 10 digits 0) else none

/-- The exponent that a text is, if it is one. -/
def readExponent : List Char → Option ℤ
  | [] => some 0
  | c :: rest =>
    if c = 'e' ∨ c = 'E' then
      match rest with
      | '+' :: digits => (wholeNumber digits).map Int.ofNat
      | '-' :: digits => (wholeNumber digits).map fun n => -Int.ofNat n
      | digits => (wholeNumber digits).map Int.ofNat
    else none

/-- Digits with at most one point among or beside them, and an exponent. -/
def readDecimal (text : List Char) : Option Decimal :=
  let whole := text.takeWhile Char.isDigit
  match text.dropWhile Char.isDigit with
  | '.' :: more =>
    let part := more.takeWhile Char.isDigit
    if whole ++ part = [] then none
    else (readExponent (more.dropWhile Char.isDigit)).map fun e => ⟨Nat.ofDigitChars 10 (whole ++ part) 0, e - part.length⟩
  | rest =>
    if whole = [] then none
    else (readExponent rest).map fun e => ⟨Nat.ofDigitChars 10 whole 0, e⟩

variable {whole part rest : List Char}

theorem takeWhile_run {run : List Char} (digits : ∀ c ∈ run, c.isDigit = true) (stops : ∀ c ∈ rest.head?, c.isDigit = false) :
    (run ++ rest).takeWhile Char.isDigit = run ∧ (run ++ rest).dropWhile Char.isDigit = rest := by
  rw [List.takeWhile_append_of_pos digits, List.dropWhile_append_of_pos digits]
  cases rest with
  | nil => simp
  | cons c rest => simp [stops c rfl]

theorem readDecimal_whole (some_ : whole ≠ []) (digits : ∀ c ∈ whole, c.isDigit = true)
    (stops : ∀ c ∈ rest.head?, c.isDigit = false ∧ c ≠ '.') :
    readDecimal (whole ++ rest) = (readExponent rest).map fun e => ⟨Nat.ofDigitChars 10 whole 0, e⟩ := by
  obtain ⟨taken, left⟩ := takeWhile_run digits fun c head => (stops c head).1
  rw [readDecimal, taken, left]
  cases rest with
  | nil => simp only [if_neg some_]
  | cons c rest =>
    have other := (stops c rfl).2
    simp only [if_neg some_]
    split
    · rename_i more shape
      exact absurd (List.cons.inj shape).1 other
    · rfl

theorem readDecimal_point (some_ : whole ++ part ≠ []) (digits : ∀ c ∈ whole, c.isDigit = true)
    (parts : ∀ c ∈ part, c.isDigit = true) (stops : ∀ c ∈ rest.head?, c.isDigit = false) :
    readDecimal (whole ++ '.' :: (part ++ rest)) =
      (readExponent rest).map fun e => ⟨Nat.ofDigitChars 10 (whole ++ part) 0, e - part.length⟩ := by
  obtain ⟨taken, left⟩ := @takeWhile_run ('.' :: (part ++ rest)) whole digits (by rintro c ⟨⟩; rfl)
  obtain ⟨taken', left'⟩ := takeWhile_run parts stops
  rw [readDecimal, taken, left]
  simp only [taken', left', if_neg some_]

theorem readDecimal_nonneg {text : List Char} {d : Decimal} (reads : readDecimal text = some d) : 0 ≤ d.value := by
  have natural : ∀ (n : ℕ) (power : ℤ), 0 ≤ (⟨n, power⟩ : Decimal).value := fun n power => by
    rw [Decimal.value]
    positivity
  rw [readDecimal] at reads
  simp only at reads
  split at reads
  · split at reads
    · cases reads
    · obtain ⟨e, -, rfl⟩ := Option.map_eq_some_iff.mp reads
      exact natural _ _
  · split at reads
    · cases reads
    · obtain ⟨e, -, rfl⟩ := Option.map_eq_some_iff.mp reads
      exact natural _ _

end Reading

section Writing

/-- A number with a digit more where it has but one. -/
def padTwo (n : ℕ) : List Char :=
  let digits := Nat.toDigits 10 n
  if digits.length < 2 then '0' :: digits else digits

def writeExponent (e : ℤ) : List Char := 'e' :: (if e < 0 then '-' else '+') :: padTwo e.natAbs

/-- `repr` of a float with these significant digits and its point after so many of them. -/
def writeDigits (digits : List Char) (point : ℤ) : List Char :=
  if point ≤ -4 ∨ 16 < point then
    match digits with
    | [] => []
    | [d] => d :: writeExponent (point - 1)
    | d :: more => d :: '.' :: (more ++ writeExponent (point - 1))
  else if point ≤ 0 then ['0'] ++ '.' :: (List.replicate (-point).toNat '0' ++ digits)
  else if point < digits.length then digits.take point.toNat ++ '.' :: digits.drop point.toNat
  else digits ++ List.replicate (point - digits.length).toNat '0' ++ ['.', '0']

theorem toDigits_digits (n : ℕ) : ∀ c ∈ Nat.toDigits 10 n, c.isDigit = true :=
  fun _ member => Nat.isDigit_of_mem_toDigits (by decide) (by decide) member

theorem padTwo_number (n : ℕ) : wholeNumber (padTwo n) = some n := by
  have digits := toDigits_digits n
  rw [wholeNumber, padTwo]
  split
  · rw [if_pos ⟨by simp, by simpa using fun c member => digits c member⟩]
    simp [Nat.ofDigitChars_cons, Nat.ofDigitChars_toDigits]
  · have some_ : Nat.toDigits 10 n ≠ [] := Nat.toDigits_ne_nil
    rw [if_pos ⟨some_, List.all_eq_true.mpr digits⟩]
    simp [Nat.ofDigitChars_toDigits]

theorem readExponent_write (e : ℤ) : readExponent (writeExponent e) = some e := by
  rw [writeExponent]
  by_cases negative : e < 0
  · simp [readExponent, negative, padTwo_number, abs_of_neg negative]
  · simp [readExponent, negative, padTwo_number, abs_of_nonneg (not_lt.mp negative)]

theorem writeExponent_head (e : ℤ) : ∀ c ∈ (writeExponent e).head?, c.isDigit = false ∧ c ≠ '.' := by
  rintro c ⟨⟩
  decide

theorem replicate_digits (n : ℕ) : ∀ c ∈ List.replicate n '0', c.isDigit = true := by
  intro c member
  rw [(List.mem_replicate.mp member).2]
  rfl

/-- The text of a float is read as its digits with their point. -/
theorem readDecimal_write {digits : List Char} (some_ : digits ≠ []) (all : ∀ c ∈ digits, c.isDigit = true) (point : ℤ) :
    ∃ d, readDecimal (writeDigits digits point) = some d ∧
      d.value = Nat.ofDigitChars 10 digits 0 * 10 ^ (point - digits.length) := by
  unfold writeDigits
  split
  · cases digits with
    | nil => exact absurd rfl some_
    | cons d more =>
      have first : ∀ c ∈ [d], c.isDigit = true := fun c member => all c (by simp_all)
      cases more with
      | nil =>
        have read := readDecimal_whole (List.cons_ne_nil d []) first (writeExponent_head (point - 1))
        rw [readExponent_write] at read
        refine ⟨_, read, ?_⟩
        simp [Decimal.value]
      | cons d' more =>
        have read := readDecimal_point (List.cons_ne_nil d (d' :: more)) first (fun c member => all c (List.mem_cons_of_mem d member))
          fun c head => (writeExponent_head (point - 1) c head).1
        rw [readExponent_write] at read
        refine ⟨_, read, ?_⟩
        have power : point - 1 - ((d' :: more).length : ℤ) = point - ((d :: d' :: more).length : ℤ) := by
          simp only [List.length_cons]
          push_cast
          ring
        simp only [Decimal.value, power, List.singleton_append, Int.cast_natCast]
  split
  · have read := @readDecimal_point ['0'] (List.replicate (-point).toNat '0' ++ digits) [] (by simp)
      (replicate_digits 1) (by
        intro c member
        rcases List.mem_append.mp member with zero | digit
        · exact replicate_digits _ c zero
        · exact all c digit) nofun
    rw [List.append_nil] at read
    refine ⟨_, read, ?_⟩
    have power : (0 : ℤ) - ((List.replicate (-point).toNat '0' ++ digits).length : ℤ) = point - digits.length := by
      rw [List.length_append, List.length_replicate]
      push_cast
      omega
    have number : Nat.ofDigitChars 10 (['0'] ++ (List.replicate (-point).toNat '0' ++ digits)) 0 = Nat.ofDigitChars 10 digits 0 := by
      rw [Nat.ofDigitChars_append, Nat.ofDigitChars_append, Nat.ofDigitChars_replicate_zero]
      simp [Nat.ofDigitChars_cons]
    simp only [Decimal.value, power, number, Int.cast_natCast]
  split
  · rename_i inside
    have read := @readDecimal_point (digits.take point.toNat) (digits.drop point.toNat) []
      (by rw [List.take_append_drop]; exact some_) (fun c member => all c (List.mem_of_mem_take member))
      (fun c member => all c (List.mem_of_mem_drop member)) nofun
    rw [List.append_nil] at read
    refine ⟨_, read, ?_⟩
    have power : (0 : ℤ) - ((digits.drop point.toNat).length : ℤ) = point - digits.length := by
      rw [List.length_drop]
      omega
    simp only [Decimal.value, power, List.take_append_drop, Int.cast_natCast]
  · have read := @readDecimal_point (digits ++ List.replicate (point - digits.length).toNat '0') ['0'] []
      (by simp) (by
        intro c member
        rcases List.mem_append.mp member with digit | zero
        · exact all c digit
        · exact replicate_digits _ c zero) (replicate_digits 1) nofun
    rw [List.append_nil] at read
    refine ⟨_, read, ?_⟩
    have number : Nat.ofDigitChars 10 (digits ++ List.replicate (point - digits.length).toNat '0' ++ ['0']) 0 =
        10 ^ ((point - digits.length).toNat + 1) * Nat.ofDigitChars 10 digits 0 := by
      rw [Nat.ofDigitChars_append, Nat.ofDigitChars_append, Nat.ofDigitChars_replicate_zero]
      simp [Nat.ofDigitChars_cons]
      ring
    have power : (10 : ℚ) ^ (point - digits.length) = 10 ^ (point - digits.length).toNat := by
      rw [← zpow_natCast]
      congr 1
      omega
    simp only [Decimal.value, number, List.length_singleton, power]
    push_cast
    rw [pow_succ]
    field_simp

end Writing

section Floats

theorem round_nonneg {q : ℚ} (sign : 0 ≤ q) {x : Double} (rounds : Double.round q = some x) : 0 ≤ x.val := by
  have reads := Double.toDouble_of_round rounds
  rw [toDouble] at reads
  split at reads
  · rw [← Option.some_inj.mp reads]
    exact nearest_nonneg sign
  · cases reads

/-- The digits of a number without the zeros at its end. -/
def significant (n : ℕ) : List Char := (Nat.toDigits 10 n).rdropWhile (· == '0')

/-- `repr` of a float that is not negative. -/
def writeFloat (x : Double) : List Char :=
  if x.val = 0 then "0.0".toList
  else writeDigits (significant x.repr.digits.natAbs) ((Nat.toDigits 10 x.repr.digits.natAbs).length + x.repr.power)

/-- The zeros at the end are all that is missing. -/
theorem significant_zeros (n : ℕ) : ∃ k, Nat.toDigits 10 n = significant n ++ List.replicate k '0' := by
  refine ⟨((Nat.toDigits 10 n).rtakeWhile (· == '0')).length, ?_⟩
  have zeros : (Nat.toDigits 10 n).rtakeWhile (· == '0') =
      List.replicate ((Nat.toDigits 10 n).rtakeWhile (· == '0')).length '0' := by
    apply List.eq_replicate_iff.mpr
    refine ⟨rfl, fun c member => ?_⟩
    simpa using List.mem_rtakeWhile_imp member
  rw [← zeros]
  exact List.rdropWhile_append_rtakeWhile.symm

theorem significant_digits (n : ℕ) : ∀ c ∈ significant n, c.isDigit = true := by
  obtain ⟨k, split⟩ := significant_zeros n
  intro c member
  apply toDigits_digits n
  rw [split]
  exact List.mem_append_left _ member

theorem significant_some {n : ℕ} (positive : 0 < n) : significant n ≠ [] := by
  obtain ⟨k, split⟩ := significant_zeros n
  intro none_
  have number := congrArg (fun text => Nat.ofDigitChars 10 text 0) split
  rw [none_, List.nil_append, Nat.ofDigitChars_replicate_zero, Nat.ofDigitChars_toDigits (by decide) (by decide)] at number
  omega

/-- The digits with their point are the decimal. -/
theorem significant_value (n : ℕ) (power : ℤ) :
    (Nat.ofDigitChars 10 (significant n) 0 : ℚ) * 10 ^ ((Nat.toDigits 10 n).length + power - (significant n).length) =
      n * 10 ^ power := by
  obtain ⟨k, split⟩ := significant_zeros n
  have number : Nat.ofDigitChars 10 (Nat.toDigits 10 n) 0 = 10 ^ k * Nat.ofDigitChars 10 (significant n) 0 := by
    rw [split, Nat.ofDigitChars_append, Nat.ofDigitChars_replicate_zero]
  rw [Nat.ofDigitChars_toDigits (by decide) (by decide)] at number
  have lengths := congrArg List.length split
  rw [List.length_append, List.length_replicate] at lengths
  have exponent : ((Nat.toDigits 10 n).length : ℤ) + power - (significant n).length = k + power := by omega
  have number' : (n : ℚ) = 10 ^ k * Nat.ofDigitChars 10 (significant n) 0 := by exact_mod_cast number
  rw [exponent, number', zpow_add₀ (by norm_num), zpow_natCast]
  ring

theorem repr_pos {x : Double} (positive : 0 < x.val) : 0 < x.repr.digits := by
  by_contra least
  have low : x.repr.value ≤ 0 := by
    have whole : (x.repr.digits : ℚ) ≤ 0 := by exact_mod_cast not_lt.mp least
    exact mul_nonpos_of_nonpos_of_nonneg whole (by positivity)
  have reads := x.repr_read
  rw [Decimal.read, toDouble] at reads
  split at reads
  · have same := Option.some_inj.mp reads
    have below := nearest_nonpos low
    linarith
  · cases reads

/-- The text of a float is read as a decimal that rounds to it. -/
theorem readDecimal_float {x : Double} (sign : 0 ≤ x.val) :
    ∃ d, readDecimal (writeFloat x) = some d ∧ toDouble d.value = some x.val := by
  rw [writeFloat]
  by_cases zero : x.val = 0
  · rw [if_pos zero, zero]
    refine ⟨⟨0, -1⟩, by decide, ?_⟩
    rw [Decimal.value, Int.cast_zero, zero_mul]
    exact toDouble_of_isDouble isDouble_zero
  · rw [if_neg zero]
    have positive := repr_pos (lt_of_le_of_ne sign (Ne.symm zero))
    obtain ⟨d, reads, value⟩ := readDecimal_write (@significant_some x.repr.digits.natAbs (by omega))
      (significant_digits _) ((Nat.toDigits 10 x.repr.digits.natAbs).length + x.repr.power)
    refine ⟨d, reads, ?_⟩
    have same : ((x.repr.digits.natAbs : ℤ) : ℚ) = x.repr.digits := by
      rw [Int.natAbs_of_nonneg positive.le]
    rw [value, significant_value, ← Int.cast_natCast, same]
    exact x.repr_read

/-- The characters of a numeral. -/
def InNumeral (c : Char) : Prop := c.isDigit = true ∨ c = '.' ∨ c = 'e' ∨ c = '+' ∨ c = '-'

/-- A text that begins with a digit and is of the characters of a numeral, with a point or an exponent. -/
structure Numeral (text : List Char) : Prop where
  first : ∃ c rest, text = c :: rest ∧ c.isDigit = true
  inside : ∀ c ∈ text, InNumeral c
  marked : '.' ∈ text ∨ 'e' ∈ text

theorem padTwo_digits (n : ℕ) : ∀ c ∈ padTwo n, c.isDigit = true := by
  intro c member
  rw [padTwo] at member
  split at member
  · rcases List.mem_cons.mp member with rfl | later
    · rfl
    · exact toDigits_digits n c later
  · exact toDigits_digits n c member

theorem writeExponent_inside (e : ℤ) : ∀ c ∈ writeExponent e, InNumeral c := by
  intro c member
  rw [writeExponent, List.mem_cons, List.mem_cons] at member
  rcases member with rfl | rfl | digit
  · exact .inr (.inr (.inl rfl))
  · split
    · exact .inr (.inr (.inr (.inr rfl)))
    · exact .inr (.inr (.inr (.inl rfl)))
  · exact .inl (padTwo_digits _ c digit)

theorem writeDigits_numeral {digits : List Char} (some_ : digits ≠ []) (all : ∀ c ∈ digits, c.isDigit = true) (point : ℤ) :
    Numeral (writeDigits digits point) := by
  obtain ⟨d, more, rfl⟩ := List.exists_cons_of_ne_nil some_
  have zeros : ∀ n, ∀ c ∈ List.replicate n '0', InNumeral c := fun n c member => .inl (replicate_digits n c member)
  have inside : ∀ c ∈ d :: more, InNumeral c := fun c member => .inl (all c member)
  have dot : InNumeral '.' := .inr (.inl rfl)
  have first : d.isDigit = true := all d List.mem_cons_self
  unfold writeDigits
  split
  · have exponent := writeExponent_inside (point - 1)
    cases more with
    | nil =>
      refine ⟨⟨d, _, rfl, first⟩, ?_, .inr (by simp [writeExponent])⟩
      intro c member
      rcases List.mem_cons.mp member with rfl | later
      · exact .inl first
      · exact exponent c later
    | cons d' more =>
      refine ⟨⟨d, _, rfl, first⟩, ?_, .inl (by simp)⟩
      intro c member
      simp only [List.mem_cons, List.mem_append] at member
      rcases member with rfl | rfl | (rfl | later) | last
      · exact .inl first
      · exact dot
      · exact inside c (by simp)
      · exact inside c (by simp [later])
      · exact exponent c last
  split
  · refine ⟨⟨'0', _, rfl, rfl⟩, ?_, .inl (by simp)⟩
    intro c member
    simp only [List.mem_append, List.mem_cons, List.not_mem_nil, or_false] at member
    rcases member with rfl | rfl | zero | digit
    · exact .inl rfl
    · exact dot
    · exact zeros _ c zero
    · exact inside c (List.mem_cons.mpr digit)
  split
  · rename_i low high
    obtain ⟨n, size⟩ : ∃ n, point.toNat = n + 1 := ⟨point.toNat - 1, by omega⟩
    refine ⟨⟨d, _, by rw [size, List.take_succ_cons, List.cons_append], first⟩, ?_, .inl (by simp)⟩
    intro c member
    rcases List.mem_append.mp member with taken | rest
    · exact inside c (List.mem_of_mem_take taken)
    · rcases List.mem_cons.mp rest with rfl | dropped
      · exact dot
      · exact inside c (List.mem_of_mem_drop dropped)
  · refine ⟨⟨d, _, rfl, first⟩, ?_, .inl (by simp)⟩
    intro c member
    simp only [List.mem_append, List.mem_cons, List.not_mem_nil, or_false] at member
    rcases member with (digit | zero) | rfl | rfl
    · exact inside c (List.mem_cons.mpr digit)
    · exact zeros _ c zero
    · exact dot
    · exact .inl rfl

theorem writeFloat_numeral {x : Double} (sign : 0 ≤ x.val) : Numeral (writeFloat x) := by
  rw [writeFloat]
  by_cases zero : x.val = 0
  · rw [if_pos zero]
    exact ⟨⟨'0', ['.', '0'], rfl, rfl⟩, by simp [InNumeral], .inl (by simp)⟩
  · rw [if_neg zero]
    have positive := repr_pos (lt_of_le_of_ne sign (Ne.symm zero))
    exact writeDigits_numeral (@significant_some x.repr.digits.natAbs (by omega)) (significant_digits _) _

end Floats

end Numerals
