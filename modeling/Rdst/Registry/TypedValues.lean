import Rdst.Registry.TypedParams

namespace Rdst.Registry.TypedParams

open PyText Assoc Float64 Numerals SqlLexer
open Positional (Stored paramLiteral)

section Numbers

variable {tables : Tables} {text : Text}

theorem numeral_space {c : Char} (inside : InNumeral c) : isNumberSpace c = false := by
  have digit : c.isDigit = true → isNumberSpace c = false := by
    intro digit
    simp only [Char.isDigit, Bool.and_eq_true, decide_eq_true_eq] at digit
    have low : 48 ≤ c.toNat := by simpa [UInt32.le_iff_toNat_le] using digit.1
    have high : c.toNat ≤ 57 := by simpa [UInt32.le_iff_toNat_le] using digit.2
    simp only [isNumberSpace, isSpace, Bool.and_eq_false_iff, Bool.or_eq_false_iff, Bool.and_eq_false_iff, decide_eq_false_iff_not,
      beq_eq_false_iff_ne]
    left
    omega
  rcases inside with number | rfl | rfl | rfl | rfl
  · exact digit number
  · decide
  · decide
  · decide
  · decide

theorem numeral_ascii {c : Char} (inside : InNumeral c) : isAscii c = true := by
  rcases inside with number | rfl | rfl | rfl | rfl
  · exact isAlphanum_ascii (by simp [Char.isAlphanum, number])
  · decide
  · decide
  · decide
  · decide

theorem numeral_joined {c : Char} (inside : InNumeral c) : c ≠ '_' := by
  rintro rfl
  rcases inside with number | other
  · exact absurd number (by decide)
  · revert other
    decide

theorem dropWhile_none {drops : Char → Bool} (keeps : ∀ c ∈ text, drops c = false) : text.dropWhile drops = text := by
  cases text with
  | nil => rfl
  | cons c rest => rw [List.dropWhile_cons_of_neg (by simp [keeps c List.mem_cons_self])]

theorem stripNumber_numeral (inside : ∀ c ∈ text, InNumeral c) : stripNumber text = text := by
  have keeps : ∀ c ∈ text, isNumberSpace c = false := fun c member => numeral_space (inside c member)
  rw [stripNumber, dropWhile_none keeps, dropWhile_none fun c member => keeps c (List.mem_reverse.mp member),
    List.reverse_reverse]

theorem withoutUnderscores_none (joined : ∀ c ∈ text, c ≠ '_') {last : Option Char} (other : last ≠ some '_') :
    withoutUnderscores last text = some text := by
  induction text generalizing last with
  | nil => rw [withoutUnderscores, if_neg other]
  | cons c text ih =>
    have here := joined c List.mem_cons_self
    rw [withoutUnderscores, if_neg here, if_neg fun both => other both.1,
      ih (fun x member => joined x (List.mem_cons_of_mem c member)) fun same => here (Option.some_inj.mp same)]
    rfl

theorem splitSign_signed {c : Char} (first : c.isDigit = true) (negative : Bool) (rest : Text) :
    splitSign (signed negative (c :: rest)) = (negative, c :: rest) := by
  cases negative with
  | true => rfl
  | false =>
    have plus : c ≠ '+' := by
      rintro rfl
      cases first
    have minus : c ≠ '-' := by
      rintro rfl
      cases first
    simp [signed, splitSign, plus, minus]

theorem signed_inside {negative : Bool} (inside : ∀ c ∈ text, InNumeral c) : ∀ c ∈ signed negative text, InNumeral c := by
  intro c member
  cases negative with
  | false => exact inside c member
  | true =>
    rcases List.mem_cons.mp member with rfl | later
    · exact .inr (.inr (.inr (.inr rfl)))
    · exact inside c later

/-- What a finite float prints is read as it. -/
theorem parseFloat_str (tables : Tables) (negative : Bool) {x : Double} (sign : 0 ≤ x.val) :
    parseFloat tables (PyFloat.finite negative x).str = some (.finite negative x) := by
  have numeral := writeFloat_numeral sign
  obtain ⟨c, rest, shape, first⟩ := numeral.first
  obtain ⟨d, reads, value⟩ := readDecimal_float sign
  have inside : ∀ c ∈ signed negative (writeFloat x), InNumeral c := signed_inside numeral.inside
  have ascii : (signed negative (writeFloat x)).map (asciiDigit tables) = signed negative (writeFloat x) := by
    conv_rhs => rw [← List.map_id (signed negative (writeFloat x))]
    exact List.map_congr_left fun c member => if_pos (numeral_ascii (inside c member))
  have words : ∀ w : Text, w.head?.any Char.isDigit = false → (writeFloat x).map Char.toLower ≠ w := by
    rintro w head rfl
    have low : c.toLower = c := by
      have small : ¬ ('A'.val ≤ c.val ∧ c.val ≤ 'Z'.val) := by
        simp only [Char.isDigit, Bool.and_eq_true, decide_eq_true_eq] at first
        intro high
        exact absurd (UInt32.le_trans high.1 first.2) (by decide)
      exact dif_neg small
    rw [shape, List.map_cons, List.head?_cons, Option.any_some, low, first] at head
    cases head
  rw [PyFloat.str, parseFloat, ascii, stripNumber_numeral inside,
    withoutUnderscores_none (fun c member => numeral_joined (inside c member)) (by simp)]
  have parts : splitSign (signed negative (writeFloat x)) = (negative, writeFloat x) := by
    rw [shape]
    exact splitSign_signed first negative rest
  simp only [parts]
  rw [if_neg, if_neg (words _ (by decide)), reads, Option.map_some, Double.round_eq value]
  rintro (inf | infinity)
  · exact words _ (by decide) inf
  · exact words _ (by decide) infinity

theorem number_digits (digits : ∀ c ∈ text, c.isDigit = true) : number tables text = Nat.ofDigitChars 10 text 0 := by
  rw [number, Nat.ofDigitChars_eq_foldl]
  apply List.foldl_ext
  intro value c member
  rw [if_pos (numeral_ascii (.inl (digits c member)))]

theorem unsigned_digits (digits : ∀ c ∈ text, c.isDigit = true) (some_ : text ≠ []) :
    unsigned tables text = if text.length ≤ 4300 then some (Nat.ofDigitChars 10 text 0) else none := by
  have single : text.splitOn '_' = [text] := by
    apply List.splitOn_eq_singleton
    intro member
    exact numeral_joined (.inl (digits '_' member)) rfl
  have decimals : text.all (isDecimal tables) = true := by
    apply List.all_eq_true.mpr
    intro c member
    rw [isDecimal, if_pos (numeral_ascii (.inl (digits c member)))]
    exact digits c member
  have nonempty : text.isEmpty = false := by simpa using some_
  rw [unsigned, single]
  simp [decimals, nonempty, number_digits digits]

/-- What an integer prints is read as it, up to so many digits. -/
theorem parseInt_str (tables : Tables) (z : ℤ) :
    parseInt tables (intText z) = if (Nat.toDigits 10 z.natAbs).length ≤ 4300 then some z else none := by
  have digits := toDigits_digits z.natAbs
  have some_ : Nat.toDigits 10 z.natAbs ≠ [] := Nat.toDigits_ne_nil
  have inside : ∀ c ∈ intText z, InNumeral c := signed_inside fun c member => .inl (digits c member)
  have reads := @unsigned_digits tables _ digits some_
  rw [Nat.ofDigitChars_toDigits (by decide) (by decide)] at reads
  rw [parseInt, stripNumber_numeral inside, intText]
  by_cases negative : z < 0
  · rw [decide_eq_true negative]
    simp only [signed, if_true, reads]
    split
    · have back : -Int.ofNat z.natAbs = z := by
        rw [Int.ofNat_eq_natCast]
        omega
      rw [Option.map_some, back]
    · rfl
  · rw [decide_eq_false negative]
    obtain ⟨c, rest, shape⟩ := List.exists_cons_of_ne_nil some_
    rw [shape] at digits reads ⊢
    have first := digits c List.mem_cons_self
    have plus : c ≠ '+' := by
      rintro rfl
      cases first
    have minus : c ≠ '-' := by
      rintro rfl
      cases first
    have back : Int.ofNat z.natAbs = z := by
      rw [Int.ofNat_eq_natCast]
      omega
    simp only [signed, Bool.false_eq_true, if_false]
    split
    · rename_i same
      exact absurd (List.cons.inj same).1 plus
    · rename_i same
      exact absurd (List.cons.inj same).1 minus
    · rw [reads]
      split
      · rw [Option.map_some, back]
      · rfl

theorem mem_intercalate {c : Char} {separator : Text} {parts : List Text} (member : c ∈ separator.intercalate parts) :
    c ∈ separator ∨ ∃ part ∈ parts, c ∈ part := by
  obtain ⟨piece, there, inside⟩ := List.mem_flatten.mp member
  induction parts with
  | nil => cases there
  | cons part parts ih =>
    cases parts with
    | nil => exact .inr ⟨part, List.mem_cons_self, by rwa [List.mem_singleton.mp there] at inside⟩
    | cons next parts =>
      rw [List.intersperse_cons_cons] at there
      rcases List.mem_cons.mp there with rfl | later
      · exact .inr ⟨piece, List.mem_cons_self, inside⟩
      rcases List.mem_cons.mp later with rfl | last
      · exact .inl inside
      · rcases ih (List.mem_flatten.mpr ⟨piece, last, inside⟩) last with first | ⟨part', among, inside'⟩
        · exact .inl first
        · exact .inr ⟨part', List.mem_cons_of_mem part among, inside'⟩

theorem unsigned_decimals {c : Char} (member : c ∈ text) (reads : unsigned tables text ≠ none) :
    c = '_' ∨ isDecimal tables c = true := by
  rw [unsigned] at reads
  split at reads
  · rename_i groups
    have all := List.all_eq_true.mp groups.1
    have whole : ['_'].intercalate (text.splitOn '_') = text := List.intercalate_splitOn '_'
    rw [← whole] at member
    rcases mem_intercalate member with joined | ⟨group, there, inside⟩
    · exact .inl (List.mem_singleton.mp joined)
    · have decimals := all group there
      rw [Bool.and_eq_true] at decimals
      exact .inr (List.all_eq_true.mp decimals.2 c inside)
  · exact absurd rfl reads

/-- An integer has neither point nor exponent. -/
theorem parseInt_numeral (inside : ∀ c ∈ text, InNumeral c) (marked : '.' ∈ text ∨ 'e' ∈ text) : parseInt tables text = none := by
  rw [parseInt, stripNumber_numeral inside]
  have refuses : ∀ rest : Text, '.' ∈ rest ∨ 'e' ∈ rest → unsigned tables rest = none := by
    intro rest marked
    by_contra reads
    rcases marked with point | exponent
    · rcases unsigned_decimals point reads with joined | decimal
      · exact absurd joined (by decide)
      · exact absurd decimal (by simp [isDecimal, isAscii])
    · rcases unsigned_decimals exponent reads with joined | decimal
      · exact absurd joined (by decide)
      · exact absurd decimal (by simp [isDecimal, isAscii])
  split
  · rename_i rest
    rw [refuses rest (by simpa using marked)]
    rfl
  · rename_i rest
    rw [refuses rest (by simpa using marked)]
    rfl
  · rw [refuses _ marked]
    rfl

end Numbers

section Strings

/-- `value.replace("'", "''")` -/
def doubled (value : Text) : Text := value.flatMap fun c => if c = '\'' then ['\'', '\''] else [c]

/-- A backslash stands before a percent sign or an underscore only, with which it is read as it is written. -/
def Unescaped : Text → Prop
  | [] => True
  | c :: rest => (c = '\\' → rest.head? = some '%' ∨ rest.head? = some '_') ∧ Unescaped rest

variable {d : Dialect}

theorem readBody_plain {c : Char} (noQuote : c ≠ '\'') (noEscape : ¬ (c = '\\' ∧ d = .mysql)) (rest : Text) :
    readBody d (c :: rest) = (readBody d rest).map fun value => c :: value := by
  cases rest with
  | nil => exact if_neg noQuote
  | cons x rest => rw [readBody, if_neg noQuote, if_neg noEscape]

theorem readBody_escape (x : Char) (rest : Text) :
    readBody .mysql ('\\' :: x :: rest) = (readBody .mysql rest).map fun value => escape x ++ value := by
  rw [readBody, if_neg (by decide), if_pos ⟨rfl, rfl⟩]

theorem readBody_quotes (d : Dialect) (rest : Text) :
    readBody d ('\'' :: '\'' :: rest) = (readBody d rest).map fun value => '\'' :: value := by
  rw [readBody, if_pos rfl, if_pos rfl]

theorem readBody_ends (d : Dialect) {x : Char} (other : x ≠ '\'') (rest : Text) : readBody d ('\'' :: x :: rest) = none := by
  rw [readBody, if_pos rfl, if_neg other]

theorem doubled_quote (rest : Text) : doubled ('\'' :: rest) = '\'' :: '\'' :: doubled rest := rfl

theorem doubled_other {c : Char} (other : c ≠ '\'') (rest : Text) : doubled (c :: rest) = c :: doubled rest := by
  simp [doubled, other]

/-- With a backslash before a quote the string ends before its text does, or not at all. -/
theorem readBody_odd (d : Dialect) (value : Text) : readBody d ('\'' :: (doubled value ++ ['\''])) = none := by
  induction value with
  | nil => rw [doubled, List.flatMap_nil, List.nil_append, readBody_quotes]; rfl
  | cons c value ih =>
    by_cases quote : c = '\''
    · rw [quote, doubled_quote, List.cons_append, readBody_quotes, List.cons_append, ih]
      rfl
    · rw [doubled_other quote, List.cons_append, readBody_ends d quote]

theorem readBody_postgres (value : Text) : readBody .postgres (doubled value ++ ['\'']) = some value := by
  induction value with
  | nil => rfl
  | cons c value ih =>
    by_cases quote : c = '\''
    · rw [quote, doubled_quote, List.cons_append, List.cons_append, readBody_quotes, ih]
      rfl
    · rw [doubled_other quote, List.cons_append, readBody_plain quote (by simp), ih]
      rfl

theorem escape_kept {x : Char} (kept : x = '%' ∨ x = '_') : escape x = ['\\', x] := if_pos kept

theorem escape_single {x : Char} (other : ¬ (x = '%' ∨ x = '_')) : (escape x).length = 1 := by
  rw [escape, if_neg other]
  split
  · rfl
  split
  · rfl
  split
  · rfl
  split
  · rfl
  split
  · rfl
  split
  · rfl
  · rfl

/-- Reading makes no string longer. -/
theorem readBody_length (value : Text) : ∀ read ∈ readBody .mysql (doubled value ++ ['\'']), read.length ≤ value.length := by
  induction h : value.length using Nat.strong_induction_on generalizing value with
  | _ n ih =>
    intro read found
    cases value with
    | nil =>
      cases Option.some_inj.mp found
      exact Nat.zero_le _
    | cons c value =>
      rw [List.length_cons] at h
      by_cases quote : c = '\''
      · rw [quote, doubled_quote, List.cons_append, List.cons_append, readBody_quotes] at found
        obtain ⟨inner, inside, rfl⟩ := Option.map_eq_some_iff.mp found
        have shorter := ih value.length (by omega) value rfl inner inside
        rw [List.length_cons]
        omega
      · rw [doubled_other quote, List.cons_append] at found
        by_cases backslash : c = '\\'
        · subst backslash
          cases value with
          | nil => cases found
          | cons x value =>
            rw [List.length_cons] at h
            by_cases escaped : x = '\''
            · rw [escaped, doubled_quote, List.cons_append, readBody_escape, List.cons_append, readBody_odd] at found
              cases found
            · rw [doubled_other escaped, List.cons_append, readBody_escape] at found
              obtain ⟨inner, inside, rfl⟩ := Option.map_eq_some_iff.mp found
              have shorter := ih value.length (by omega) value rfl inner inside
              have two : (escape x).length ≤ 2 := by
                by_cases kept : x = '%' ∨ x = '_'
                · rw [escape_kept kept]
                  exact le_refl 2
                · rw [escape_single kept]
                  omega
              rw [List.length_append]
              omega
        · rw [readBody_plain quote fun both => backslash both.1] at found
          obtain ⟨inner, inside, rfl⟩ := Option.map_eq_some_iff.mp found
          have shorter := ih value.length (by omega) value rfl inner inside
          rw [List.length_cons]
          omega

/-- A string of MySQL is read as it was exactly where its backslashes stand before what they do not escape. -/
theorem readBody_mysql (value : Text) : readBody .mysql (doubled value ++ ['\'']) = some value ↔ Unescaped value := by
  induction h : value.length using Nat.strong_induction_on generalizing value with
  | _ n ih =>
    cases value with
    | nil => exact ⟨fun _ => trivial, fun _ => rfl⟩
    | cons c value =>
      rw [List.length_cons] at h
      have step : ∀ {read : Option Text}, (read.map fun value => c :: value) = some (c :: value) ↔ read = some value := by
        intro read
        cases read <;> simp
      by_cases quote : c = '\''
      · have other : c ≠ '\\' := by rw [quote]; decide
        have inner := ih value.length (by omega) value rfl
        rw [Unescaped, ← inner, quote, doubled_quote, List.cons_append, List.cons_append, readBody_quotes]
        rw [quote] at step other
        rw [step]
        exact ⟨fun same => ⟨fun absurd_ => absurd absurd_ other, same⟩, And.right⟩
      rw [doubled_other quote, List.cons_append]
      by_cases backslash : c = '\\'
      · subst backslash
        cases value with
        | nil => exact ⟨nofun, fun unescaped => by simp [Unescaped] at unescaped⟩
        | cons x value =>
          rw [List.length_cons] at h
          have inner := ih value.length (by omega) value rfl
          by_cases escaped : x = '\''
          · subst escaped
            rw [doubled_quote, List.cons_append, readBody_escape, List.cons_append, readBody_odd]
            exact ⟨nofun, fun unescaped => absurd (unescaped.1 rfl) (by simp)⟩
          rw [doubled_other escaped, List.cons_append, readBody_escape]
          by_cases kept : x = '%' ∨ x = '_'
          · have plain : x ≠ '\\' := by rcases kept with rfl | rfl <;> decide
            have tail : ∀ {read : Option Text}, (read.map fun value => escape x ++ value) = some ('\\' :: x :: value) ↔
                read = some value := by
              intro read
              cases read <;> simp [escape_kept kept]
            rw [tail, inner]
            simp [Unescaped, plain, kept]
          · constructor
            · intro same
              obtain ⟨read, found, whole⟩ := Option.map_eq_some_iff.mp same
              have shorter := readBody_length value read found
              have lengths := congrArg List.length whole
              rw [List.length_append, escape_single kept] at lengths
              simp only [List.length_cons] at lengths
              omega
            · intro unescaped
              exact absurd (unescaped.1 rfl) (by simpa using kept)
      · have inner := ih value.length (by omega) value rfl
        rw [readBody_plain quote fun both => backslash both.1, step, inner, Unescaped]
        exact ⟨fun same => ⟨fun absurd_ => absurd absurd_ backslash, same⟩, And.right⟩

theorem readString_quoted (d : Dialect) (value : Text) :
    readString d (paramLiteral ⟨true, value⟩) = some value ↔ (d = .mysql → Unescaped value) := by
  have shape : readString d (paramLiteral ⟨true, value⟩) = readBody d (doubled value ++ ['\'']) := rfl
  rw [shape]
  cases d with
  | postgres => exact ⟨fun _ => nofun, fun _ => readBody_postgres value⟩
  | mysql => exact ⟨fun same _ => (readBody_mysql value).mp same, fun unescaped => (readBody_mysql value).mpr (unescaped rfl)⟩

end Strings

section Kept

variable {tables : Tables} {d : Dialect} {value : Text}

/-- The text of an integer of at most 4300 digits, or of a finite float. -/
def Printed (value : Text) : Prop :=
  (∃ z : ℤ, (Nat.toDigits 10 z.natAbs).length ≤ 4300 ∧ value = intText z) ∨
    ∃ negative, ∃ x : Double, 0 ≤ x.val ∧ value = (PyFloat.finite negative x).str

/-- The text is that of a number, or `int` and `float` read none in it and the engine no escape. -/
def Kept (tables : Tables) (d : Dialect) (value : Text) : Prop :=
  Printed value ∨ (parseInt tables value = none ∧ parseFloat tables value = none ∧ (d = .mysql → Unescaped value))

theorem isNumber_signed {c : Char} {rest : Text} (negative : Bool) (first : c.isDigit = true)
    (reads : (readDecimal (c :: rest)).isSome = true) : IsNumber (signed negative (c :: rest)) := by
  rw [IsNumber, splitSign_signed first]
  refine ⟨reads, ?_⟩
  cases negative with
  | true => exact fun plus => absurd (Option.some_inj.mp plus) (by decide)
  | false =>
    intro plus
    rw [Option.some_inj.mp plus] at first
    cases first

theorem isNumber_int (z : ℤ) : IsNumber (intText z) := by
  have digits := toDigits_digits z.natAbs
  have some_ : Nat.toDigits 10 z.natAbs ≠ [] := Nat.toDigits_ne_nil
  have reads := @readDecimal_whole _ [] some_ digits nofun
  rw [List.append_nil] at reads
  rw [intText]
  obtain ⟨c, rest, shape⟩ := List.exists_cons_of_ne_nil some_
  rw [shape] at digits reads ⊢
  exact isNumber_signed _ (digits c List.mem_cons_self) (by rw [reads]; rfl)

theorem isNumber_float (negative : Bool) {x : Double} (sign : 0 ≤ x.val) : IsNumber (PyFloat.finite negative x).str := by
  obtain ⟨c, rest, shape, first⟩ := (writeFloat_numeral sign).first
  obtain ⟨d, reads, -⟩ := readDecimal_float sign
  rw [PyFloat.str, shape]
  rw [shape] at reads
  exact isNumber_signed negative first (by rw [reads]; rfl)

theorem numeral_unquoted {text : Text} (inside : ∀ c ∈ text, InNumeral c) : readString d text = none := by
  cases text with
  | nil => rfl
  | cons c rest =>
    have other : c ≠ '\'' := by
      rintro rfl
      rcases inside '\'' List.mem_cons_self with number | rest
      · exact absurd number (by decide)
      · revert rest
        decide
    rw [readString]
    rintro more ⟨⟩
    exact other rfl

theorem intText_inside (z : ℤ) : ∀ c ∈ intText z, InNumeral c :=
  signed_inside fun c member => .inl (toDigits_digits _ c member)

/-- What is rendered for a value. -/
def rendered (tables : Tables) (value source : Text) : Text := paramLiteral (typedParameter tables (.text value) source).stored

theorem rendered_int {z : ℤ} (reads : parseInt tables value = some z) (source : Text) : rendered tables value source = intText z := by
  simp only [rendered, typedParameter, cast, reads, Param.stored, paramLiteral]
  rfl

theorem rendered_float {x : PyFloat} (whole : parseInt tables value = none) (reads : parseFloat tables value = some x) (source : Text) :
    rendered tables value source = x.str := by
  simp only [rendered, typedParameter, cast, whole, reads, Param.stored, paramLiteral]
  rfl

theorem rendered_text (whole : parseInt tables value = none) (reads : parseFloat tables value = none) (source : Text) :
    rendered tables value source = paramLiteral ⟨true, value⟩ := by
  simp only [rendered, typedParameter, cast, whole, reads, Param.stored]
  rfl

/-- A size that is read is not negative. -/
theorem parseFloat_sign {negative : Bool} {x : Double} (reads : parseFloat tables value = some (.finite negative x)) : 0 ≤ x.val := by
  rw [parseFloat] at reads
  split at reads
  · cases reads
  · rename_i body _
    simp only at reads
    split at reads
    · cases reads
    split at reads
    · cases reads
    obtain ⟨dec, found, same⟩ := Option.map_eq_some_iff.mp reads
    split at same
    · rename_i size rounds
      cases same
      exact round_nonneg (readDecimal_nonneg found) rounds
    · cases same

theorem denotes_number {literal : Text} (inside : ∀ c ∈ literal, InNumeral c) :
    Denotes d literal value ↔ IsNumber value ∧ literal = value := by
  rw [Denotes, numeral_unquoted inside]
  exact or_iff_right nofun

theorem doubled_length (value : Text) : value.length ≤ (doubled value).length := by
  induction value with
  | nil => exact le_refl 0
  | cons c value ih =>
    by_cases quote : c = '\''
    · rw [quote, doubled_quote]
      simp only [List.length_cons]
      omega
    · rw [doubled_other quote]
      simp only [List.length_cons]
      omega

theorem denotes_text : Denotes d (paramLiteral ⟨true, value⟩) value ↔ (d = .mysql → Unescaped value) := by
  rw [Denotes, readString_quoted]
  apply or_iff_left
  rintro ⟨-, same⟩
  have shape : paramLiteral ⟨true, value⟩ = '\'' :: (doubled value ++ ['\'']) := rfl
  have lengths := congrArg List.length (shape.symm.trans same)
  have longer := doubled_length value
  simp only [List.length_cons, List.length_append, List.length_nil] at lengths
  omega

/-- What `int` reads is kept where it prints so. -/
theorem kept_int {z : ℤ} (reads : parseInt tables value = some z) : IsNumber value ∧ intText z = value ↔ Kept tables d value := by
  constructor
  · rintro ⟨-, rfl⟩
    rw [parseInt_str] at reads
    split at reads
    · rename_i short
      exact .inl (.inl ⟨z, short, rfl⟩)
    · cases reads
  · rintro ((⟨z', short, rfl⟩ | ⟨negative, x, sign, rfl⟩) | ⟨none_, -⟩)
    · rw [parseInt_str, if_pos short] at reads
      rw [Option.some_inj.mp reads]
      exact ⟨isNumber_int z, rfl⟩
    · have numeral := writeFloat_numeral sign
      have marked : '.' ∈ (PyFloat.finite negative x).str ∨ 'e' ∈ (PyFloat.finite negative x).str := by
        rw [PyFloat.str]
        cases negative with
        | false => exact numeral.marked
        | true => exact numeral.marked.imp (List.mem_cons_of_mem _) (List.mem_cons_of_mem _)
      have none_ : parseInt tables (PyFloat.finite negative x).str = none :=
        parseInt_numeral (signed_inside numeral.inside) marked
      rw [none_] at reads
      cases reads
    · rw [none_] at reads
      cases reads

/-- So is what `float` reads. -/
theorem kept_float {x : PyFloat} (whole : parseInt tables value = none) (reads : parseFloat tables value = some x) :
    Denotes d x.str value ↔ Kept tables d value := by
  have refused : Kept tables d value → ∃ negative, ∃ y : Double, 0 ≤ y.val ∧ value = (PyFloat.finite negative y).str := by
    rintro ((⟨z, short, rfl⟩ | float) | ⟨-, none_, -⟩)
    · rw [parseInt_str, if_pos short] at whole
      cases whole
    · exact float
    · rw [none_] at reads
      cases reads
  constructor
  · intro denotes
    cases x with
    | nan =>
      rcases denotes with text | ⟨⟨number, -⟩, same⟩
      · cases text
      · rw [← same] at number
        exact absurd number (by decide)
    | inf negative =>
      rcases denotes with text | ⟨⟨number, -⟩, same⟩
      · cases negative <;> cases text
      · rw [← same] at number
        cases negative <;> exact absurd number (by decide)
    | finite negative size =>
      have sign := parseFloat_sign reads
      rw [PyFloat.str, denotes_number (signed_inside (writeFloat_numeral sign).inside)] at denotes
      exact .inl (.inr ⟨negative, size, sign, denotes.2.symm⟩)
  · intro kept
    obtain ⟨negative, y, sign, rfl⟩ := refused kept
    rw [parseFloat_str tables negative sign] at reads
    rw [← Option.some_inj.mp reads]
    exact .inr ⟨isNumber_float negative sign, rfl⟩

/-- The literal for a value denotes it exactly where the value is kept. -/
theorem rendered_iff (source : Text) : Denotes d (rendered tables value source) value ↔ Kept tables d value := by
  cases whole : parseInt tables value with
  | some z =>
    rw [rendered_int whole, denotes_number (intText_inside z)]
    exact kept_int whole
  | none =>
    cases reads : parseFloat tables value with
    | some x =>
      rw [rendered_float whole reads]
      exact kept_float whole reads
    | none =>
      rw [rendered_text whole reads, denotes_text]
      constructor
      · exact fun unescaped => .inr ⟨whole, reads, unescaped⟩
      · rintro ((⟨z, short, rfl⟩ | ⟨negative, x, sign, rfl⟩) | ⟨-, -, unescaped⟩)
        · rw [parseInt_str, if_pos short] at whole
          cases whole
        · rw [parseFloat_str tables negative sign] at reads
          cases reads
        · exact unescaped

end Kept

section Claims

/-- For every entry, whatever its parameters were, the literal in the place of a parameter that was given as a string denotes
    that string, or the number that it prints, exactly where the string is kept. -/
theorem typed_literal_iff (tables : Tables) (d : Dialect) (now target source : Text) (entry after : Entry)
    (parameters : List (Text × ParamValue)) (values : Dict Text ParamValue) (key value : Text)
    (canonical : canonicalValues tables parameters = .ok values)
    (updated : updateParameterHistory tables now entry parameters target source = .ok after)
    (given : values.lookup key = some (.text value)) :
    (∃ literal, after.literal key = some literal ∧ Denotes d literal value) ↔ Kept tables d value := by
  have stored : after.literal key = some (rendered tables value source) := by
    rw [updateParameterHistory, canonical] at updated
    cases updated
    rw [Entry.literal, mapItems_lookup, given]
    rfl
  rw [stored, ← rendered_iff source]
  constructor
  · rintro ⟨literal, ⟨⟩, denotes⟩
    exact denotes
  · exact fun denotes => ⟨_, rfl, denotes⟩

def zipCode : Text := "00042".toList

def noParameters : Entry := ⟨∅, ∅, [], []⟩

theorem typed_literal_zip : ∃ after,
    updateParameterHistory asciiTables [] noParameters [("$1".toList, .text zipCode)] [] "user".toList = .ok after ∧
      ((∃ literal, after.literal "p1".toList = some literal ∧ Denotes .postgres literal zipCode) ↔
        Kept asciiTables .postgres zipCode) :=
  ⟨_, rfl, typed_literal_iff asciiTables .postgres [] [] "user".toList noParameters _ [("$1".toList, .text zipCode)] _
    "p1".toList zipCode rfl rfl rfl⟩

/-- The zeros at the front of a zip code are lost. -/
theorem leading_zeros_lost : ∃ after,
    updateParameterHistory asciiTables [] noParameters [("$1".toList, .text zipCode)] [] "user".toList = .ok after ∧
      after.literal "p1".toList = some "42".toList ∧ ¬ Denotes .postgres "42".toList zipCode := by
  refine ⟨_, rfl, rfl, ?_⟩
  rintro (text | ⟨-, same⟩)
  · cases text
  · cases same

end Claims

end Rdst.Registry.TypedParams
