import Rdst.Lib.SqlPlaces

/-! The literals and the slots of a statement as tokens of their own. -/

namespace SqlLexer

variable {d : Dialect}

/-- The text closes none of the quotes around it. -/
def encloses (mark : Char) (escapes : Bool) : List Char → Bool
  | [] => true
  | c :: rest =>
    if c = mark then
      match rest with
      | c' :: more => c' == mark && encloses mark escapes more
      | [] => false
    else if c = '\\' ∧ escapes = true then
      match rest with
      | _ :: more => encloses mark escapes more
      | [] => false
    else encloses mark escapes rest

/-- The database reads a backslash in a quoted text as the begin of an escape. -/
def Dialect.escapes (d : Dialect) : Bool := d = .mysql

/-- The tokens of one literal: a number, one of the words or one quoted text. -/
inductive Literal (words : List (List Char)) : List Token → Prop
  | word {w : List Char} (listed : w ∈ words) : Literal words [.word w]
  | number {sign : List Token} {whole : List Char} {decimals : List Token} (signed : sign = [] ∨ sign = [.symbol '-'])
      (digits : whole ≠ [] ∧ ∀ c ∈ whole, c.isDigit = true)
      (rest : decimals = [] ∨ ∃ more, (more ≠ [] ∧ ∀ c ∈ more, c.isDigit = true) ∧ decimals = [.symbol '.', .word more]) :
      Literal words (sign ++ .word whole :: decimals)
  | text (body : List Char) : Literal words [.quoted '\'' body]

theorem encloses_other {mark c : Char} {escapes : Bool} (other : c ≠ mark) (plain : ¬ (c = '\\' ∧ escapes = true)) (rest : List Char) :
    encloses mark escapes (c :: rest) = encloses mark escapes rest := by
  rw [encloses.eq_def]
  simp only [if_neg other, if_neg plain]

section Reading

theorem Reads.append {first second : List Char} {tokens tokens' : List Token} (reads : Reads d first tokens)
    (reads' : Reads d second tokens')
    (begins : ∀ front executable, fresh d (scan d ⟨front, .code [], executable⟩ first) second = true) :
    Reads d (first ++ second) (tokens ++ tokens') := by
  refine ⟨by simp [reads.1], fun front executable => ?_⟩
  obtain ⟨c, rest, rfl⟩ := List.exists_cons_of_ne_nil reads'.1
  rw [scan_append, fresh_cons (begins front executable), reads.2 front executable, reads'.2, List.append_assoc]

theorem reads_word {w : List Char} (some_ : w ≠ []) (inside : ∀ c ∈ w, InWord c) : Reads d w [.word w] := by
  refine ⟨some_, fun front executable => ?_⟩
  rw [scan_run inside]
  simp [State.closed, finish, State.closeRun, State.emit, some_]

/-- No digit begins a name. -/
theorem digit_startsName {c : Char} (digit : c.isDigit = true) : startsName c = false := by
  have least : 48 ≤ c.toNat ∧ c.toNat ≤ 57 := by
    simp only [Char.isDigit, Bool.and_eq_true, decide_eq_true_eq] at digit
    exact ⟨UInt32.le_iff_toNat_le.mp digit.1, UInt32.le_iff_toNat_le.mp digit.2⟩
  by_contra letter
  simp only [startsName, Letters.isAlpha_eq, Letters.isUpper_eq, Letters.isLower_eq, Bool.not_eq_false, Bool.or_eq_true, Bool.and_eq_true, beq_iff_eq,
    decide_eq_true_eq] at letter
  rcases letter with ((upper | lower) | rfl) | high
  · have first : 65 ≤ c.toNat := UInt32.le_iff_toNat_le.mp upper.1
    omega
  · have first : 97 ≤ c.toNat := UInt32.le_iff_toNat_le.mp lower.1
    omega
  · exact absurd least (by decide)
  · omega

theorem digit_inWord {c : Char} (digit : c.isDigit = true) : InWord c := by
  refine ⟨by simp [inName, digit], ?_⟩
  rintro rfl
  exact absurd digit (by decide)

theorem reads_symbol {c : Char} (listed : c ∈ ['.', ':', '@', '?', '-']) : Reads d [c] [.symbol c] := by
  refine ⟨by simp, fun front executable => ?_⟩
  simp only [List.mem_cons, List.not_mem_nil, or_false] at listed
  rcases listed with rfl | rfl | rfl | rfl | rfl
  all_goals simp [scan, feed, feedCode, inName, startsName, State.closeRun, State.enter, State.emit, State.closed, finish, isBlank]

/-- A word does not go on with one of these, nor one of these with a word. -/
theorem symbol_fresh {c : Char} (listed : c ∈ ['.', ':', '@', '?', '-']) {w : List Char} (inside : ∀ c ∈ w.head?, InWord c)
    (front : List Token) (executable : Bool) : fresh d (scan d ⟨front, .code [], executable⟩ [c]) w = true := by
  cases w with
  | nil => rfl
  | cons x rest =>
    obtain ⟨named, dollar⟩ := inside x rfl
    have dash : x ≠ '-' := by
      rintro rfl
      exact absurd named (by decide)
    simp only [List.mem_cons, List.not_mem_nil, or_false] at listed
    rcases listed with rfl | rfl | rfl | rfl | rfl
    all_goals simp [scan, feed, feedCode, inName, startsName, State.closeRun, State.enter, State.emit, State.closed, finish, isBlank,
      fresh]
    exact .inl dash

theorem reads_digits {digits : List Char} (some_ : digits ≠ []) (all : ∀ c ∈ digits, c.isDigit = true) :
    Reads d digits [.word digits] := reads_word some_ fun c member => digit_inWord (all c member)

/-- A number with a fraction is three tokens. -/
theorem reads_decimal {whole more : List Char} (digits : whole ≠ [] ∧ ∀ c ∈ whole, c.isDigit = true)
    (digits' : more ≠ [] ∧ ∀ c ∈ more, c.isDigit = true) :
    Reads d (whole ++ '.' :: more) [.word whole, .symbol '.', .word more] := by
  have inside : ∀ digits : List Char, (∀ c ∈ digits, c.isDigit = true) → ∀ c ∈ digits, InWord c :=
    fun digits all c member => digit_inWord (all c member)
  have point : Reads d ('.' :: more) [.symbol '.', .word more] :=
    (reads_symbol (by simp)).append (reads_digits digits'.1 digits'.2)
      (symbol_fresh (by simp) fun c head => inside more digits'.2 c (List.mem_of_mem_head? head))
  apply (reads_digits digits.1 digits.2).append point
  intro front executable
  rw [scan_run (inside whole digits.2)]
  simp [fresh, feed, feedCode, inName, startsName, State.closeRun, State.enter, State.emit, State.closed, finish, isBlank, digits.1]

theorem reads_number {words : List (List Char)} {sign whole decimals : List Char} (signed : sign = [] ∨ sign = ['-'])
    (digits : whole ≠ [] ∧ ∀ c ∈ whole, c.isDigit = true)
    (fraction : decimals = [] ∨ ∃ more, (more ≠ [] ∧ ∀ c ∈ more, c.isDigit = true) ∧ decimals = '.' :: more) :
    ∃ tokens, Literal words tokens ∧ Reads d (sign ++ (whole ++ decimals)) tokens := by
  obtain ⟨tokens, shape, reads⟩ : ∃ tokens, (tokens = [] ∨ ∃ more, (more ≠ [] ∧ ∀ c ∈ more, c.isDigit = true) ∧
      tokens = [.symbol '.', .word more]) ∧ Reads d (whole ++ decimals) (.word whole :: tokens) := by
    rcases fraction with rfl | ⟨more, digits', rfl⟩
    · exact ⟨[], .inl rfl, by rw [List.append_nil]; exact reads_digits digits.1 digits.2⟩
    · exact ⟨_, .inr ⟨more, digits', rfl⟩, reads_decimal digits digits'⟩
  rcases signed with rfl | rfl
  · exact ⟨_, @Literal.number words [] whole tokens (.inl rfl) digits shape, reads⟩
  · refine ⟨_, @Literal.number words [.symbol '-'] whole tokens (.inr rfl) digits shape, ?_⟩
    apply (reads_symbol (by simp)).append reads
    apply symbol_fresh (by simp)
    intro c head
    rw [List.head?_append_of_ne_nil _ digits.1] at head
    exact digit_inWord (digits.2 c (List.mem_of_mem_head? head))

theorem scan_encloses {mark : Char} {escapes : Bool} {body : List Char} (closed : encloses mark escapes body = true)
    (tokens : List Token) (read : List Char) (executable : Bool) :
    scan d ⟨tokens, .quoted mark escapes read, executable⟩ body =
      ⟨tokens, .quoted mark escapes (body.reverse ++ read), executable⟩ := by
  fun_induction encloses mark escapes body generalizing read with
  | case1 => rfl
  | case2 c' more ih =>
    rw [Bool.and_eq_true, beq_iff_eq] at closed
    obtain ⟨rfl, others⟩ := closed
    have two : feed d (feed d ⟨tokens, .quoted c' escapes read, executable⟩ c') c' =
        ⟨tokens, .quoted c' escapes (c' :: c' :: read), executable⟩ := by simp [feed, State.enter]
    rw [scan_cons, scan_cons, two, ih others]
    simp
  | case3 => cases closed
  | case4 c other escape c' more ih =>
    obtain ⟨rfl, rfl⟩ := escape
    have two : feed d (feed d ⟨tokens, .quoted mark true read, executable⟩ '\\') c' =
        ⟨tokens, .quoted mark true (c' :: '\\' :: read), executable⟩ := by simp [feed, State.enter, other]
    rw [scan_cons, scan_cons, two, ih closed]
    simp
  | case5 => cases closed
  | case6 c rest other plain ih =>
    have one : feed d ⟨tokens, .quoted mark escapes read, executable⟩ c =
        ⟨tokens, .quoted mark escapes (c :: read), executable⟩ := by simp [feed, State.enter, other, plain]
    rw [scan_cons, one, ih closed]
    simp

theorem reads_text {body : List Char} (closed : encloses '\'' d.escapes body = true) :
    Reads d ('\'' :: (body ++ ['\''])) [.quoted '\'' body] := by
  refine ⟨by simp, fun front executable => ?_⟩
  have opens : feed d ⟨front, .code [], executable⟩ '\'' = ⟨front, .quoted '\'' d.escapes [], executable⟩ := by
    simp [feed, feedCode, inName, startsName, State.closeRun, State.enter, Dialect.escapes]
  rw [scan_cons, opens, scan_append, scan_encloses closed]
  simp [scan, feed, State.enter, State.closed, finish]

/-- A dollar and a number: PostgreSQL reads two tokens, MySQL a name. -/
theorem reads_numbered {digits : List Char} (some_ : digits ≠ []) (all : ∀ c ∈ digits, c.isDigit = true) :
    Reads d ('$' :: digits) (match d with
      | .postgres => [.symbol '$', .word digits]
      | .mysql => [.word ('$' :: digits)]) := by
  refine ⟨by simp, fun front executable => ?_⟩
  have inside : ∀ c ∈ digits, InWord c := fun c member => digit_inWord (all c member)
  cases d with
  | mysql =>
    have begins : feed .mysql ⟨front, .code [], executable⟩ '$' = ⟨front, .code ['$'], executable⟩ := by
      simp [feed, feedCode, inName, State.enter]
    rw [scan_cons, begins, scan_run inside]
    simp [State.closed, finish, State.closeRun, State.emit]
  | postgres =>
    obtain ⟨x, more, rfl⟩ := List.exists_cons_of_ne_nil some_
    have digit := all x List.mem_cons_self
    have letter : startsName x = false := digit_startsName digit
    have dollar : x ≠ '$' := (inside x List.mem_cons_self).2
    have begins : feed .postgres (feed .postgres ⟨front, .code [], executable⟩ '$') x =
        ⟨front ++ [.symbol '$'], .code [x], executable⟩ := by
      have opens : feed .postgres ⟨front, .code [], executable⟩ '$' = ⟨front, .tag [], executable⟩ := by
        simp [feed, feedCode, inName, startsName, State.enter, State.closeRun]
      rw [opens]
      simp [feed, feedCode, inName, State.enter, State.emit, digit, letter, dollar]
    rw [scan_cons, scan_cons, begins, scan_run fun c member => inside c (List.mem_cons_of_mem x member)]
    simp [State.closed, finish, State.closeRun, State.emit]

end Reading

end SqlLexer
