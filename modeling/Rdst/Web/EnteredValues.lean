import Rdst.Web.CapturedValues
import Rdst.Web.FilledScan

namespace Rdst.Web.SqlParameters

open Regex PyText Assoc
open SqlLexer (Dialect Token Literal Reads doubled encloses lex weft written apart)

variable (tables : Tables)

section Property

/-- What the dialog has for a slot. -/
def enteredFor (values : Dict (List Char) (List Char)) (s : PlaceholderMatch × Nat) : List Char :=
  (property some values (valueKey s)).getD []

/-- What is written in the place of a slot. -/
def literalFor (values : Dict (List Char) (List Char)) (s : PlaceholderMatch × Nat) : List Char :=
  formatValue tables (enteredFor values s)

/-- The token with which a slot begins that the database itself reads as one. -/
def slotMark : Dialect → Token
  | .postgres => .symbol '$'
  | .mysql => .symbol '?'

/-- The filled text reads as the original with one literal in the place of each slot, and no slot is left in it. -/
def SingleLiterals (d : Dialect) (sql : List Char) (values : Dict (List Char) (List Char)) : Prop :=
  let result := substituteParameters tables sql (detectParameters sql) values
  ∃ threads : List (Token ⊕ (PlaceholderMatch × Nat)), threads.filterMap Sum.getRight? = slots sql ∧
    lex d sql = threads.flatMap (Sum.elim (fun token => [token]) fun s => lex d s.1.token) ∧
    (∃ literal : PlaceholderMatch × Nat → List Token, (∀ s ∈ slots sql, Literal keywords (literal s)) ∧
      lex d result = threads.flatMap (Sum.elim (fun token => [token]) literal)) ∧
    slotMark d ∉ lex d result ∧ scanPlaceholders result = []

end Property

section Values

/-- The text between the quotes that are written around a value. -/
def quotedBody (value : List Char) : List Char :=
  let trimmed := Web.trim value
  if 2 ≤ units trimmed ∧ trimmed.head? = some '\'' ∧ trimmed.getLast? = some '\'' then trimmed.tail.dropLast
  else if 2 ≤ units trimmed ∧ trimmed.head? = some '"' ∧ trimmed.getLast? = some '"' then
    doubled '\'' (slice trimmed 1 (units trimmed - 1))
  else doubled '\'' trimmed

/-- The value is a number, one of the words, or a text that ends none of the quotes around it. -/
def Single (d : Dialect) (value : List Char) : Prop :=
  testWhole bareNumber (Web.trim value) = true ∨ upper tables (Web.trim value) ∈ keywords ∨
    (encloses '\'' false (quotedBody value) = true ∧ encloses '\'' d.escapes (quotedBody value) = true)

variable {text : List Char}

/-- What one or more digits take. -/
theorem moves_digits {c d : Cursor Char} (moves : Moves (plus (.char Char.isDigit)) c d) :
    ∃ digits, c.rest = digits ++ d.rest ∧ digits ≠ [] ∧ ∀ x ∈ digits, x.isDigit = true := by
  obtain ⟨e, ⟨x, rest, here, digit, rfl⟩, more⟩ := moves
  obtain ⟨digits, split, all, -⟩ := moves_chars.mp more
  change rest = digits ++ d.rest at split
  refine ⟨x :: digits, by rw [here, split]; rfl, by simp, ?_⟩
  intro y member
  rcases List.mem_cons.mp member with rfl | later
  · exact digit
  · exact all y later

theorem bareNumber_shape (number : testWhole bareNumber text = true) : ∃ sign whole decimals, text = sign ++ (whole ++ decimals) ∧
    (sign = [] ∨ sign = ['-']) ∧ (whole ≠ [] ∧ ∀ c ∈ whole, c.isDigit = true) ∧
      (decimals = [] ∨ ∃ more, (more ≠ [] ∧ ∀ c ∈ more, c.isDigit = true) ∧ decimals = '.' :: more) := by
  obtain ⟨d, success, ends⟩ := List.any_eq_true.mp number
  obtain ⟨e, sign, f, whole, decimals⟩ : ∃ e, Moves (optional (.char (· == '-'))) (start text) e ∧ ∃ f,
      Moves (.alt (.char (· == '0')) (.seq (.char fun c => '1' ≤ c && c ≤ '9') (.star (.char Char.isDigit)))) e f ∧ ∃ g,
        Moves (optional (.seq (.char (· == '.')) (plus (.char Char.isDigit)))) f g ∧ d = g := mem_successes.mp success
  obtain ⟨g, decimals, rfl⟩ := decimals
  have signs : ∃ sign, text = sign ++ e.rest ∧ (sign = [] ∨ sign = ['-']) := by
    rcases sign with ⟨c, rest, here, dash, rfl⟩ | same
    · refine ⟨['-'], ?_, .inr rfl⟩
      rw [← beq_iff_eq.mp dash]
      exact here
    · have start_ : e = start text := same
      exact ⟨[], by rw [start_]; rfl, .inl rfl⟩
  have wholes : ∃ whole, e.rest = whole ++ f.rest ∧ whole ≠ [] ∧ ∀ c ∈ whole, c.isDigit = true := by
    rcases whole with ⟨c, rest, here, zero, rfl⟩ | ⟨e', ⟨c, rest, here, first, rfl⟩, more⟩
    · refine ⟨[c], here, by simp, ?_⟩
      intro x member
      rw [List.mem_singleton.mp member, beq_iff_eq.mp zero]
      rfl
    · obtain ⟨digits, split, all, -⟩ := moves_chars.mp more
      change rest = digits ++ f.rest at split
      have digit : c.isDigit = true := by
        simp only [Bool.and_eq_true, decide_eq_true_eq] at first
        simp only [Char.isDigit, Bool.and_eq_true, decide_eq_true_eq]
        exact ⟨UInt32.le_trans (by decide : '0'.val ≤ '1'.val) first.1, first.2⟩
      refine ⟨c :: digits, by rw [here, split]; rfl, by simp, ?_⟩
      intro x member
      rcases List.mem_cons.mp member with rfl | later
      · exact digit
      · exact all x later
  have last : d.rest = [] := List.isEmpty_iff.mp ends
  have fractions : f.rest = [] ∨ ∃ more, (more ≠ [] ∧ ∀ c ∈ more, c.isDigit = true) ∧ f.rest = '.' :: more := by
    rcases decimals with ⟨e', ⟨c, rest, here, point, rfl⟩, digits⟩ | same
    · obtain ⟨more, split, some_, all⟩ := moves_digits digits
      rw [last, List.append_nil] at split
      change rest = more at split
      exact .inr ⟨more, ⟨some_, all⟩, by rw [here, split, beq_iff_eq.mp point]⟩
    · have stays : d = f := same
      exact .inl (stays ▸ last)
  obtain ⟨sign, first, signed⟩ := signs
  obtain ⟨whole, second, digits⟩ := wholes
  exact ⟨sign, whole, f.rest, by rw [first, second], signed, digits, fractions⟩

variable {tables} {d : Dialect} {value : List Char}

/-- What is written for a value is a number, one of the words, or a text between quotes. -/
theorem formatValue_shape (single : Single tables d value) :
    (testWhole bareNumber (Web.trim value) = true ∧ formatValue tables value = Web.trim value) ∨
      (upper tables (Web.trim value) ∈ keywords ∧ formatValue tables value = upper tables (Web.trim value)) ∨
        ((encloses '\'' false (quotedBody value) = true ∧ encloses '\'' d.escapes (quotedBody value) = true) ∧
          formatValue tables value = '\'' :: (quotedBody value ++ ['\''])) := by
  have added : ∀ text, quoteAsText text = '\'' :: (doubled '\'' text ++ ['\'']) := fun text => rfl
  rw [Single] at single
  rw [formatValue]
  split
  · rename_i number
    exact .inl ⟨number, rfl⟩
  rename_i noNumber
  split
  · rename_i word
    exact .inr (.inl ⟨word, rfl⟩)
  rename_i noWord
  refine .inr (.inr ⟨(single.resolve_left noNumber).resolve_left noWord, ?_⟩)
  rw [quotedBody]
  split
  · rename_i quoted
    obtain ⟨long, first, last⟩ := quoted
    generalize Web.trim value = trimmed at long first last
    cases trimmed with
    | nil => cases first
    | cons c rest =>
      have quote : c = '\'' := by simpa using first
      cases shape : rest.getLast? with
      | none =>
        rw [List.getLast?_eq_none_iff.mp shape, quote] at long
        exact absurd long (by decide)
      | some y =>
        rw [List.getLast?_cons, shape] at last
        have same : y = '\'' := by simpa using last
        have some_ : rest ≠ [] := by
          rintro rfl
          cases shape
        have end_ : rest.getLast some_ = '\'' := by
          rw [List.getLast?_eq_getLast_of_ne_nil some_, same] at shape
          exact Option.some_inj.mp shape
        rw [quote, List.tail_cons]
        conv_lhs => rw [← List.dropLast_append_getLast some_, end_]
  split
  · exact added _
  · exact added _

theorem keyword_inside {word : List Char} (listed : word ∈ keywords) : word ≠ [] ∧ ∀ c ∈ word, c.isAlpha = true := by
  simp only [keywords, List.mem_cons, List.not_mem_nil, or_false] at listed
  rcases listed with rfl | rfl | rfl
  all_goals exact ⟨by decide, List.all_eq_true.mp (by decide)⟩

theorem alpha_inWord {c : Char} (letter : c.isAlpha = true) : SqlLexer.InWord c := by
  refine ⟨by simp [SqlLexer.inName, SqlLexer.startsName, letter], ?_⟩
  rintro rfl
  exact absurd letter (by decide)

/-- What is written for a single value reads as one literal. -/
theorem formatValue_reads (single : Single tables d value) :
    ∃ tokens, Literal keywords tokens ∧ Reads d (formatValue tables value) tokens := by
  rcases formatValue_shape single with ⟨number, same⟩ | ⟨listed, same⟩ | ⟨⟨-, closed⟩, same⟩
  · obtain ⟨sign, whole, decimals, split, signed, digits, fraction⟩ := bareNumber_shape number
    rw [same, split]
    exact SqlLexer.reads_number signed digits fraction
  · have ⟨some_, letters⟩ := keyword_inside listed
    rw [same]
    exact ⟨_, .word listed, SqlLexer.reads_word some_ fun c member => alpha_inWord (letters c member)⟩
  · rw [same]
    exact ⟨_, .text _, SqlLexer.reads_text closed⟩

theorem bland_run {run : List Char} (some_ : run ≠ []) (inside : ∀ c ∈ run, c.isAlphanum = true ∨ c = '.')
    (leads : ∀ c ∈ run.head?, c.isAlphanum = true) : Bland run := by
  have plain : ∀ c ∈ run, inName c = true ∨ c = '.' := fun c member => (inside c member).imp_left fun named => by simp [inName, named]
  constructor
  · obtain ⟨c, rest, rfl⟩ := List.exists_cons_of_ne_nil some_
    exact ⟨c, rfl, .inl (leads c rfl)⟩
  · refine ⟨run.getLast some_, List.getLast?_eq_getLast_of_ne_nil some_, ?_⟩
    intro colon
    have member := inside _ (List.getLast_mem some_)
    rw [colon] at member
    exact absurd member (by decide)
  · intro b left _ later
    apply silent_run plain
    rw [List.getLast?_eq_getLast_of_ne_nil some_] at later ⊢
    exact later

theorem bland_signed {run : List Char} (bland : Bland run) (leads : ∀ c ∈ run.head?, c ≠ '-') : Bland ('-' :: run) := by
  obtain ⟨x, first, -⟩ := bland.leads
  obtain ⟨y, last, other⟩ := bland.ends
  have ends : ('-' :: run).getLast? = run.getLast? := by
    rw [List.getLast?_cons, Option.mem_def.mp last]
    rfl
  refine ⟨⟨'-', rfl, .inr (.inl rfl)⟩, ⟨y, ends ▸ last, other⟩, fun b left apart later => ?_⟩
  rw [ends] at apart later
  have head : (run ++ left).head? ≠ some '-' := by
    rw [List.head?_append, Option.mem_def.mp first]
    simpa using leads x first
  apply silent_code
  · rw [regionAt, if_neg (by simp), if_neg fun dashes => head dashes.2, if_neg (by simp), if_neg (by simp)]
  · rw [slotAt, if_neg (fun begins => absurd begins.1 (by decide)), if_neg (by decide),
      if_neg (fun begins => absurd begins.1 (by decide))]
  · exact bland.silent _ left apart later

/-- The scanner passes what is written for a single value. -/
theorem formatValue_bland (single : Single tables d value) : Bland (formatValue tables value) := by
  rcases formatValue_shape single with ⟨number, same⟩ | ⟨listed, same⟩ | ⟨⟨closed, -⟩, same⟩
  · obtain ⟨sign, whole, decimals, split, signed, digits, fraction⟩ := bareNumber_shape number
    rw [same, split]
    have named : ∀ digits : List Char, (∀ c ∈ digits, c.isDigit = true) → ∀ c ∈ digits, c.isAlphanum = true :=
      fun digits all c member => by simp [Char.isAlphanum, all c member]
    have first : ∀ c ∈ (whole ++ decimals).head?, c.isDigit = true := by
      intro c head
      rw [List.head?_append_of_ne_nil _ digits.1] at head
      exact digits.2 c (List.mem_of_mem_head? head)
    have unsigned : Bland (whole ++ decimals) := by
      apply bland_run (by simp [digits.1]) _ fun c head => by simp [Char.isAlphanum, first c head]
      intro c member
      rcases List.mem_append.mp member with whole_ | fraction_
      · exact .inl (named whole digits.2 c whole_)
      · rcases fraction with rfl | ⟨more, digits', rfl⟩
        · cases fraction_
        · rcases List.mem_cons.mp fraction_ with rfl | later
          · exact .inr rfl
          · exact .inl (named more digits'.2 c later)
    rcases signed with rfl | rfl
    · exact unsigned
    · apply bland_signed unsigned
      rintro c head rfl
      exact absurd (first '-' head) (by decide)
  · have ⟨some_, letters⟩ := keyword_inside listed
    have named : ∀ c ∈ upper tables (Web.trim value), c.isAlphanum = true := fun c member => by
      simp [Char.isAlphanum, letters c member]
    rw [same]
    exact bland_run some_ (fun c member => .inl (named c member)) fun c head => named c (List.mem_of_mem_head? head)
  · rw [same]
    generalize quotedBody value = body at closed
    have last : ('\'' :: (body ++ ['\''])).getLast? = some '\'' := by simp [List.getLast?_cons]
    refine ⟨⟨'\'', rfl, .inr (.inr rfl)⟩, ⟨'\'', last, by decide⟩, fun b left apart later => ?_⟩
    rw [last] at apart
    have other : left.head? ≠ some '\'' := by
      intro quote
      rw [quote] at apart
      exact absurd apart (by decide)
    apply silent_region
    · rw [List.append_assoc, List.singleton_append, regionAt, if_pos (by simp), quoted_closes closed other]
    · exact fun _ => later

end Values

section Slots

/-- How a slot is spelled. -/
inductive Spelling : List Char → Prop
  | number {digits : List Char} (some_ : digits ≠ []) (all : ∀ c ∈ digits, c.isDigit = true) : Spelling ('$' :: digits)
  | question : Spelling ['?']
  | name {c : Char} {name : List Char} (mark : c = ':' ∨ c = '@') (some_ : name ≠ []) (all : ∀ x ∈ name, inName x = true) :
      Spelling (c :: name)

theorem slotAt_spelling {b : Option Char} {c : Char} {rest token : List Char} (slot : (slotAt b c rest).1 = some token) :
    Spelling token := by
  rw [slotAt] at slot
  split at slot
  · rename_i begins
    cases slot
    have dollar : c = '$' := by simpa [numberSlot] using begins.1
    obtain ⟨d, run, -, all, -, taken, -⟩ := run_split (fun _ digit => digit) begins.2.2
    change rest.takeWhile Char.isDigit = d :: run at taken
    rw [taken, dollar]
    exact .number (List.cons_ne_nil d run) all
  split at slot
  · rename_i question
    cases slot
    rw [question]
    exact .question
  split at slot
  · rename_i begins
    cases slot
    have mark : c = ':' ∨ c = '@' := by simpa [nameSlot, or_iff_not_imp_left] using begins.1
    obtain ⟨d, run, -, all, -, taken, -⟩ := run_split nameSlot.first_inside begins.2.2
    change rest.takeWhile inName = d :: run at taken
    rw [taken]
    exact .name mark (List.cons_ne_nil d run) all
  · cases slot

theorem scanFrom_spelling (fuel : Nat) (passed rest : List Char) : ∀ found ∈ scanFrom fuel passed rest, Spelling found.token := by
  induction fuel generalizing passed rest with
  | zero => exact nofun
  | succ fuel ih =>
    cases rest with
    | nil => exact nofun
    | cons c rest =>
      intro found member
      rw [scanFrom] at member
      rcases List.mem_append.mp member with here | later
      · obtain ⟨token, slot, rfl⟩ := Option.map_eq_some_iff.mp (Option.mem_toList.mp here)
        have turn : (scanAt passed.head? c rest).1 = some token := slot
        cases region : regionAt c rest with
        | some left =>
          rw [scanAt_region region] at turn
          cases turn
        | none =>
          rw [scanAt_code region] at turn
          exact slotAt_spelling turn
      · exact ih _ _ found later

theorem inName_inWord {c : Char} (inside : inName c = true) : SqlLexer.InWord c := by
  simp only [inName, Char.isAlphanum, Bool.or_eq_true, beq_iff_eq] at inside
  rcases inside with (letter | digit) | rfl
  · exact alpha_inWord letter
  · exact SqlLexer.digit_inWord digit
  · unfold SqlLexer.InWord
    decide

/-- The text of a slot reads as tokens of its own. -/
theorem spelling_reads {token : List Char} (spelling : Spelling token) : Reads d token (lex d token) := by
  have own : ∀ {tokens}, Reads d token tokens → Reads d token (lex d token) := fun reads => by rwa [reads.lex]
  cases spelling with
  | number some_ all => exact own (SqlLexer.reads_numbered some_ all)
  | question => exact own (SqlLexer.reads_symbol (by simp))
  | @name c name mark some_ all =>
    have listed : c ∈ ['.', ':', '@', '?', '-'] := by rcases mark with rfl | rfl <;> simp
    have inside : ∀ x ∈ name, SqlLexer.InWord x := fun x member => inName_inWord (all x member)
    exact own ((SqlLexer.reads_symbol listed).append (SqlLexer.reads_word some_ inside)
      (SqlLexer.symbol_fresh listed fun x head => inside x (List.mem_of_mem_head? head)))

theorem entered_slots (sql : List Char) (values : Dict (List Char) (List Char)) :
    substituteParameters tables sql (detectParameters sql) values = fillSlots sql (literalFor tables values) := by
  rw [substituteParameters_slots]
  apply fillSlots_congr
  intro s slot
  obtain ⟨found, number⟩ := mem_numberSlots slot
  have listed : ∃ p ∈ detectParameters sql, p.placeholder = s.1.token := by
    by_cases question : s.1.token = ['?']
    · have bounds := number question
      obtain ⟨p, member, placeholder, -⟩ := @question_listed sql s.2 (by omega) (by
        rw [questions]
        omega)
      exact ⟨p, member, placeholder.trans question.symm⟩
    · exact token_listed found question
  rw [substituted, if_pos listed]
  rfl

end Slots

section Claims

/-- Each value is single, each slot and each literal stands apart from what is around it, for the database as for the scanner,
    and the database reads no slot that the scanner does not. -/
structure Settled (tables : Tables) (d : Dialect) (sql : List Char) (values : Dict (List Char) (List Char)) : Prop where
  single : ∀ s ∈ slots sql, Single tables d (enteredFor values s)
  slots : apart d (fun s : PlaceholderMatch × Nat => s.1.token) SqlLexer.begin (cells sql) = true
  literals : apart d (literalFor tables values) SqlLexer.begin (cells sql) = true
  still : calm (literalFor tables values) none (cells sql) = true
  all : slotMark d ∉ (weft d SqlLexer.begin (cells sql)).filterMap Sum.getLeft?

theorem mark_literal {tokens : List Token} (literal : Literal keywords tokens) : slotMark d ∉ tokens := by
  cases literal with
  | word listed => cases d <;> simp [slotMark]
  | number signed digits rest =>
    rcases signed with rfl | rfl <;> rcases rest with rfl | ⟨more, -, rfl⟩ <;> cases d <;> simp [slotMark]
  | text body => cases d <;> simp [slotMark]

instance (value : List Char) : Decidable (Single tables d value) :=
  inferInstanceAs (Decidable (_ ∨ _ ∨ (_ ∧ _)))

def namedAndNumbered : List Char := "SELECT $1, ':a' FROM t WHERE b = :b::int -- $2".toList

def quotedAndNumber : Dict (List Char) (List Char) :=
  ((∅ : Dict (List Char) (List Char)).insert "$1".toList "O'Brien".toList).insert ":b".toList " -42 ".toList

def twoQuoted : Dict (List Char) (List Char) :=
  (∅ : Dict (List Char) (List Char)).insert "$1".toList "'x' OR id > 0 OR name = 'x'".toList

theorem literal_length {tokens : List Token} (literal : Literal keywords tokens) : tokens.length ≤ 4 := by
  cases literal with
  | word listed => simp
  | number signed digits rest => rcases signed with rfl | rfl <;> rcases rest with rfl | ⟨more, -, rfl⟩ <;> simp
  | text body => simp

theorem threads_length (threads : List (Token ⊕ (PlaceholderMatch × Nat))) (tokens : PlaceholderMatch × Nat → List Token) :
    (threads.flatMap (Sum.elim (fun token => [token]) tokens)).length =
      (threads.filterMap Sum.getLeft?).length + ((threads.filterMap Sum.getRight?).map fun s => (tokens s).length).sum := by
  induction threads with
  | nil => rfl
  | cons thread threads ih =>
    cases thread with
    | inl token =>
      simp only [List.flatMap_cons, List.length_append, ih, Sum.elim_inl, List.filterMap_cons, Sum.getLeft?_inl, Sum.getRight?_inl,
        List.length_cons, List.length_nil]
      omega
    | inr s =>
      simp only [List.flatMap_cons, List.length_append, ih, Sum.elim_inr, List.filterMap_cons, Sum.getLeft?_inr, Sum.getRight?_inr,
        List.map_cons, List.sum_cons]
      omega

end Claims

end Rdst.Web.SqlParameters
