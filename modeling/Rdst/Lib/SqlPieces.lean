import Rdst.Lib.SqlLexer

/-! How the pieces of a generated statement are read. -/

namespace SqlLexer

variable {d : Dialect}

/-- Between two tokens. -/
def ready (tokens : List Token) : State := ⟨tokens, .code [], false⟩

theorem scan_append (s : State) (first second : List Char) :
    scan d s (first ++ second) = scan d (scan d s first) second := List.foldl_append

theorem scan_cons (s : State) (c : Char) (rest : List Char) : scan d s (c :: rest) = scan d (feed d s c) rest := rfl

section Extends

theorem closeRun_extends (s : State) (run : List Char) : s.tokens <+: (s.closeRun run).tokens := by
  unfold State.closeRun State.emit
  split
  · exact List.prefix_refl s.tokens
  · exact List.prefix_append s.tokens _

theorem feedCode_extends (s : State) (run : List Char) (c : Char) : s.tokens <+: (feedCode d s run c).tokens := by
  have closed := closeRun_extends s run
  unfold feedCode
  split
  · exact List.prefix_refl s.tokens
  · simp only
    repeat' split
    all_goals first
      | exact closed
      | exact closed.trans (List.prefix_append _ _)

theorem feedCode_emit_extends (s : State) (token : Token) (run : List Char) (c : Char) :
    s.tokens <+: (feedCode d (s.emit token) run c).tokens :=
  (List.prefix_append s.tokens [token]).trans (feedCode_extends (s.emit token) run c)

/-- No token is taken back. -/
theorem feed_extends (s : State) (c : Char) : s.tokens <+: (feed d s c).tokens := by
  have same := List.prefix_refl s.tokens
  have one : ∀ token, s.tokens <+: (s.emit token).tokens := fun token => List.prefix_append s.tokens [token]
  unfold feed
  split
  all_goals repeat' split
  all_goals first
    | exact same
    | exact one _
    | exact feedCode_extends s _ c
    | exact feedCode_emit_extends s _ _ c
    | exact (one _).trans (feedCode_emit_extends (s.emit _) _ _ c)

theorem scan_extends (s : State) (text : List Char) : s.tokens <+: (scan d s text).tokens := by
  induction text generalizing s with
  | nil => exact List.prefix_refl s.tokens
  | cons c rest ih => exact (feed_extends s c).trans (ih (feed d s c))

theorem finish_extends (s : State) : s.tokens <+: finish s := by
  unfold finish
  split
  all_goals first
    | exact List.prefix_refl s.tokens
    | exact List.prefix_append s.tokens _
    | exact closeRun_extends s _
    | exact (List.prefix_append s.tokens [Token.symbol '$']).trans (closeRun_extends (s.emit (.symbol '$')) _)

theorem read_extends (tokens : List Token) (text : List Char) :
    ∃ more, finish (scan d (ready tokens) text) = tokens ++ more := by
  obtain ⟨more, same⟩ := (scan_extends (d := d) (ready tokens) text).trans (finish_extends _)
  exact ⟨more, same.symm⟩

end Extends

section Infix

/-- The characters of a word that is not finished, the latest first. -/
def Mode.pending : Mode → List Char
  | .code run | .version run | .tag run => run
  | _ => []

def WordsOf (text : List Char) (tokens : List Token) : Prop := ∀ w, .word w ∈ tokens → w <:+: text

/-- The words stand in the text, and the pending one at its end. -/
structure InText (text : List Char) (s : State) : Prop where
  words : WordsOf text s.tokens
  pending : s.mode.pending.reverse <:+ text

variable {text : List Char} {s : State}

theorem WordsOf.append (words : WordsOf text s.tokens) (more : List Char) : WordsOf (text ++ more) s.tokens :=
  fun w read => (words w read).trans (List.infix_append' [] text more)

theorem WordsOf.emit (words : WordsOf text s.tokens) {token : Token} (other : ∀ w, token ≠ .word w) :
    WordsOf text (s.emit token).tokens := by
  intro w read
  rcases List.mem_append.mp read with early | last
  · exact words w early
  · exact absurd (List.mem_singleton.mp last).symm (other w)

theorem WordsOf.closeRun (words : WordsOf text s.tokens) {run : List Char} (ends : run.reverse <:+ text) :
    WordsOf text (s.closeRun run).tokens := by
  unfold State.closeRun
  split
  · exact words
  · intro w read
    rcases List.mem_append.mp read with early | last
    · exact words w early
    · have same := List.mem_singleton.mp last
      cases same
      exact ends.isInfix

theorem feedCode_inText (words : WordsOf text s.tokens) {run : List Char} (ends : run.reverse <:+ text) (c : Char) :
    InText (text ++ [c]) (feedCode d s run c) := by
  have closed := (words.closeRun ends).append [c]
  have nothing : ([] : List Char).reverse <:+ text ++ [c] := List.nil_suffix
  unfold feedCode
  split
  · refine ⟨words.append [c], ?_⟩
    obtain ⟨front, rfl⟩ := ends
    exact ⟨front, by simp [State.enter, Mode.pending]⟩
  · simp only
    repeat' split
    all_goals first
      | exact ⟨closed, nothing⟩
      | exact ⟨closed.emit (by simp), nothing⟩

theorem feed_inText (inText : InText text s) (c : Char) : InText (text ++ [c]) (feed d s c) := by
  have words := inText.words
  have later := words.append [c]
  have nothing : ([] : List Char).reverse <:+ text := List.nil_suffix
  have nothing' : ([] : List Char).reverse <:+ text ++ [c] := List.nil_suffix
  have emits : ∀ {token : Token}, (∀ w, token ≠ .word w) → WordsOf text (s.emit token).tokens := words.emit
  have pending := inText.pending
  have longer : ∀ {run : List Char}, run.reverse <:+ text → (c :: run).reverse <:+ text ++ [c] := by
    rintro run ⟨front, rfl⟩
    exact ⟨front, by simp⟩
  unfold feed
  split
  all_goals rename_i mode
  all_goals rw [mode] at pending
  all_goals repeat' split
  all_goals first
    | exact feedCode_inText words pending c
    | exact feedCode_inText words nothing c
    | exact feedCode_inText (emits (by simp)) pending c
    | exact feedCode_inText (emits (by simp)) nothing c
    | exact feedCode_inText (WordsOf.emit (emits (by simp)) (by simp)) nothing c
    | exact ⟨later, nothing'⟩
    | exact ⟨later, by rw [mode]; exact nothing'⟩
    | exact ⟨later, longer pending⟩
    | exact ⟨(emits (by simp)).append [c], nothing'⟩

theorem scan_inText (inText : InText text s) (more : List Char) : InText (text ++ more) (scan d s more) := by
  induction more generalizing text s with
  | nil => simpa [scan] using inText
  | cons c more ih => simpa [scan_cons] using ih (feed_inText inText c)

/-- A word that is read stands in the text. -/
theorem word_infix {w : List Char} (read : .word w ∈ lex d text) : w <:+: text := by
  have start : InText [] begin := ⟨fun w none_ => absurd none_ List.not_mem_nil, List.nil_suffix⟩
  have inText := scan_inText (d := d) start text
  have words := inText.words
  have pending := inText.pending
  rw [List.nil_append] at words pending
  have ends : WordsOf text (finish (scan d begin text)) := by
    unfold finish
    split
    all_goals rename_i mode
    all_goals rw [mode] at pending
    all_goals first
      | exact words.closeRun pending
      | exact words
      | exact words.emit (by simp)
      | exact WordsOf.closeRun (words.emit (by simp)) pending
      | split
        · exact words.closeRun pending
        · exact words.closeRun List.nil_suffix
  exact ends w read

end Infix

section Pieces

/-- What ends a name in a generated statement. -/
def Delimiter (c : Char) : Prop := c ∈ [' ', '\n', ',', '(', ')', ';', '.']

instance : DecidablePred Delimiter := fun c => inferInstanceAs (Decidable (c ∈ _))

def mark (c : Char) : List Token := if isBlank c then [] else [.symbol c]

theorem feedCode_delimiter {c : Char} (ends : Delimiter c) (tokens : List Token) (mode : Mode) (run : List Char) :
    feedCode d ⟨tokens, mode, false⟩ run c =
      ready (tokens ++ (if run = [] then [] else [.word run.reverse]) ++ mark c) := by
  have closed : State.closeRun ⟨tokens, mode, false⟩ run =
      ⟨tokens ++ (if run = [] then [] else [.word run.reverse]), mode, false⟩ := by
    unfold State.closeRun State.emit
    split <;> simp
  unfold feedCode
  rw [closed]
  simp only [Delimiter, List.mem_cons, List.not_mem_nil, or_false] at ends
  rcases ends with rfl | rfl | rfl | rfl | rfl | rfl | rfl <;> simp [inName, startsName, State.enter, State.emit, ready, mark, isBlank]

theorem scan_delimiter {c : Char} (ends : Delimiter c) (tokens : List Token) :
    scan d (ready tokens) [c] = ready (tokens ++ mark c) := by
  have read := feedCode_delimiter (d := d) ends tokens (.code []) []
  simpa [scan, feed, ready] using read

theorem finish_ready (tokens : List Token) : finish (ready tokens) = tokens := rfl

/-- A character that goes on with a word. -/
def InWord (c : Char) : Prop := inName c = true ∧ c ≠ '$'

theorem toLower_eq {c : Char} (notUpper : ¬ ('A' ≤ c ∧ c ≤ 'Z')) : c.toLower = c := by
  unfold Char.toLower
  split
  next h => exact absurd ⟨h.1, h.2⟩ notUpper
  next => rfl

theorem inWord_lower {c : Char} (first : 'a' ≤ c) (last : c ≤ 'z') : InWord c ∧ c.toLower = c := by
  have low : c.isLower = true := by
    simp only [Letters.isLower_eq, Bool.and_eq_true, decide_eq_true_eq]
    exact ⟨first, last⟩
  refine ⟨⟨by simp [inName, startsName, Letters.isAlpha_eq, low], ?_⟩, ?_⟩
  · rintro rfl
    exact absurd first (by decide)
  · apply toLower_eq
    rintro ⟨-, upper⟩
    exact absurd (Char.le_trans first upper) (by decide)

theorem inWord_digit {c : Char} (first : '0' ≤ c) (last : c ≤ '9') : InWord c ∧ c.toLower = c := by
  have digit : c.isDigit = true := by
    simp only [Char.isDigit, Bool.and_eq_true, decide_eq_true_eq]
    exact ⟨first, last⟩
  refine ⟨⟨by simp [inName, digit], ?_⟩, ?_⟩
  · rintro rfl
    exact absurd first (by decide)
  · apply toLower_eq
    rintro ⟨upper, -⟩
    exact absurd (Char.le_trans upper last) (by decide)

theorem inWord_underscore : InWord '_' ∧ '_'.toLower = '_' := by
  unfold InWord
  decide

theorem inWord_all {word : List Char} (all : (word.all fun c => inName c && c != '$') = true) : ∀ c ∈ word, InWord c := by
  intro c member
  simpa [InWord] using List.all_eq_true.mp all c member

theorem scan_run {word : List Char} (inside : ∀ c ∈ word, InWord c) {executable : Bool} (tokens : List Token) (run : List Char) :
    scan d ⟨tokens, .code run, executable⟩ word = ⟨tokens, .code (word.reverse ++ run), executable⟩ := by
  induction word generalizing run with
  | nil => rfl
  | cons c rest ih =>
    obtain ⟨named, notDollar⟩ := inside c List.mem_cons_self
    have one : feed d ⟨tokens, .code run, executable⟩ c = ⟨tokens, .code (c :: run), executable⟩ := by
      simp [feed, feedCode, named, notDollar, State.enter]
    rw [scan_cons, one, ih fun x member => inside x (List.mem_cons_of_mem c member)]
    simp

/-- A word and the delimiter after it. -/
theorem scan_word {word : List Char} (some_ : word ≠ []) (inside : ∀ c ∈ word, InWord c) {c : Char} (ends : Delimiter c)
    (tokens : List Token) : scan d (ready tokens) (word ++ [c]) = ready (tokens ++ .word word :: mark c) := by
  rw [ready, scan_append, scan_run inside, List.append_nil]
  have read := feedCode_delimiter (d := d) ends tokens (.code word.reverse) word.reverse
  simpa [scan, feed, some_] using read

/-- A name with its quotes doubled. -/
def doubled (quote : Char) (name : List Char) : List Char := name.flatMap fun c => if c = quote then [quote, quote] else [c]

def undouble (quote : Char) : List Char → List Char
  | [] => []
  | [c] => [c]
  | first :: second :: rest =>
    if first = quote ∧ second = quote then quote :: undouble quote rest else first :: undouble quote (second :: rest)

theorem undouble_cons {quote c : Char} (other : c ≠ quote) (rest : List Char) :
    undouble quote (c :: rest) = c :: undouble quote rest := by
  cases rest with
  | nil => rfl
  | cons second rest => simp [undouble, other]

@[simp] theorem undouble_doubled (quote : Char) (name : List Char) : undouble quote (doubled quote name) = name := by
  induction name with
  | nil => rfl
  | cons c rest ih =>
    by_cases same : c = quote
    · subst same
      have step : doubled c (c :: rest) = c :: c :: doubled c rest := by simp [doubled]
      rw [step]
      simp [undouble, ih]
    · have step : doubled quote (c :: rest) = c :: doubled quote rest := by simp [doubled, same]
      rw [step, undouble_cons same, ih]

/-- The quote of names. -/
def Dialect.nameQuote : Dialect → Char
  | .postgres => '"'
  | .mysql => '\x60'

theorem scan_doubled (quote : Char) (name : List Char) (tokens : List Token) (body : List Char) :
    scan d ⟨tokens, .quoted quote false body, false⟩ (doubled quote name) =
      ⟨tokens, .quoted quote false ((doubled quote name).reverse ++ body), false⟩ := by
  induction name generalizing body with
  | nil => rfl
  | cons c rest ih =>
    by_cases same : c = quote
    · subst same
      have step : doubled c (c :: rest) = c :: c :: doubled c rest := by simp [doubled]
      have two : feed d (feed d ⟨tokens, .quoted c false body, false⟩ c) c = ⟨tokens, .quoted c false (c :: c :: body), false⟩ := by
        simp [feed, State.enter]
      rw [step, scan_cons, scan_cons, two, ih]
      simp
    · have step : doubled quote (c :: rest) = c :: doubled quote rest := by simp [doubled, same]
      have one : feed d ⟨tokens, .quoted quote false body, false⟩ c = ⟨tokens, .quoted quote false (c :: body), false⟩ := by
        simp [feed, same, State.enter]
      rw [step, scan_cons, one, ih]
      simp

/-- A quoted name and the delimiter after it. -/
theorem scan_enclosed (name : List Char) {c : Char} (ends : Delimiter c) (tokens : List Token) :
    scan d (ready tokens) (d.nameQuote :: doubled d.nameQuote name ++ [d.nameQuote, c]) =
      ready (tokens ++ .quoted d.nameQuote (doubled d.nameQuote name) :: mark c) := by
  have opens : feed d (ready tokens) d.nameQuote = ⟨tokens, .quoted d.nameQuote false [], false⟩ := by
    cases d <;> simp [feed, ready, feedCode, inName, startsName, Dialect.nameQuote, State.closeRun, State.enter]
  have other : c ≠ d.nameQuote := by
    simp only [Delimiter, List.mem_cons, List.not_mem_nil, or_false] at ends
    cases d <;> rcases ends with rfl | rfl | rfl | rfl | rfl | rfl | rfl <;> decide
  rw [List.cons_append, scan_cons, opens, scan_append, scan_doubled]
  generalize doubled d.nameQuote name = body
  have read := feedCode_delimiter (d := d) ends (tokens ++ [.quoted d.nameQuote body])
    (.closing d.nameQuote false body.reverse) []
  simpa [scan, feed, other, State.enter, State.emit] using read

end Pieces

end SqlLexer
