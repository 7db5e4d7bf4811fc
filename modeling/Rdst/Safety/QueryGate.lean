import Rdst.Lib.PyText
import Rdst.Lib.SqlLexer

namespace Rdst.Safety

open Regex PyText SqlLexer

def dangerousKeywords : List String :=
  ["DELETE", "UPDATE", "INSERT", "REPLACE", "MERGE", "TRUNCATE",
    "DROP", "CREATE", "ALTER", "RENAME",
    "GRANT", "REVOKE", "SET", "RESET", "FLUSH", "PURGE", "OPTIMIZE",
    "COMMIT", "ROLLBACK", "START TRANSACTION", "BEGIN",
    "CALL", "EXECUTE", "EXEC",
    "SHUTDOWN", "RESTART", "KILL", "LOAD DATA", "IMPORT",
    "CREATE USER", "DROP USER", "ALTER USER",
    "USE", "CONNECT"]

/-- In the order of `sorted`. -/
def sideEffectFunctions : List String :=
  ["BENCHMARK", "DBLINK", "DBLINK_EXEC", "GET_LOCK", "LOAD_FILE", "LO_EXPORT", "LO_IMPORT", "MASTER_POS_WAIT",
    "NEXTVAL", "PG_ADVISORY_LOCK", "PG_ADVISORY_XACT_LOCK", "PG_CANCEL_BACKEND", "PG_LS_DIR", "PG_NOTIFY",
    "PG_READ_BINARY_FILE", "PG_READ_FILE", "PG_SLEEP", "PG_STAT_FILE", "PG_TERMINATE_BACKEND", "QUERY_TO_XML",
    "RELEASE_ALL_LOCKS", "RELEASE_LOCK", "SETVAL", "SLEEP", "SOURCE_POS_WAIT", "SYS_EVAL", "SYS_EXEC",
    "WAIT_FOR_EXECUTED_GTID_SET"]

/-- In the order of `sorted`. -/
def allowedKeywords : List String :=
  ["ANALYZE", "CHECK", "CHECKSUM", "DESC", "DESCRIBE", "EXPLAIN", "SELECT", "SHOW", "WITH"]

def texts (words : List String) : List (List Char) := words.map String.toList

/-- `--.*$` under MULTILINE. -/
def lineComment : Pattern Char :=
  sequence [text "--", .star (.char fun c => c != '\n'), .notAhead (.char fun c => c != '\n')]

/-- `/\*.*?\*/` under DOTALL. -/
def blockComment : Pattern Char := sequence [text "/*", .lazyStar (.char fun _ => true), text "*/"]

/-- A span of `_QUOTED_SPANS`, in which the mark is doubled. -/
def quotedSpan (mark : Char) : Pattern Char :=
  sequence [.char fun c => c == mark, .star (.alt (literal [mark, mark]) (.char fun c => c != mark)),
    .char fun c => c == mark]

def quotedSpans : Pattern Char := choice [quotedSpan '\'', quotedSpan '"', quotedSpan '\x60']

def rowLockClause (tables : Tables) : Pattern Char :=
  choice
    [sequence [wordEdge tables, anyCase "FOR", someSpaces,
        optional (sequence [anyCase "NO", someSpaces, anyCase "KEY", someSpaces]), anyCase "UPDATE", wordEdge tables],
      sequence [wordEdge tables, anyCase "FOR", someSpaces, optional (sequence [anyCase "KEY", someSpaces]),
        anyCase "SHARE", wordEdge tables],
      sequence [wordEdge tables, anyCase "LOCK", someSpaces, anyCase "IN", someSpaces, anyCase "SHARE", someSpaces,
        anyCase "MODE", wordEdge tables]]

def startsKeyword (c : Char) : Bool := c.isAlpha || c == '_'

def inKeyword (c : Char) : Bool := c.isAlphanum || c == '_'

def keywordPattern (tables : Tables) : Pattern Char :=
  sequence [wordEdge tables, .char startsKeyword, .star (.char inKeyword), wordEdge tables]

def normalizeQueryForSafety (sql : List Char) : List Char :=
  strip (sub someSpaces (fun _ => [' ']) (sub blockComment (fun _ => []) (sub lineComment (fun _ => []) sql)))

/-- What `_extract_sql_keywords` searches. -/
def keywordText (tables : Tables) (normalized : List Char) : List Char :=
  sub (rowLockClause tables) (fun _ => [' ']) (sub quotedSpans (fun _ => [' ']) normalized)

def extractSqlKeywords (tables : Tables) (normalized : List Char) : List (List Char) :=
  ((findall (keywordPattern tables) (keywordText tables normalized)).map (upper tables)).filter fun word =>
    word ∈ texts dangerousKeywords ∨ word ∈ texts allowedKeywords ∨ word.length ≤ 20

/-- What `_validate_query_patterns` searches. -/
def upperText (tables : Tables) (normalized : List Char) : List Char :=
  upper tables (sub quotedSpans (fun _ => [' ']) normalized)

def callPattern (tables : Tables) (function : List Char) : Pattern Char :=
  sequence [wordEdge tables, literal function, spaces, text "("]

def breakPattern (tables : Tables) : Pattern Char := sequence [text ";", spaces, .char (isWord tables)]

def intoPattern (tables : Tables) : Pattern Char := sequence [wordEdge tables, text "INTO", wordEdge tables]

def dangerousPatterns (tables : Tables) : List (Pattern Char × String) :=
  [(intoPattern tables, "SELECT INTO may write or assign values"),
    (sequence [wordEdge tables, text "INTO", someSpaces, text "OUTFILE", wordEdge tables],
      "INTO OUTFILE operations not allowed"),
    (callPattern tables "LOAD_FILE".toList, "LOAD_FILE function not allowed"),
    (callPattern tables "SYSTEM".toList, "SYSTEM function calls not allowed"),
    (sequence [wordEdge tables, text "@@", plus (.char (isWord tables))],
      "System variables access may not be safe"),
    (callPattern tables "SLEEP".toList, "SLEEP function not allowed for analysis"),
    (breakPattern tables, "Multiple statements not allowed")]

/-- The depth after a text and the greatest depth on the way. -/
def parenDepth (text : List Char) : Int × Int :=
  text.foldl (fun depths c =>
    if c = '(' then (depths.1 + 1, max depths.2 (depths.1 + 1))
    else if c = ')' then (depths.1 - 1, depths.2)
    else depths) (0, 0)

def validateQueryPatterns (tables : Tables) (normalized : List Char) : List String :=
  let searched := upperText tables normalized
  ((sideEffectFunctions.filter fun function =>
      (search (callPattern tables function.toList) searched).isSome).map fun function =>
        function ++ "() reaches outside the queried tables") ++
    ((dangerousPatterns tables).filter fun rule => (search rule.1 searched).isSome).map Prod.snd ++
    (if 50000 < normalized.length then ["Query exceeds maximum length for safety analysis"] else []) ++
    (if 50 < (parenDepth normalized).2 then ["Query has excessive nesting depth"] else [])

def StartKeyword (first : List Char) : Prop := first ∈ texts allowedKeywords ∨ first ∈ texts ["(", "WITH"]

instance (first : List Char) : Decidable (StartKeyword first) := inferInstanceAs (Decidable (_ ∨ _))

structure SafetyReport where
  safe : Bool
  normalizedSql : List Char
  issues : List String
  error : Option String
  keywordsFound : List (List Char)
  dangerousKeywords : List (List Char)
deriving DecidableEq

def validateQuerySafety (tables : Tables) (sql : List Char) : SafetyReport :=
  let normalized := normalizeQueryForSafety sql
  if strip normalized = [] then
    ⟨false, normalized, ["Empty query"], some "Query is empty or contains only whitespace", [], []⟩
  else
    let keywords := extractSqlKeywords tables normalized
    let found := keywords.filter fun word => word ∈ texts dangerousKeywords
    let first := keywords.headD []
    let issues := (found.map fun word => "Dangerous keyword found: " ++ String.ofList word) ++
      (if ¬ StartKeyword first then
        ["query must begin with one of " ++ ", ".intercalate allowedKeywords ++
          " (found '" ++ String.ofList first ++ "')"]
      else []) ++
      validateQueryPatterns tables normalized
    ⟨issues.isEmpty, normalized, issues, none, keywords.take 10, found⟩

/-- The tokens as a database compares them, regardless of case. -/
def readByDatabase (d : Dialect) (sql : List Char) : List Token :=
  (lex d sql).map fun token =>
    match token with
    | .word word => .word (word.map Char.toUpper)
    | other => other

/-- The words of an entry. -/
def phrase (entry : String) : List Token := (entry.toList.splitOn ' ').map .word

def lockClauses : List (List Token) :=
  ["FOR UPDATE", "FOR NO KEY UPDATE", "FOR SHARE", "FOR KEY SHARE", "LOCK IN SHARE MODE"].map phrase

/-- The tokens outside of row-locking clauses; so many are still part of one. -/
def dropLocks : Nat → List Token → List Token
  | _, [] => []
  | skip + 1, _ :: rest => dropLocks skip rest
  | 0, token :: rest =>
    match lockClauses.find? fun clause => clause.isPrefixOf (token :: rest) with
    | some clause => dropLocks (clause.length - 1) rest
    | none => token :: dropLocks 0 rest

def StartsAllowed (tokens : List Token) : Prop :=
  ∃ keyword ∈ texts allowedKeywords,
    (tokens.dropWhile fun token => token = .symbol '(').head? = some (.word keyword)

def SingleStatement (tokens : List Token) : Prop :=
  ∀ token ∈ tokens.dropWhile (fun token => token ≠ .symbol ';'), token = .symbol ';'

def Calls (function : String) (tokens : List Token) : Prop :=
  [.word function.toList, .symbol '('] <:+: tokens

/-- A statement that can be run for its rows only. -/
structure ReadOnly (tokens : List Token) : Prop where
  single : SingleStatement tokens
  starts : StartsAllowed tokens
  harmless : ∀ entry ∈ dangerousKeywords, ¬ phrase entry <:+: dropLocks 0 tokens
  no_into : .word "INTO".toList ∉ tokens
  no_calls : ∀ function ∈ sideEffectFunctions, ¬ Calls function tokens

section Reading

variable (tables : Tables)

/-- The word stands in the text as a whole one, in any case of its letters. -/
def Stands (text word : List Char) : Prop :=
  ∃ before shown after, text = before ++ (shown ++ after) ∧ shown.map Char.toUpper = word ∧
    (∀ c ∈ before.getLast?, isWord tables c = false) ∧ ∀ c ∈ after.head?, isWord tables c = false

def StandsCalled (text function : List Char) : Prop :=
  ∃ before gap after, text = before ++ (function ++ (gap ++ '(' :: after)) ∧
    (∀ c ∈ before.getLast?, isWord tables c = false) ∧ ∀ c ∈ gap, isSpace c = true

def ShowsBreak (text : List Char) : Prop :=
  ∃ before gap c after, text = before ++ (';' :: (gap ++ c :: after)) ∧
    (∀ x ∈ gap, isSpace x = true) ∧ isWord tables c = true

/-- What the database reads of the banned constructs, the text that the gate scans still shows. -/
structure ReadAlike (d : Dialect) (sql : List Char) : Prop where
  starts : StartKeyword ((extractSqlKeywords tables (normalizeQueryForSafety sql)).headD []) →
    StartsAllowed (readByDatabase d sql)
  words : ∀ entry ∈ dangerousKeywords, (phrase entry).length = 1 →
    phrase entry <:+: dropLocks 0 (readByDatabase d sql) →
      Stands tables (keywordText tables (normalizeQueryForSafety sql)) entry.toList
  phrases : ∀ entry ∈ dangerousKeywords, 1 < (phrase entry).length →
    ¬ phrase entry <:+: dropLocks 0 (readByDatabase d sql)
  into : .word "INTO".toList ∈ readByDatabase d sql →
    ∃ before after, upperText tables (normalizeQueryForSafety sql) = before ++ ("INTO".toList ++ after) ∧
      (∀ c ∈ before.getLast?, isWord tables c = false) ∧ ∀ c ∈ after.head?, isWord tables c = false
  calls : ∀ function ∈ sideEffectFunctions, Calls function (readByDatabase d sql) →
    StandsCalled tables (upperText tables (normalizeQueryForSafety sql)) function.toList
  breaks : ¬ SingleStatement (readByDatabase d sql) →
    ShowsBreak tables (upperText tables (normalizeQueryForSafety sql))

end Reading

section Scanning

variable (tables : Tables)

theorem inKeyword_ascii {c : Char} (keyword : inKeyword c = true) : c.toNat < 128 := by
  simp only [inKeyword, Char.isAlphanum, Letters.isAlpha_eq, Letters.isUpper_eq, Letters.isLower_eq, Char.isDigit,
    Bool.or_eq_true, Bool.and_eq_true, decide_eq_true_eq, beq_iff_eq] at keyword
  rcases keyword with ((upper | lower) | digit) | rfl
  · have := upper.2
    have : c.val.toNat ≤ 90 := by simpa [UInt32.le_iff_toNat_le] using upper.2
    show c.val.toNat < 128
    omega
  · have : c.val.toNat ≤ 122 := by simpa [UInt32.le_iff_toNat_le] using lower.2
    show c.val.toNat < 128
    omega
  · have : c.val.toNat ≤ 57 := by simpa [UInt32.le_iff_toNat_le] using digit.2
    show c.val.toNat < 128
    omega
  · decide

theorem isWord_of_inKeyword {c : Char} (keyword : inKeyword c = true) : isWord tables c = true := by
  have small := inKeyword_ascii keyword
  have ascii : isAscii c = true := by simpa [isAscii] using small
  simp only [inKeyword, Bool.or_eq_true, beq_iff_eq] at keyword
  simp only [isWord, isAlnum, ascii, if_true, Bool.or_eq_true, beq_iff_eq]
  exact keyword.symm

theorem upper_ascii {word : List Char} (keyword : ∀ c ∈ word, inKeyword c = true) :
    upper tables word = word.map Char.toUpper := by
  induction word with
  | nil => rfl
  | cons c rest ih =>
    have ascii : isAscii c = true := by simpa [isAscii] using inKeyword_ascii (keyword c (by simp))
    have later := ih fun x inside => keyword x (List.mem_cons_of_mem _ inside)
    unfold upper at later ⊢
    rw [List.flatMap_cons, ascii, later]
    rfl

theorem atBoundary_start {isWord : Char → Bool} {before : List Char} {c : Char} {rest : List Char}
    {groups : List (Nat × Nat × Nat)} (outside : ∀ x ∈ before.getLast?, isWord x = false) (inside : isWord c = true) :
    atBoundary isWord ⟨before.reverse, c :: rest, groups⟩ = true := by
  unfold atBoundary
  rw [List.head?_reverse]
  cases last : before.getLast? with
  | none => simp [inside]
  | some x => simp [inside, outside x (by rw [last]; rfl)]

theorem atBoundary_end {isWord : Char → Bool} {before after : List Char} {c : Char}
    {groups : List (Nat × Nat × Nat)} (inside : isWord c = true) (outside : ∀ x ∈ after.head?, isWord x = false) :
    atBoundary isWord ⟨c :: before, after, groups⟩ = true := by
  unfold atBoundary
  cases after with
  | nil => simp [inside]
  | cons x rest => simp [inside, outside x (by simp)]

theorem consumes_literal {word : List Char} (some_char : word ≠ []) : Consumes (literal word) := by
  intro c d moves
  obtain ⟨text, -⟩ := moves_literal.mp moves
  have := List.length_pos_iff.mpr some_char
  rw [text, List.length_append]
  omega

/-- A call that the text shows is found. -/
theorem call_found {text function : List Char} (named : ∃ c rest, function = c :: rest ∧ inKeyword c = true)
    (shown : StandsCalled tables text function) : (search (callPattern tables function) text).isSome = true := by
  obtain ⟨before, gap, after, rfl, outside, blank⟩ := shown
  obtain ⟨c, rest, rfl, keyword⟩ := named
  have consumes : Consumes (callPattern tables (c :: rest)) := (consumes_literal (by simp)).before.after
  refine search_isSome consumes fun groups => ?_
  refine ⟨_, ⟨before.reverse, c :: rest ++ (gap ++ '(' :: after), groups⟩, ⟨?_, rfl⟩,
    ⟨(c :: rest).reverse ++ before.reverse, gap ++ '(' :: after, groups⟩, moves_literal.mpr ⟨rfl, rfl⟩,
    ⟨gap.reverse ++ ((c :: rest).reverse ++ before.reverse), '(' :: after, groups⟩,
    moves_chars.mpr ⟨gap, rfl, blank, rfl⟩, ⟨'(' :: (gap.reverse ++ ((c :: rest).reverse ++ before.reverse)), after,
    groups⟩, moves_literal.mpr ⟨rfl, rfl⟩, rfl⟩
  exact atBoundary_start outside (isWord_of_inKeyword tables keyword)

theorem function_starts : ∀ function ∈ sideEffectFunctions, ∃ c rest, function.toList = c :: rest ∧ inKeyword c = true := by
  intro function member
  have shapes : ∀ function ∈ sideEffectFunctions, function.toList.head?.any inKeyword = true := by decide +kernel
  have starts := shapes function member
  cases shape : function.toList with
  | nil =>
    rw [shape] at starts
    cases starts
  | cons c rest => exact ⟨c, rest, rfl, by simpa [shape] using starts⟩

theorem break_found {text : List Char} (shown : ShowsBreak tables text) :
    (search (breakPattern tables) text).isSome = true := by
  obtain ⟨before, gap, c, after, rfl, blank, word⟩ := shown
  have consumes : Consumes (breakPattern tables) := (consumes_literal (by decide)).before
  refine search_isSome consumes fun groups => ?_
  exact ⟨_, ⟨';' :: before.reverse, gap ++ c :: after, groups⟩, moves_literal.mpr ⟨rfl, rfl⟩,
    ⟨gap.reverse ++ (';' :: before.reverse), c :: after, groups⟩, moves_chars.mpr ⟨gap, rfl, blank, rfl⟩,
    _, ⟨c, after, rfl, word, rfl⟩, rfl⟩

theorem word_found {text word : List Char} {first last : Char} {inner : List Char}
    (ends : word.head? = some first ∧ word.reverse = last :: inner)
    (keyword : inKeyword first = true ∧ inKeyword last = true) {before after : List Char}
    (shown : text = before ++ (word ++ after)) (outside : ∀ c ∈ before.getLast?, isWord tables c = false)
    (outside' : ∀ c ∈ after.head?, isWord tables c = false) :
    (search (sequence [wordEdge tables, literal word, wordEdge tables]) text).isSome = true := by
  have some_char : word ≠ [] := by
    rintro rfl
    cases ends.1
  have consumes : Consumes (sequence [wordEdge tables, literal word, wordEdge tables]) :=
    (consumes_literal some_char).before.after
  rw [shown]
  refine search_isSome consumes fun groups => ?_
  refine ⟨_, ⟨before.reverse, word ++ after, groups⟩, ⟨?_, rfl⟩, ⟨word.reverse ++ before.reverse, after, groups⟩,
    moves_literal.mpr ⟨rfl, rfl⟩, ⟨word.reverse ++ before.reverse, after, groups⟩, ⟨?_, rfl⟩, rfl⟩
  · cases word with
    | nil => cases ends.1
    | cons c rest =>
      cases ends.1
      exact atBoundary_start outside (isWord_of_inKeyword tables keyword.1)
  · rw [ends.2]
    exact atBoundary_end (isWord_of_inKeyword tables keyword.2) outside'

theorem keyword_match {before word after : List Char} {first : Char} {rest : List Char}
    (shape : word = first :: rest) (starts : startsKeyword first = true) (inner : ∀ c ∈ word, inKeyword c = true)
    (outside : ∀ c ∈ before.getLast?, isWord tables c = false)
    (outside' : ∀ c ∈ after.head?, isWord tables c = false) :
    matchAt (keywordPattern tables) ⟨before.reverse, word ++ after, []⟩ =
      some ⟨word.reverse ++ before.reverse, after, []⟩ := by
  subst shape
  have stops : ∀ c ∈ after.head?, inKeyword c = false := by
    intro c inside
    by_contra keyword
    have := isWord_of_inKeyword tables (by simpa using keyword : inKeyword c = true)
    rw [outside' c inside] at this
    cases this
  obtain ⟨others, run⟩ := successes_chars (fun c inside => inner c (List.mem_cons_of_mem _ inside)) stops
    (first :: before.reverse) []
  have edge : atBoundary (isWord tables) ⟨before.reverse, first :: (rest ++ after), []⟩ = true :=
    atBoundary_start outside (isWord_of_inKeyword tables (inner first (by simp)))
  have ends : atBoundary (isWord tables) ⟨rest.reverse ++ first :: before.reverse, after, []⟩ = true := by
    cases shape : rest.reverse with
    | nil => exact atBoundary_end (isWord_of_inKeyword tables (inner first (by simp))) outside'
    | cons c others =>
      have inside : c ∈ first :: rest :=
        List.mem_cons_of_mem _ (List.mem_reverse.mp (by rw [shape]; exact List.mem_cons_self))
      exact atBoundary_end (isWord_of_inKeyword tables (inner c inside)) outside'
  have found : ∃ others, successes (keywordPattern tables) ⟨before.reverse, first :: rest ++ after, []⟩ =
      ⟨rest.reverse ++ first :: before.reverse, after, []⟩ :: others := by
    refine ⟨others.flatMap fun c => (if atBoundary (isWord tables) c then [c] else []).flatMap
      (successes .empty), ?_⟩
    simp only [keywordPattern, Regex.sequence, List.foldr_cons, List.foldr_nil, List.cons_append, successes, wordEdge,
      edge, if_true, List.flatMap_cons, List.flatMap_nil, List.append_nil, starts, Cursor.next] at run ⊢
    rw [run]
    simp [ends]
  obtain ⟨others, found⟩ := found
  have shorter : after.length < (first :: rest ++ after).length := by
    rw [List.length_append, List.length_cons]
    omega
  unfold matchAt
  rw [found]
  simp only [shorter, if_true, List.reverse_cons, List.append_assoc, List.singleton_append]

theorem toUpper_cases (c : Char) : c.toUpper = c ∨ c.isLower = true := by
  by_cases lower : c.isLower = true
  · exact .inr lower
  · left
    simp only [Letters.isLower_eq, Bool.and_eq_true, decide_eq_true_eq, not_and] at lower
    unfold Char.toUpper
    rw [dif_neg]
    rintro ⟨least, greatest⟩
    exact lower least greatest

theorem inKeyword_of_upper {c : Char} (keyword : inKeyword c.toUpper = true) : inKeyword c = true := by
  rcases toUpper_cases c with same | lower
  · rwa [same] at keyword
  · simp [inKeyword, Char.isAlphanum, Letters.isAlpha_eq, lower]

theorem startsKeyword_of_upper {c : Char} (keyword : startsKeyword c.toUpper = true) : startsKeyword c = true := by
  rcases toUpper_cases c with same | lower
  · rwa [same] at keyword
  · simp [startsKeyword, Letters.isAlpha_eq, lower]

theorem keyword_taken {c d : Cursor Char} (found : matchAt (keywordPattern tables) c = some d) :
    ∃ taken, taken ≠ [] ∧ (∀ x ∈ taken, inKeyword x = true) ∧ c.rest = taken ++ d.rest ∧
      d.before = taken.reverse ++ c.before := by
  unfold matchAt at found
  cases run : successes (keywordPattern tables) c with
  | nil =>
    rw [run] at found
    cases found
  | cons e others =>
    rw [run] at found
    have moves : Moves (keywordPattern tables) c e := mem_successes.mp (by rw [run]; exact List.mem_cons_self)
    by_cases shorter : e.rest.length < c.rest.length
    · simp only [if_pos shorter, Option.some.injEq] at found
      subst found
      obtain ⟨start, ⟨-, rfl⟩, first, ⟨x, rest, text, starts, rfl⟩, last, chars, final, ⟨-, rfl⟩, rfl⟩ := moves
      obtain ⟨word, text', inner, same⟩ := moves_chars.mp chars
      refine ⟨x :: word, by simp, ?_, ?_, ?_⟩
      · intro y inside
        rcases List.mem_cons.mp inside with rfl | later
        · simp only [startsKeyword, Bool.or_eq_true] at starts
          simp only [inKeyword, Char.isAlphanum, Bool.or_eq_true]
          exact starts.elim (fun alpha => .inl (.inl alpha)) .inr
        · exact inner y later
      · rw [text]
        simpa [Cursor.next] using text'
      · rw [same]
        simp [Cursor.next]
    · simp [if_neg shorter] at found

/-- A keyword that stands in the text is among those extracted. -/
theorem keyword_found {text word : List Char} (shown : Stands tables text word)
    (starts : ∃ first rest, word = first :: rest ∧ startsKeyword first = true)
    (inner : ∀ c ∈ word, inKeyword c = true) :
    ∃ found ∈ findall (keywordPattern tables) text, upper tables found = word := by
  obtain ⟨before, found, after, rfl, same, outside, outside'⟩ := shown
  have keyword : ∀ c ∈ found, inKeyword c = true := fun c inside =>
    inKeyword_of_upper (inner _ (same ▸ List.mem_map_of_mem inside))
  obtain ⟨first, rest, shape, first_starts⟩ := starts
  rw [shape] at same
  obtain ⟨c, others, split, upper_first, -⟩ := List.map_eq_cons_iff.mp same
  rw [← upper_first] at first_starts
  refine ⟨found, ?_, (upper_ascii tables keyword).trans (same.trans shape.symm)⟩
  have here := keyword_match tables split (startsKeyword_of_upper first_starts) keyword outside outside'
  refine findallFrom_mem (by simp; omega) ⟨[], by simpa using here⟩ ?_
  intro early late d parts some_late matches_early
  obtain ⟨taken, some_taken, chars, text, passed⟩ := keyword_taken tables matches_early
  rcases List.append_eq_append_iff.mp text.symm with ⟨left, late_split, tail⟩ | ⟨extra, taken_split, -⟩
  · exact ⟨taken, left, late_split, tail, passed, some_taken⟩
  · -- A match that ran past the edge would take the character before it, which is part of no word.
    exfalso
    obtain ⟨init, last, late_shape⟩ := List.eq_nil_or_concat late |>.resolve_left some_late
    have inside : last ∈ taken := by
      rw [taken_split, late_shape]
      simp
    have edge := outside last (by
      rw [parts, late_shape]
      simp)
    rw [isWord_of_inKeyword tables (chars last inside)] at edge
    cases edge

end Scanning

section Gate

variable {tables : Tables} {sql : List Char}

theorem accepted_spec (accepted : (validateQuerySafety tables sql).safe = true) :
    (∀ word ∈ extractSqlKeywords tables (normalizeQueryForSafety sql), word ∉ texts dangerousKeywords) ∧
      StartKeyword ((extractSqlKeywords tables (normalizeQueryForSafety sql)).headD []) ∧
      validateQueryPatterns tables (normalizeQueryForSafety sql) = [] := by
  unfold validateQuerySafety at accepted
  simp only [] at accepted
  split at accepted
  · cases accepted
  · simp only [List.isEmpty_iff, List.append_eq_nil_iff, List.map_eq_nil_iff, List.filter_eq_nil_iff,
      decide_eq_true_eq] at accepted
    obtain ⟨⟨harmless, starts⟩, patterns⟩ := accepted
    refine ⟨harmless, ?_, patterns⟩
    by_contra other
    rw [if_pos other] at starts
    cases starts

theorem accepted_patterns (clean : validateQueryPatterns tables (normalizeQueryForSafety sql) = []) :
    (∀ function ∈ sideEffectFunctions,
      (search (callPattern tables function.toList) (upperText tables (normalizeQueryForSafety sql))).isSome = false) ∧
      ∀ rule ∈ dangerousPatterns tables,
        (search rule.1 (upperText tables (normalizeQueryForSafety sql))).isSome = false := by
  simp only [validateQueryPatterns, List.append_eq_nil_iff, List.map_eq_nil_iff, List.filter_eq_nil_iff] at clean
  obtain ⟨⟨⟨calls, rules⟩, -⟩, -⟩ := clean
  exact ⟨fun function member => by simpa using calls function member,
    fun rule member => by simpa using rules rule member⟩

theorem keyword_extracted {entry : String} (member : entry ∈ dangerousKeywords) (single : (phrase entry).length = 1)
    (shown : Stands tables (keywordText tables (normalizeQueryForSafety sql)) entry.toList) :
    entry.toList ∈ extractSqlKeywords tables (normalizeQueryForSafety sql) := by
  have shapes : ∀ entry ∈ dangerousKeywords, (phrase entry).length = 1 →
      entry.toList.head?.any startsKeyword = true ∧ entry.toList.all inKeyword = true := by decide
  obtain ⟨starts, inner⟩ := shapes entry member single
  have first : ∃ first rest, entry.toList = first :: rest ∧ startsKeyword first = true := by
    cases shape : entry.toList with
    | nil =>
      rw [shape] at starts
      cases starts
    | cons c rest => exact ⟨c, rest, rfl, by simpa [shape] using starts⟩
  obtain ⟨found, inside, same⟩ := keyword_found tables shown first (by simpa using inner)
  refine List.mem_filter.mpr ⟨List.mem_map.mpr ⟨found, inside, same⟩, ?_⟩
  have listed : entry.toList ∈ texts dangerousKeywords := List.mem_map_of_mem member
  simp [listed]

end Gate

end Rdst.Safety
