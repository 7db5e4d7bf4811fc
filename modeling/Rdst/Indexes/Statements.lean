import Rdst.Lib.SqlPieces
import Rdst.Indexes.Naming

namespace Rdst.Indexes

open PyText Regex SqlLexer

def Engine.dialect : Engine → Dialect
  | .postgresql => .postgres
  | .mysql => .mysql

/-- The words that PostgreSQL takes for no name where they stand without quotes. -/
structure Keywords where
  reserved : Text → Bool
  index : ∀ name, reserved ("idx".toList ++ name) = false
  schema : reserved "public".toList = false

section Reading

variable (keywords : Keywords) (engine : Engine)

/-- PostgreSQL folds a name without quotes to lower case. -/
def readName : Token → Option Text
  | .word written =>
    match engine with
    | .postgresql =>
      if keywords.reserved (written.map Char.toLower) then none else some (written.map Char.toLower)
    | .mysql => some written
  | .quoted mark body => if mark = engine.dialect.nameQuote then some (undouble mark body) else none
  | .symbol _ => none

/-- The names of a list up to the end of the statement. -/
def readKeys : List Token → Option (List Text)
  | token :: .symbol ',' :: rest =>
    match readName keywords engine token, readKeys rest with
    | some name, some names => some (name :: names)
    | _, _ => none
  | [token, .symbol ')', .symbol ';'] => (readName keywords engine token).map fun name => [name]
  | _ => none

def after (expected tokens : List Token) : Option (List Token) :=
  if expected.isPrefixOf tokens then some (tokens.drop expected.length) else none

def nextName : List Token → Option (Text × List Token)
  | token :: rest => (readName keywords engine token).map fun name => (name, rest)
  | [] => none

def words (list : List String) : List Token := list.map fun word => .word word.toList

/-- A method may stand between the table and its columns. -/
def skipMethod : List Token → List Token
  | .word using_ :: .word method :: rest =>
    if using_ = "USING".toList then rest else .word using_ :: .word method :: rest
  | tokens => tokens

structure Created where
  indexName : Text
  table : Text
  columns : List Text
deriving DecidableEq

inductive Dropped
  | inSchema (schema indexName : Text)
  | onTable (table indexName : Text)
deriving DecidableEq

def createWords : Engine → List String
  | .postgresql => ["CREATE", "INDEX", "CONCURRENTLY"]
  | .mysql => ["CREATE", "INDEX"]

def readCreate (tokens : List Token) : Option Created := do
  let (indexName, rest) ← nextName keywords engine (← after (words (createWords engine)) tokens)
  let (table, rest) ← nextName keywords engine (← after (words ["ON"]) rest)
  let columns ← readKeys keywords engine (← after [.symbol '('] (skipMethod rest))
  some ⟨indexName, table, columns⟩

def readDrop (tokens : List Token) : Option Dropped :=
  match engine with
  | .postgresql => do
    let (schema, rest) ← nextName keywords engine (← after (words ["DROP", "INDEX", "CONCURRENTLY"]) tokens)
    let (indexName, rest) ← nextName keywords engine (← after [.symbol '.'] rest)
    if rest = [.symbol ';'] then some (.inSchema schema indexName) else none
  | .mysql => do
    let (table, rest) ← nextName keywords engine (← after (words ["ALTER", "TABLE"]) tokens)
    let (indexName, rest) ← nextName keywords engine (← after (words ["DROP", "INDEX"]) rest)
    if rest = [.symbol ';'] then some (.onTable table indexName) else none

/-- A line feed at the end of a name without quotes is lost. -/
def line (name : Text) : Text := if name.getLast? = some '\n' then name.dropLast else name

/-- The name that is read where a name is written. -/
def readBack (name : Text) : Option Text :=
  match engine with
  | .postgresql =>
    if plainName name then
      if keywords.reserved (line name) then none else some (line name)
    else some name
  | .mysql => some name

end Reading

section Suggested

variable (lower : Text → Text) (engine : Engine)

/-- The name that a text stands for: what is between its quotes, or the text as it is. -/
def unquoted (text : Text) : Text :=
  match text with
  | first :: rest =>
    if first = engine.dialect.nameQuote ∧ rest.getLast? = some engine.dialect.nameQuote then
      undouble engine.dialect.nameQuote rest.dropLast
    else text
  | [] => []

/-- The table of a suggestion. -/
def Suggestion.tableNamed (s : Suggestion) : Text :=
  unquoted engine (s.table.reverse.takeWhile (· ≠ '.')).reverse

/-- The schema of the table, where the suggestion says it. -/
def Suggestion.schemaNamed (s : Suggestion) : Option Text :=
  if '.' ∈ s.table then some (unquoted engine ((s.table.reverse.dropWhile (· ≠ '.')).drop 1).reverse) else none

/-- `\s+(ASC|DESC)(\s+NULLS\s+(FIRST|LAST))?$` -/
def direction : Pattern Char :=
  sequence [someSpaces, .alt (anyCase "ASC") (anyCase "DESC"),
    optional (sequence [someSpaces, anyCase "NULLS", someSpaces, .alt (anyCase "FIRST") (anyCase "LAST")]),
    .notAhead (.char fun _ => true)]

/-- A column of a suggestion, without its direction and without its table. -/
def columnNamed (column : Text) : Text :=
  unquoted engine ((sub direction (fun _ => []) column).reverse.takeWhile (· ≠ '.')).reverse

/-- MySQL does not tell the cases of a column's name apart. -/
def SameColumn (first second : Text) : Prop :=
  match engine with
  | .postgresql => first = second
  | .mysql => lower first = lower second

end Suggested

section Law

variable (tables : Tables) (lower : Text → Text) (keywords : Keywords) (current : Text → Text) (engine : Engine)

/-- What `_columns` makes of one column. -/
def keyOf (column : Text) : Option Text :=
  let text := if '(' ∈ column then expression tables lower (strip column) else norm lower column
  if text = [] then none else some (if '(' ∈ text then text else firstWord text)

/-- The index that the add creates, in the schema where its table is found, is the one that the undo drops. -/
def Names (dropped : Dropped) (created : Created) : Prop :=
  match dropped with
  | .inSchema schema indexName => schema = current created.table ∧ indexName = created.indexName
  | .onTable table indexName => table = created.table ∧ indexName = created.indexName

/-- Read back, the statement names the table and the columns of the suggestion, and the undo what the statement creates. -/
def RoundTrip (s : Suggestion) (sql undo : Text) : Prop :=
  ∃ created, readCreate keywords engine (lex engine.dialect sql) = some created ∧
    created.table = s.tableNamed engine ∧ (∀ schema ∈ s.schemaNamed engine, schema = current created.table) ∧
    List.Forall₂ (fun read column => SameColumn lower engine read (columnNamed engine column)) created.columns s.columns ∧
    ∃ dropped, readDrop keywords engine (lex engine.dialect undo) = some dropped ∧ Names current dropped created

/-- A column that is written as the name it is. -/
def ColumnWritten (column : Text) : Prop :=
  ∃ key, keyOf tables lower column = some key ∧ '(' ∉ key ∧
    ∃ read, readBack keywords engine key = some read ∧ SameColumn lower engine read (columnNamed engine column)

/-- The normalised names are those of the suggestion, PostgreSQL finds the table in `public`, and no column is left out. -/
structure WrittenAsNamed (s : Suggestion) : Prop where
  table : readBack keywords engine (norm lower s.table) = some (s.tableNamed engine)
  schema : ∀ schema ∈ s.schemaNamed engine, schema = current (s.tableNamed engine)
  few : s.columns.length ≤ maxKeyColumns
  columns : ∀ column ∈ s.columns, ColumnWritten tables lower keywords engine column
  found : engine = .postgresql → current (s.tableNamed engine) = "public".toList

end Law

section Pieces

variable {keywords : Keywords} {engine : Engine}

/-- The token that a written name is. -/
def token (engine : Engine) (name : Text) : Token :=
  match engine with
  | .postgresql => if plainName name then .word (line name) else .quoted doubleQuote (doubled doubleQuote name)
  | .mysql => .quoted backtick (doubled backtick name)

theorem plain_char {c : Char} (plain : (('a' ≤ c && c ≤ 'z') || ('0' ≤ c && c ≤ '9') || c == '_') = true) :
    InWord c ∧ c.toLower = c := by
  simp only [Bool.or_eq_true, Bool.and_eq_true, decide_eq_true_eq, beq_iff_eq] at plain
  rcases plain with (⟨first, last⟩ | ⟨first, last⟩) | rfl
  · exact inWord_lower first last
  · exact inWord_digit first last
  · exact inWord_underscore

theorem plain_line {name : Text} (plain : plainName name = true) :
    line name ≠ [] ∧ ∀ c ∈ line name, InWord c ∧ c.toLower = c := by
  have read : plainName name = match line name with
      | first :: rest => (('a' ≤ first && first ≤ 'z') || first == '_') &&
          rest.all fun c => ('a' ≤ c && c ≤ 'z') || ('0' ≤ c && c ≤ '9') || c == '_'
      | [] => false := rfl
  rw [read] at plain
  generalize line name = text at plain
  cases text with
  | nil => cases plain
  | cons first rest =>
    simp only [Bool.and_eq_true, List.all_eq_true] at plain
    refine ⟨List.cons_ne_nil first rest, ?_⟩
    intro c member
    rcases List.mem_cons.mp member with rfl | later
    · apply plain_char
      rcases Bool.or_eq_true _ _ ▸ plain.1 with letter | underscore
      · simp [letter]
      · simp [underscore]
    · exact plain_char (plain.2 c later)

theorem readName_token (name : Text) : readName keywords engine (token engine name) = readBack keywords engine name := by
  cases engine with
  | mysql =>
    show (if backtick = Dialect.mysql.nameQuote then some (undouble backtick (doubled backtick name)) else none) = some name
    rw [undouble_doubled]
    rfl
  | postgresql =>
    by_cases plain : plainName name = true
    · have same : (line name).map Char.toLower = line name := by
        conv_rhs => rw [← List.map_id (line name)]
        exact List.map_congr_left fun c inside => ((plain_line plain).2 c inside).2
      simp [token, readBack, readName, plain, same]
    · have mark : doubleQuote = Engine.postgresql.dialect.nameQuote := rfl
      simp [token, readBack, readName, plain, mark]

/-- A written name and the delimiter after it. -/
theorem scan_quote (engine : Engine) (name : Text) {c : Char} (ends : Delimiter c) (tokens : List Token) :
    scan engine.dialect (ready tokens) (quote engine name ++ [c]) = ready (tokens ++ token engine name :: mark c) := by
  have enclosed : ∀ {d : Dialect}, scan d (ready tokens) (enclose d.nameQuote name ++ [c]) =
      ready (tokens ++ .quoted d.nameQuote (doubled d.nameQuote name) :: mark c) := by
    intro d
    rw [← scan_enclosed name ends tokens, enclose, List.append_assoc]
    rfl
  cases engine with
  | mysql => exact enclosed
  | postgresql =>
    by_cases plain : plainName name = true
    · obtain ⟨some_, inside⟩ := plain_line plain
      have word : ∀ {c}, Delimiter c → ∀ tokens, scan .postgres (ready tokens) (line name ++ [c]) =
          ready (tokens ++ .word (line name) :: mark c) :=
        fun ends tokens => scan_word some_ (fun c member => (inside c member).1) ends tokens
      simp only [quote, token, plain, if_true]
      by_cases feedsLine : name.getLast? = some '\n'
      · have split : name = line name ++ ['\n'] := by
          rw [line, if_pos feedsLine]
          exact (List.dropLast_append_getLast? '\n' feedsLine).symm
        have blank : mark '\n' = [] := rfl
        have first := word (show Delimiter '\n' by decide) tokens
        rw [blank, ← split] at first
        show scan .postgres (ready tokens) (name ++ [c]) = _
        rw [scan_append, first, scan_delimiter ends, List.append_assoc]
        rfl
      · have same : line name = name := if_neg feedsLine
        have read := word ends tokens
        rw [same] at read ⊢
        exact read
    · simp only [quote, token, plain]
      exact enclosed

theorem plain_words {list : List Text} (all : (list.all fun word => !word.isEmpty && word.all fun c => inName c && c != '$') = true) :
    ∀ word ∈ list, word ≠ [] ∧ ∀ c ∈ word, InWord c := by
  intro word member
  have both := List.all_eq_true.mp all word member
  rw [Bool.and_eq_true] at both
  exact ⟨by simpa using both.1, inWord_all both.2⟩

theorem scan_words (list : List String) (plain : ∀ word ∈ list, word.toList ≠ [] ∧ ∀ c ∈ word.toList, InWord c)
    (d : Dialect) (tokens : List Token) :
    scan d (ready tokens) (list.flatMap fun word => word.toList ++ [' ']) = ready (tokens ++ words list) := by
  induction list generalizing tokens with
  | nil => simp [scan, words]
  | cons word rest ih =>
    obtain ⟨some_, inside⟩ := plain word List.mem_cons_self
    have blank : mark ' ' = [] := rfl
    have one := scan_word (d := d) some_ inside (show Delimiter ' ' by decide) tokens
    rw [blank] at one
    rw [List.flatMap_cons, scan_append, one, ih fun other member => plain other (List.mem_cons_of_mem word member)]
    simp [words]

/-- What a key part is read as: a name, or no name where it is an expression. -/
def readPart (keywords : Keywords) (engine : Engine) (column : Text) : Option Text :=
  if '(' ∈ column then none else readBack keywords engine column

theorem readKeys_cons (token : Token) (rest : List Token) : readKeys keywords engine (token :: .symbol ',' :: rest) =
    (readName keywords engine token).bind fun name => (readKeys keywords engine rest).map fun names => name :: names := by
  rw [readKeys]
  cases readName keywords engine token with
  | none => rfl
  | some name => cases readKeys keywords engine rest <;> rfl

theorem readKeys_last (token : Token) : readKeys keywords engine [token, .symbol ')', .symbol ';'] =
    (readName keywords engine token).map fun name => [name] := rfl

theorem readKeys_symbol (c : Char) (rest : List Token) : readKeys keywords engine (.symbol c :: rest) = none := by
  generalize same : Token.symbol c :: rest = tokens
  fun_cases readKeys keywords engine tokens with
  | case1 token rest' name names second first =>
    cases same
    cases first
  | case2 => rfl
  | case3 token =>
    cases same
    rfl
  | case4 => rfl

/-- The list of the parts is read as the list of their names. -/
theorem read_parts (keywords : Keywords) (engine : Engine) {columns : List Text} (some_ : columns ≠ [])
    (tokens : List Token) :
    ∃ more, finish (scan engine.dialect (ready tokens)
        (join ", ".toList (columns.map (part engine)) ++ ");".toList)) = tokens ++ more ∧
      ∀ names, readKeys keywords engine more = some names ↔
        List.Forall₂ (fun column name => readPart keywords engine column = some name) columns names := by
  induction columns generalizing tokens with
  | nil => exact absurd rfl some_
  | cons column rest ih =>
    by_cases written : '(' ∈ column
    · -- the list opens with a parenthesis, which is no name
      obtain ⟨tail, starts⟩ : ∃ tail, join ", ".toList ((column :: rest).map (part engine)) ++ ");".toList = '(' :: tail := by
        cases rest <;> simp [join, part, written, List.intercalate]
      have opens : feed engine.dialect (ready tokens) '(' = ready (tokens ++ [.symbol '(']) :=
        scan_delimiter (d := engine.dialect) (show Delimiter '(' by decide) tokens
      obtain ⟨more, read⟩ := read_extends (d := engine.dialect) (tokens ++ [.symbol '(']) tail
      refine ⟨.symbol '(' :: more, ?_, ?_⟩
      · rw [starts, scan_cons, opens, read, List.append_assoc]
        rfl
      · intro names
        rw [readKeys_symbol, List.forall₂_cons_left_iff]
        constructor
        · nofun
        · rintro ⟨name, _, here, -⟩
          rw [readPart, if_pos written] at here
          cases here
    · have here : part engine column = quote engine column := by simp [part, written]
      have name : readName keywords engine (token engine column) = readPart keywords engine column := by
        rw [readName_token, readPart, if_neg written]
      cases rest with
      | nil =>
        refine ⟨[token engine column, .symbol ')', .symbol ';'], ?_, ?_⟩
        · have text : join ", ".toList ([column].map (part engine)) ++ ");".toList =
              (quote engine column ++ [')']) ++ [';'] := by
            simp [join, here, List.intercalate]
          rw [text, scan_append, scan_quote engine column (show Delimiter ')' by decide),
            scan_delimiter (show Delimiter ';' by decide), finish_ready, List.append_assoc]
          rfl
        · intro names
          rw [readKeys_last, name, List.forall₂_cons_left_iff, Option.map_eq_some_iff]
          constructor
          · rintro ⟨one, found, rfl⟩
            exact ⟨one, [], found, .nil, rfl⟩
          · rintro ⟨one, _, found, ⟨⟩, rfl⟩
            exact ⟨one, found, rfl⟩
      | cons next others =>
        obtain ⟨more, read, names⟩ := ih (List.cons_ne_nil next others) (tokens ++ [token engine column, .symbol ','])
        refine ⟨token engine column :: .symbol ',' :: more, ?_, ?_⟩
        · have text : join ", ".toList ((column :: next :: others).map (part engine)) ++ ");".toList =
              (quote engine column ++ [',']) ++ ([' '] ++
                (join ", ".toList ((next :: others).map (part engine)) ++ ");".toList)) := by
            simp [join, here, List.intercalate]
          have comma : mark ',' = [.symbol ','] := rfl
          have blank : mark ' ' = [] := rfl
          rw [text, scan_append, scan_quote engine column (show Delimiter ',' by decide), scan_append,
            scan_delimiter (show Delimiter ' ' by decide), comma, blank, List.append_nil, read, List.append_assoc]
          rfl
        · intro all
          rw [readKeys_cons, name, List.forall₂_cons_left_iff, Option.bind_eq_some_iff]
          constructor
          · rintro ⟨one, found, mapped⟩
            obtain ⟨later, read', rfl⟩ := Option.map_eq_some_iff.mp mapped
            exact ⟨one, later, found, (names later).mp read', rfl⟩
          · rintro ⟨one, later, found, read', rfl⟩
            exact ⟨one, found, Option.map_eq_some_iff.mpr ⟨later, (names later).mpr read', rfl⟩⟩

theorem after_append (expected rest : List Token) : after expected (expected ++ rest) = some rest := by
  unfold after
  rw [if_pos (List.isPrefixOf_iff_prefix.mpr (List.prefix_append expected rest)), List.drop_left]

/-- Words as they are written in a statement, each with a blank after it. -/
def spaced (list : List String) : Text := list.flatMap fun word => word.toList ++ [' ']

/-- What stands between the table and the list of columns. -/
def methodText (engine : Engine) (method : Text) : Text :=
  match engine with
  | .postgresql => if method = "btree".toList then [] else spaced ["USING"] ++ (method ++ [' '])
  | .mysql => []

def methodTokens (engine : Engine) (method : Text) : List Token :=
  match engine with
  | .postgresql => if method = "btree".toList then [] else words ["USING"] ++ [.word method]
  | .mysql => []

theorem skipMethod_tokens (engine : Engine) (method : Text) (rest : List Token) :
    skipMethod (methodTokens engine method ++ .symbol '(' :: rest) = .symbol '(' :: rest := by
  cases engine with
  | mysql => rfl
  | postgresql =>
    by_cases usual : method = "btree".toList
    · unfold methodTokens
      rw [if_pos usual]
      rfl
    · unfold methodTokens
      rw [if_neg usual]
      rfl

theorem scan_method {method : Text} (known : method ∈ methods) (tokens : List Token) :
    scan engine.dialect (ready tokens) (methodText engine method) = ready (tokens ++ methodTokens engine method) := by
  have plain : ∀ method ∈ methods, method ≠ [] ∧ ∀ c ∈ method, InWord c := plain_words rfl
  cases engine with
  | mysql => simp [methodText, methodTokens, scan]
  | postgresql =>
    by_cases usual : method = "btree".toList
    · unfold methodText methodTokens
      rw [if_pos usual, if_pos usual, List.append_nil]
      rfl
    · obtain ⟨some_, inside⟩ := plain method known
      have using_ := scan_words ["USING"] (fun word member => plain_words rfl word.toList (List.mem_map_of_mem member)) Engine.postgresql.dialect tokens
      have named := scan_word (d := Engine.postgresql.dialect) some_ inside (show Delimiter ' ' by decide)
        (tokens ++ words ["USING"])
      have blank : mark ' ' = [] := rfl
      rw [blank] at named
      unfold methodText methodTokens
      rw [if_neg usual, if_neg usual, scan_append, spaced, using_, named, List.append_assoc]

theorem createSql_eq (tables : Tables) (engine : Engine) (table : Text) (columns : List Text) (method : Text) :
    createSql tables engine table columns method =
      spaced (createWords engine) ++ ((quote engine (suggestedName tables table columns) ++ [' ']) ++
        (spaced ["ON"] ++ ((quote engine table ++ [' ']) ++ (methodText engine method ++ (['('] ++
          (join ", ".toList (columns.map (part engine)) ++ ");".toList)))))) := by
  have create : "CREATE INDEX ".toList = spaced ["CREATE", "INDEX"] := rfl
  have concurrently : "CREATE INDEX CONCURRENTLY ".toList = spaced ["CREATE", "INDEX", "CONCURRENTLY"] := rfl
  have on : " ON ".toList = [' '] ++ spaced ["ON"] := rfl
  have using_ : " USING ".toList = [' '] ++ spaced ["USING"] := rfl
  have opens : " (".toList = [' '] ++ ['('] := rfl
  unfold createSql
  cases engine with
  | mysql =>
    show "CREATE INDEX ".toList ++ _ ++ " ON ".toList ++ _ ++ " (".toList ++ _ ++ ");".toList = _
    rw [create, on, opens]
    simp only [createWords, methodText, List.append_assoc, List.nil_append]
  | postgresql =>
    show "CREATE INDEX CONCURRENTLY ".toList ++ _ ++ " ON ".toList ++ _ ++ _ ++ " (".toList ++ _ ++ ");".toList = _
    rw [concurrently, on, opens]
    unfold methodText
    by_cases usual : method = "btree".toList
    · rw [if_pos usual, if_pos usual]
      simp only [createWords, List.append_assoc, List.nil_append]
    · rw [if_neg usual, if_neg usual, using_]
      simp only [createWords, List.append_assoc]

/-- What the statement of an add is read as. -/
theorem read_create (keywords : Keywords) (engine : Engine) (tables : Tables) (table : Text) {columns : List Text}
    {method : Text} (some_ : columns ≠ []) (known : method ∈ methods) (created : Created) :
    readCreate keywords engine (lex engine.dialect (createSql tables engine table columns method)) = some created ↔
      readBack keywords engine (suggestedName tables table columns) = some created.indexName ∧
        readBack keywords engine table = some created.table ∧
        List.Forall₂ (fun column name => readPart keywords engine column = some name) columns created.columns := by
  have blank : mark ' ' = [] := rfl
  have opens : mark '(' = [.symbol '('] := rfl
  have space : Delimiter ' ' := by decide
  have plain : ∀ word ∈ createWords engine ++ ["ON"], word.toList ≠ [] ∧ ∀ c ∈ word.toList, InWord c := by
    intro word member
    apply plain_words ?_ word.toList (List.mem_map_of_mem member)
    cases engine <;> rfl
  obtain ⟨more, read, names⟩ := read_parts keywords engine some_ (words (createWords engine) ++
    [token engine (suggestedName tables table columns)] ++ words ["ON"] ++ [token engine table] ++
      methodTokens engine method ++ [.symbol '('])
  have lexed : lex engine.dialect (createSql tables engine table columns method) = words (createWords engine) ++
      (token engine (suggestedName tables table columns) :: (words ["ON"] ++ (token engine table ::
        (methodTokens engine method ++ .symbol '(' :: more)))) := by
    have start : begin = ready [] := rfl
    have first := scan_words (createWords engine) (fun word member => plain word (List.mem_append_left _ member))
      engine.dialect
    have on := scan_words ["ON"] (fun word member => plain word (List.mem_append_right _ member)) engine.dialect
    unfold lex
    rw [createSql_eq, start, scan_append, spaced, first, scan_append, scan_quote engine _ space, scan_append, spaced, on, scan_append,
      scan_quote engine _ space, scan_append, scan_method known, scan_append, scan_delimiter (show Delimiter '(' by decide)]
    simp only [blank, opens, List.nil_append]
    rw [read]
    simp
  rw [lexed]
  unfold readCreate
  rw [after_append]
  simp only [Option.bind_eq_bind, Option.bind_some, nextName, readName_token]
  cases readBack keywords engine (suggestedName tables table columns) with
  | none => simp
  | some indexName =>
    simp only [Option.map_some, Option.bind_some]
    rw [after_append]
    simp only [Option.bind_some, readName_token]
    cases readBack keywords engine table with
    | none => simp
    | some name =>
      have opened : after [.symbol '('] (.symbol '(' :: more) = some more := after_append [.symbol '('] more
      simp only [Option.map_some, Option.bind_some, skipMethod_tokens]
      rw [opened, Option.bind_some, ← names created.columns]
      obtain ⟨indexName', table', columns'⟩ := created
      cases readKeys keywords engine more <;> simp

theorem suggestedName_starts (tables : Tables) (table : Text) (columns : List Text) :
    ∃ rest, suggestedName tables table columns = "idx".toList ++ rest := by
  have word : isWord tables 'i' = true ∧ isWord tables 'd' = true ∧ isWord tables 'x' = true := ⟨rfl, rfl, rfl⟩
  have strips : ∀ rest : Text, ∃ kept, ("idx".toList ++ rest).rdropWhile (· = '_') = "idx".toList ++ kept := by
    intro rest
    induction rest using List.reverseRecOn with
    | nil => exact ⟨[], rfl⟩
    | append_singleton front c ih =>
      rw [← List.append_assoc, List.rdropWhile_concat]
      split
      · exact ih
      · exact ⟨front ++ [c], List.append_assoc _ _ _⟩
  obtain ⟨rest, collapsed⟩ : ∃ rest, collapse (fun c => !isWord tables c) '_' false
      ("idx_".toList ++ table ++ "_".toList ++ join "_".toList columns) = "idx".toList ++ rest := by
    refine ⟨collapse (fun c => !isWord tables c) '_' false ("_".toList ++ table ++ "_".toList ++ join "_".toList columns), ?_⟩
    show collapse _ _ _ ('i' :: 'd' :: 'x' :: ("_".toList ++ table ++ "_".toList ++ join "_".toList columns)) = _
    simp [collapse, word]
  rw [suggestedName_eq, slug, collapsed]
  obtain ⟨kept, strips⟩ := strips rest
  refine ⟨kept.take 60, ?_⟩
  rw [strips, List.take_append]
  rfl

/-- The name of an index is never a keyword. -/
theorem readBack_index (keywords : Keywords) (engine : Engine) (tables : Tables) (table : Text) (columns : List Text) :
    ∃ read, readBack keywords engine (suggestedName tables table columns) = some read := by
  obtain ⟨rest, starts⟩ := suggestedName_starts tables table columns
  rw [starts]
  cases engine with
  | mysql => exact ⟨_, rfl⟩
  | postgresql =>
    obtain ⟨kept, same⟩ : ∃ kept, line ("idx".toList ++ rest) = "idx".toList ++ kept := by
      unfold line
      split
      next feeds =>
        cases rest with
        | nil => cases feeds
        | cons c others => exact ⟨(c :: others).dropLast, List.dropLast_append_of_ne_nil (List.cons_ne_nil c others)⟩
      next => exact ⟨rest, rfl⟩
    unfold readBack
    simp only [same, keywords.index]
    split
    · exact ⟨_, rfl⟩
    · exact ⟨_, rfl⟩

theorem readBack_public (keywords : Keywords) : readBack keywords .postgresql "public".toList = some "public".toList := by
  have plain : plainName "public".toList = true := by decide
  have same : line "public".toList = "public".toList := rfl
  unfold readBack
  rw [if_pos plain, same, keywords.schema]
  rfl

/-- What the statement that drops an index is read as. -/
theorem read_drop_postgres (keywords : Keywords) (table name : Text) {read : Text}
    (named : readBack keywords .postgresql name = some read) :
    readDrop keywords .postgresql (lex .postgres (dropSql .postgresql [] table name)) =
      some (.inSchema "public".toList read) := by
  have plain : ∀ word ∈ ["DROP", "INDEX", "CONCURRENTLY"], word.toList ≠ [] ∧ ∀ c ∈ word.toList, InWord c :=
    fun word member => plain_words rfl word.toList (List.mem_map_of_mem member)
  have text : dropSql .postgresql [] table name = spaced ["DROP", "INDEX", "CONCURRENTLY"] ++
      ((quote .postgresql "public".toList ++ ['.']) ++ (quote .postgresql name ++ [';'])) := by
    have start : "DROP INDEX CONCURRENTLY ".toList = spaced ["DROP", "INDEX", "CONCURRENTLY"] := rfl
    show "DROP INDEX CONCURRENTLY ".toList ++ quote .postgresql "public".toList ++ ".".toList ++ _ ++ ";".toList = _
    rw [start, List.append_assoc, List.append_assoc, List.append_assoc, List.append_assoc]
    rfl
  have first := scan_words ["DROP", "INDEX", "CONCURRENTLY"] plain .postgres []
  have schema : ∀ tokens, scan .postgres (ready tokens) (quote .postgresql "public".toList ++ ['.']) =
      ready (tokens ++ token .postgresql "public".toList :: mark '.') :=
    fun tokens => scan_quote .postgresql "public".toList (show Delimiter '.' by decide) tokens
  have last : ∀ tokens, scan .postgres (ready tokens) (quote .postgresql name ++ [';']) =
      ready (tokens ++ token .postgresql name :: mark ';') :=
    fun tokens => scan_quote .postgresql name (show Delimiter ';' by decide) tokens
  have lexed : lex .postgres (dropSql .postgresql [] table name) = words ["DROP", "INDEX", "CONCURRENTLY"] ++
      (token .postgresql "public".toList :: ([.symbol '.'] ++ [token .postgresql name, .symbol ';'])) := by
    show finish (scan .postgres (ready []) _) = _
    rw [text, scan_append, spaced, first, scan_append, schema, last, finish_ready, List.append_assoc]
    rfl
  have schemaRead := readBack_public keywords
  rw [lexed]
  generalize "public".toList = public_ at schemaRead
  unfold readDrop
  simp only
  rw [after_append]
  simp only [Option.bind_eq_bind, Option.bind_some, nextName, readName_token, schemaRead, Option.map_some]
  rw [after_append]
  simp only [Option.bind_some, readName_token, named, Option.map_some, if_true]

theorem read_drop_mysql (keywords : Keywords) (table name : Text) :
    readDrop keywords .mysql (lex .mysql (dropSql .mysql [] table name)) = some (.onTable table name) := by
  have plain : ∀ word ∈ ["ALTER", "TABLE", "DROP", "INDEX"], word.toList ≠ [] ∧ ∀ c ∈ word.toList, InWord c :=
    fun word member => plain_words rfl word.toList (List.mem_map_of_mem member)
  have text : dropSql .mysql [] table name = spaced ["ALTER", "TABLE"] ++
      ((quote .mysql table ++ [' ']) ++ (spaced ["DROP", "INDEX"] ++ (quote .mysql name ++ [';']))) := by
    have start : "ALTER TABLE ".toList = spaced ["ALTER", "TABLE"] := rfl
    have middle : " DROP INDEX ".toList = [' '] ++ spaced ["DROP", "INDEX"] := rfl
    show "ALTER TABLE ".toList ++ _ ++ " DROP INDEX ".toList ++ _ ++ ";".toList = _
    rw [start, middle]
    simp only [List.append_assoc]
    rfl
  have first := scan_words ["ALTER", "TABLE"] (fun word member => plain word (List.mem_append_left ["DROP", "INDEX"] member))
    .mysql
  have middle := scan_words ["DROP", "INDEX"] (fun word member => plain word (List.mem_append_right ["ALTER", "TABLE"] member))
    .mysql
  have owner : ∀ tokens, scan .mysql (ready tokens) (quote .mysql table ++ [' ']) =
      ready (tokens ++ token .mysql table :: mark ' ') :=
    fun tokens => scan_quote .mysql table (show Delimiter ' ' by decide) tokens
  have last : ∀ tokens, scan .mysql (ready tokens) (quote .mysql name ++ [';']) =
      ready (tokens ++ token .mysql name :: mark ';') :=
    fun tokens => scan_quote .mysql name (show Delimiter ';' by decide) tokens
  have lexed : lex .mysql (dropSql .mysql [] table name) = words ["ALTER", "TABLE"] ++
      (token .mysql table :: (words ["DROP", "INDEX"] ++ [token .mysql name, .symbol ';'])) := by
    show finish (scan .mysql (ready []) _) = _
    rw [text, scan_append, spaced, first, scan_append, owner, scan_append, spaced, middle, last, finish_ready,
      List.append_assoc, List.append_assoc]
    rfl
  rw [lexed]
  unfold readDrop
  simp only
  rw [after_append]
  simp only [Option.bind_eq_bind, Option.bind_some, nextName, readName_token, readBack, Option.map_some]
  rw [after_append]
  simp only [Option.bind_some, readName_token, readBack, Option.map_some, if_true]

end Pieces

section Columns

variable {tables : Tables} {lower : Text → Text} {keywords : Keywords} {engine : Engine} {columns : List Text}

theorem columnsOf_eq (columns : List Text) : columnsOf tables lower columns = columns.filterMap (keyOf tables lower) := rfl

theorem readPart_iff {key read : Text} : readPart keywords engine key = some read ↔
    '(' ∉ key ∧ readBack keywords engine key = some read := by
  unfold readPart
  split <;> simp_all

theorem isSome_of_length (full : columns.length ≤ (columns.filterMap (keyOf tables lower)).length) :
    ∀ column ∈ columns, (keyOf tables lower column).isSome = true := by
  induction columns with
  | nil => nofun
  | cons column rest ih =>
    have fewer := List.length_filterMap_le (keyOf tables lower) rest
    cases found : keyOf tables lower column with
    | none =>
      rw [List.filterMap_cons_none found, List.length_cons] at full
      omega
    | some key =>
      rw [List.filterMap_cons_some found, List.length_cons, List.length_cons] at full
      intro other member
      rcases List.mem_cons.mp member with rfl | later
      · rw [found]
        rfl
      · exact ih (by omega) other later

/-- The names that are read are those of the columns, one after another. -/
theorem columns_written_iff (every : ∀ column ∈ columns, (keyOf tables lower column).isSome = true) :
    (∃ names, List.Forall₂ (fun key name => readPart keywords engine key = some name)
        (columns.filterMap (keyOf tables lower)) names ∧
      List.Forall₂ (fun read column => SameColumn lower engine read (columnNamed engine column)) names columns) ↔
      ∀ column ∈ columns, ColumnWritten tables lower keywords engine column := by
  induction columns with
  | nil =>
    constructor
    · nofun
    · intro _
      exact ⟨[], .nil, .nil⟩
  | cons column rest ih =>
    have later := ih fun other member => every other (List.mem_cons_of_mem column member)
    obtain ⟨key, found⟩ := Option.isSome_iff_exists.mp (every column List.mem_cons_self)
    rw [List.filterMap_cons_some found, List.forall_mem_cons, ← later]
    constructor
    · rintro ⟨names, reads, same⟩
      obtain ⟨read, others, first, reads', rfl⟩ := List.forall₂_cons_left_iff.mp reads
      obtain ⟨same', rest'⟩ := List.forall₂_cons.mp same
      obtain ⟨name, back⟩ := readPart_iff.mp first
      exact ⟨⟨key, found, name, read, back, same'⟩, others, reads', rest'⟩
    · rintro ⟨⟨key', found', name, read, back, same⟩, others, reads, rest'⟩
      rw [found] at found'
      cases found'
      exact ⟨read :: others, .cons (readPart_iff.mpr ⟨name, back⟩) reads, .cons same rest'⟩

theorem few_columns_iff : (∃ names, List.Forall₂ (fun key name => readPart keywords engine key = some name)
        ((columnsOf tables lower columns).take maxKeyColumns) names ∧
      List.Forall₂ (fun read column => SameColumn lower engine read (columnNamed engine column)) names columns) ↔
      columns.length ≤ maxKeyColumns ∧ ∀ column ∈ columns, ColumnWritten tables lower keywords engine column := by
  rw [columnsOf_eq]
  have fewer := List.length_filterMap_le (keyOf tables lower) columns
  constructor
  · rintro ⟨names, reads, same⟩
    have kept := reads.length_eq.trans same.length_eq
    rw [List.length_take] at kept
    have few : columns.length ≤ maxKeyColumns := by omega
    rw [List.take_of_length_le (fewer.trans few)] at reads
    exact ⟨few, (columns_written_iff (isSome_of_length (by omega))).mp ⟨names, reads, same⟩⟩
  · rintro ⟨few, written⟩
    rw [List.take_of_length_le (fewer.trans few)]
    apply (columns_written_iff fun column member => ?_).mpr written
    obtain ⟨key, found, -⟩ := written column member
    rw [found]
    rfl

end Columns

section Adds

variable {tables : Tables} {lower digest : Text → Text} {inputs : Inputs} {advice : Advice} {add : Add} {s : Suggestion}

theorem methodOf_known (method : Text) : methodOf lower method ∈ methods := by
  unfold methodOf
  simp only
  split
  next known => exact known
  next => decide

theorem add_statements (member : add ∈ (buildAdditions tables lower digest inputs advice).all) :
    add.columns ≠ [] ∧ add.sql = createSql tables advice.engine add.table add.columns add.method ∧
      add.undoSql = dropSql advice.engine [] add.table (suggestedName tables add.table add.columns) := by
  obtain ⟨entry, merged, -, rfl⟩ := mem_worthwhile.mp (mem_all.mp member)
  refine ⟨?_, rfl, rfl⟩
  obtain ⟨candidate, listed, same⟩ := folded_open.shaped entry (mem_folded merged)
  obtain ⟨shape, found, -⟩ := mem_openCandidates.mp ((List.mem_insertionSort _).mp listed)
  have columns : entry.columns = candidate.columns := congrArg (fun shape => shape.2.1) same
  show entry.columns ≠ []
  rw [columns]
  exact (candidates_entry found).2.1

/-- The statements of a suggestion's add say what was suggested exactly where the normalised names do, no column is left
out, and PostgreSQL finds the table in `public`. -/
theorem statements_round_trip_iff (keywords : Keywords) (current : Text → Text)
    (member : add ∈ (buildAdditions tables lower digest inputs advice).all) (same : add.shape = s.shape tables lower) :
    RoundTrip lower keywords current advice.engine s add.sql add.undoSql ↔
      WrittenAsNamed tables lower keywords current advice.engine s := by
  obtain ⟨some_, sql, undo⟩ := add_statements member
  have table : add.table = norm lower s.table := congrArg Prod.fst same
  have columns : add.columns = (columnsOf tables lower s.columns).take maxKeyColumns := congrArg (fun shape => shape.2.1) same
  have method : add.method = methodOf lower s.method := congrArg (fun shape => shape.2.2) same
  have known : add.method ∈ methods := method ▸ methodOf_known s.method
  have created := read_create keywords advice.engine tables add.table some_ known
  obtain ⟨name, named⟩ := readBack_index keywords advice.engine tables add.table add.columns
  unfold RoundTrip
  rw [sql, undo]
  constructor
  · rintro ⟨made, read, sameTable, schema, sameColumns, dropped, drop, names⟩
    obtain ⟨index, owner, parts⟩ := (created made).mp read
    rw [columns] at parts
    obtain ⟨few, written⟩ := few_columns_iff.mp ⟨made.columns, parts, sameColumns⟩
    constructor
    case table => rw [← table, owner, sameTable]
    case schema => rwa [sameTable] at schema
    case few => exact few
    case columns => exact written
    case found =>
      intro postgres
      rw [postgres] at drop named
      rw [show Engine.postgresql.dialect = .postgres from rfl, read_drop_postgres keywords add.table _ named] at drop
      cases drop
      rw [← sameTable]
      exact names.1.symm
  · intro written
    have owner := written.table
    rw [← table] at owner
    obtain ⟨names, parts, sameColumns⟩ := few_columns_iff.mpr ⟨written.few, written.columns⟩
    rw [← columns] at parts
    refine ⟨⟨name, s.tableNamed advice.engine, names⟩, (created _).mpr ⟨named, owner, parts⟩, rfl, written.schema, sameColumns, ?_⟩
    have found := written.found
    cases engine : advice.engine with
    | postgresql =>
      rw [engine] at named found
      exact ⟨_, read_drop_postgres keywords add.table _ named, (found rfl).symm, rfl⟩
    | mysql =>
      rw [engine] at named owner
      refine ⟨_, read_drop_mysql keywords add.table _, ?_, ?_⟩
      · exact Option.some.inj owner
      · exact Option.some.inj named

end Adds

/-- Some of PostgreSQL's keywords. -/
def someKeywords : Keywords where
  reserved name := decide (name ∈ ["order", "select", "table", "user"].map String.toList)
  index name := by
    simp only [List.map_cons, List.map_nil, decide_eq_false_iff_not, List.mem_cons, List.not_mem_nil, or_false]
    rintro (same | same | same | same) <;> cases same
  schema := by decide

theorem statements_round_trip_email :
    ∃ add ∈ (buildAdditions asciiTables asciiLower id (inputsOf []) (adviceOf [byEmail])).all,
      RoundTrip asciiLower someKeywords (fun _ => "public".toList) .postgresql emailOffer.2 add.sql add.undoSql ↔
        WrittenAsNamed asciiTables asciiLower someKeywords (fun _ => "public".toList) .postgresql emailOffer.2 := by
  have there : ∃ add ∈ (buildAdditions asciiTables asciiLower id (inputsOf []) (adviceOf [byEmail])).all,
      add.shape = emailOffer.2.shape asciiTables asciiLower := by decide +kernel
  obtain ⟨add, member, same⟩ := there
  exact ⟨add, member, statements_round_trip_iff someKeywords (fun _ => "public".toList) member same⟩

def mixedCase : Suggestion := ⟨"Orders".toList, ["createdAt".toList], "btree".toList, some 50, true, [], []⟩

def ofSales : Suggestion := ⟨"sales.orders".toList, ["status".toList], "btree".toList, some 50, true, [], []⟩

/-- A table in mixed case, for which another is named; and one of a schema that the undo does not name. -/
theorem statements_name_others :
    (∃ add ∈ (buildAdditions asciiTables asciiLower id (inputsOf [])
        (adviceOf [{ byEmail with suggestions := [mixedCase] }])).all,
      add.shape = mixedCase.shape asciiTables asciiLower ∧
        ¬ RoundTrip asciiLower someKeywords (fun _ => "public".toList) .postgresql mixedCase add.sql add.undoSql) ∧
    ∃ add ∈ (buildAdditions asciiTables asciiLower id (inputsOf [])
        (adviceOf [{ byEmail with suggestions := [ofSales] }])).all,
      add.shape = ofSales.shape asciiTables asciiLower ∧
        ¬ RoundTrip asciiLower someKeywords (fun _ => "sales".toList) .postgresql ofSales add.sql add.undoSql := by
  constructor
  · have there : ∃ add ∈ (buildAdditions asciiTables asciiLower id (inputsOf [])
        (adviceOf [{ byEmail with suggestions := [mixedCase] }])).all, add.shape = mixedCase.shape asciiTables asciiLower ∧
          (readCreate someKeywords .postgresql (lex .postgres add.sql)).map Created.table = some "orders".toList := by
      decide +kernel
    obtain ⟨add, member, same, read⟩ := there
    refine ⟨add, member, same, ?_⟩
    rintro ⟨created, read', table, -⟩
    rw [show Engine.postgresql.dialect = .postgres from rfl] at read'
    rw [read', Option.map_some, table] at read
    exact absurd read (by decide +kernel)
  · have there : ∃ add ∈ (buildAdditions asciiTables asciiLower id (inputsOf [])
        (adviceOf [{ byEmail with suggestions := [ofSales] }])).all, add.shape = ofSales.shape asciiTables asciiLower ∧
          readDrop someKeywords .postgresql (lex .postgres add.undoSql) =
            some (.inSchema "public".toList "idx_orders_status".toList) := by
      decide +kernel
    obtain ⟨add, member, same, read⟩ := there
    refine ⟨add, member, same, ?_⟩
    rintro ⟨created, -, -, -, -, dropped, read', names⟩
    rw [show Engine.postgresql.dialect = .postgres from rfl, read] at read'
    cases read'
    exact absurd names.1 (show ¬ "public".toList = "sales".toList by decide)

end Rdst.Indexes
