import Mathlib.Data.List.TakeWhile
import Rdst.Safety.QueryGate

namespace Rdst.Guard

open Regex PyText SqlLexer Safety

structure CheckResult where
  passed : Bool
  level : String
  guardName : String
  message : String
  suggestion : Option String
deriving DecidableEq

def stripLineComment (line : List Char) : List Char :=
  match beforeFirst "--".toList line with
  | some before => if before.count '\'' % 2 = 0 ∧ before.count '"' % 2 = 0 then before else line
  | none => line

def stripSqlComments (sql : List Char) : List Char :=
  let lines := (sub blockComment (fun _ => []) sql).splitOn '\n'
  strip (['\n'].intercalate (lines.map stripLineComment))

/-- `;\s*\S`. -/
def secondStatement : Pattern Char := sequence [text ";", spaces, .char fun c => !isSpace c]

def writeKeywords : List String := ["INSERT", "UPDATE", "DELETE", "DROP", "ALTER", "CREATE", "TRUNCATE"]

def sqlStripped (sql : List Char) : List Char := strip (stripSqlComments sql)

/-- What is allowed to begin a statement begins the text. -/
def Leads (tables : Tables) (text : List Char) : Prop :=
  "SELECT".toList <+: upper tables text ∨ "WITH".toList <+: upper tables text

instance (tables : Tables) (text : List Char) : Decidable (Leads tables text) := inferInstanceAs (Decidable (_ ∨ _))

def checkReadOnly (tables : Tables) (sql : List Char) : CheckResult :=
  if (search secondStatement (sqlStripped sql)).isSome = true then
    ⟨false, "block", "read_only", "Multi-statement SQL is not allowed", some "Submit one statement at a time"⟩
  else if Leads tables (sqlStripped sql) then ⟨true, "info", "read_only", "Read-only query", none⟩
  else
    match writeKeywords.find? fun kw => kw.toList.isPrefixOf (upper tables (sqlStripped sql)) with
    | some kw =>
      ⟨false, "block", "read_only", "Write operation not allowed: " ++ kw, some "Only SELECT queries are permitted"⟩
    | none => ⟨false, "block", "read_only", "Unknown query type", some "Query must start with SELECT or WITH"⟩

example : (checkReadOnly asciiTables "SELECT 1 -- all\nFROM t;".toList).passed = true := by decide +kernel

section Database

/-- The tokens up to the parenthesis that closes an open one around so many others, and what comes after it. -/
def untilClosed : Nat → List Token → List Token × List Token
  | _, [] => ([], [])
  | 0, .symbol ')' :: rest => ([], rest)
  | depth, token :: rest =>
    let parts := untilClosed
      (if token = .symbol '(' then depth + 1 else if token = .symbol ')' then depth - 1 else depth) rest
    (token :: parts.1, parts.2)

/-- The body of the next common table expression and what comes after it. -/
def nextExpression (tokens : List Token) : Option (List Token × List Token) :=
  let materialized := [.word "AS".toList, .word "NOT".toList, .word "MATERIALIZED".toList]
  match (tokens.dropWhile (· ≠ .word "AS".toList)).dropWhile (· ∈ materialized) with
  | .symbol '(' :: inner => some (untilClosed 0 inner)
  | _ => none

def changeKeywords : List String :=
  ["INSERT", "UPDATE", "DELETE", "MERGE", "REPLACE", "TRUNCATE", "DROP", "CREATE", "ALTER", "RENAME", "GRANT", "REVOKE",
    "LOAD", "IMPORT", "COPY", "CALL", "EXECUTE", "DO"]

/-- What a main statement begins with. -/
def statementKeywords : List Token := (texts ("SELECT" :: "VALUES" :: "TABLE" :: changeKeywords)).map .word

/-- The statements of a `WITH`, the main one last; a `SEARCH` or `CYCLE` may stand before it. -/
def withParts : Nat → List Token → List (List Token)
  | 0, tokens => [tokens]
  | fuel + 1, tokens =>
    match nextExpression tokens with
    | some (body, .symbol ',' :: rest) => body :: withParts fuel rest
    | some (body, rest) => [body, rest.dropWhile (· ∉ statementKeywords)]
    | none => [tokens]

def leading (tokens : List Token) : Option Token := (tokens.dropWhile (· = .symbol '(')).head?

def statementParts (tokens : List Token) : List (List Token) :=
  if leading tokens = some (.word "WITH".toList) then withParts tokens.length tokens else [tokens]

/-- A statement, or one of those of its `WITH`, that begins with the keyword. -/
def Changes (keyword : String) (tokens : List Token) : Prop :=
  ∃ part ∈ statementParts tokens, leading part = some (.word keyword.toList)

instance (keyword : String) (tokens : List Token) : Decidable (Changes keyword tokens) :=
  inferInstanceAs (Decidable (∃ part ∈ statementParts tokens, _))

/-- The keyword, where it is not a label or the name of a column. -/
def SelectsInto (tokens : List Token) : Prop :=
  ∃ before rest, tokens = before ++ .word "INTO".toList :: rest ∧ before.getLast? ≠ some (.word "AS".toList) ∧
    before.getLast? ≠ some (.symbol '.')

/-- A single statement that changes no data. -/
structure ChangesNothing (tokens : List Token) : Prop where
  single : SingleStatement tokens
  no_changes : ∀ keyword ∈ changeKeywords, ¬ Changes keyword tokens
  no_into : ¬ SelectsInto tokens

/-- A semicolon or the mark of a comment. -/
def HasMark (body : List Char) : Prop := ∃ mark ∈ texts [";", "--", "/*", "*/", "#"], mark <:+: body

/-- A single `SELECT` with a mark in a literal or a quoted identifier. -/
def MarkedSelect (tokens : List Token) : Prop :=
  SingleStatement tokens ∧ leading tokens = some (.word "SELECT".toList) ∧
    ∃ quote body, .quoted quote body ∈ tokens ∧ HasMark body

end Database

variable (tables : Tables) (d : Dialect) (sql : List Char)

structure GuardsReadOnly : Prop where
  passes : (checkReadOnly tables sql).passed = true → ChangesNothing (readByDatabase d sql)
  admits : MarkedSelect (readByDatabase d sql) →
    (checkReadOnly tables sql).message ≠ "Multi-statement SQL is not allowed"

/-- A semicolon with more text after it. -/
def ShowsMore (text : List Char) : Prop := ∃ before after, text = before ++ ';' :: after ∧ ∃ c ∈ after, isSpace c = false

/-- The stripped text of a statement that may begin so has a semicolon before more text where the database reads what
the guard is for, and has none where it reads a single `SELECT`. -/
structure ReadAlike : Prop where
  breaks : Leads tables (sqlStripped sql) → ¬ SingleStatement (readByDatabase d sql) → ShowsMore (sqlStripped sql)
  changes : Leads tables (sqlStripped sql) → ∀ keyword ∈ changeKeywords, Changes keyword (readByDatabase d sql) →
    ShowsMore (sqlStripped sql)
  into : Leads tables (sqlStripped sql) → SelectsInto (readByDatabase d sql) → ShowsMore (sqlStripped sql)
  quoted : MarkedSelect (readByDatabase d sql) → ¬ ShowsMore (sqlStripped sql)

theorem showsMore_of_found {text : List Char} (found : (search secondStatement text).isSome = true) : ShowsMore text := by
  obtain ⟨⟨start, stop⟩, found⟩ := Option.isSome_iff_exists.mp found
  obtain ⟨moves, split⟩ := search_moves found
  obtain ⟨first, semicolon, second, gap, third, ⟨x, rest, more, visible, -⟩, -⟩ := moves
  obtain ⟨after, -⟩ := moves_literal.mp semicolon
  obtain ⟨blank, inner, -, -⟩ := moves_chars.mp gap
  have shape : start.rest = ';' :: (blank ++ x :: rest) := by
    rw [after, inner, more]
    rfl
  have outside : isSpace x = false := by simpa using visible
  exact ⟨start.before.reverse, blank ++ x :: rest, by rw [← shape, split], x, by simp, outside⟩

theorem found_of_showsMore {text : List Char} (shown : ShowsMore text) : (search secondStatement text).isSome = true := by
  obtain ⟨before, after, rfl, c, inside, visible⟩ := shown
  have consumes : Consumes secondStatement := (consumes_literal (by decide)).before
  have gap : ∀ x ∈ after.takeWhile isSpace, isSpace x = true := fun x member => List.mem_takeWhile_imp member
  have split : after = after.takeWhile isSpace ++ after.dropWhile isSpace := List.takeWhile_append_dropWhile.symm
  cases shape : after.dropWhile isSpace with
  | nil =>
    have blank := List.dropWhile_eq_nil_iff.mp shape c inside
    rw [visible] at blank
    cases blank
  | cons x rest =>
    have outside : isSpace x = false := by
      have := List.head?_dropWhile_not isSpace after
      rw [shape] at this
      simpa using this
    rw [shape] at split
    refine search_isSome consumes fun groups => ?_
    rw [split]
    exact ⟨_, ⟨';' :: before.reverse, after.takeWhile isSpace ++ x :: rest, groups⟩, moves_literal.mpr ⟨rfl, rfl⟩,
      ⟨(after.takeWhile isSpace).reverse ++ ';' :: before.reverse, x :: rest, groups⟩,
      moves_chars.mpr ⟨after.takeWhile isSpace, rfl, gap, rfl⟩, _, ⟨x, rest, rfl, by simp [outside], rfl⟩, rfl⟩

theorem found_iff {text : List Char} : (search secondStatement text).isSome = true ↔ ShowsMore text :=
  ⟨showsMore_of_found, found_of_showsMore⟩

theorem checkReadOnly_passed :
    (checkReadOnly tables sql).passed = true ↔ Leads tables (sqlStripped sql) ∧ ¬ ShowsMore (sqlStripped sql) := by
  unfold checkReadOnly
  by_cases more : (search secondStatement (sqlStripped sql)).isSome = true
  · simp [if_pos more, found_iff.mp more]
  · have single : ¬ ShowsMore (sqlStripped sql) := fun shown => more (found_iff.mpr shown)
    rw [if_neg more]
    by_cases leads : Leads tables (sqlStripped sql)
    · simp [if_pos leads, leads, single]
    · rw [if_neg leads]
      split <;> simp [leads]

theorem checkReadOnly_several : (checkReadOnly tables sql).message = "Multi-statement SQL is not allowed" ↔
    ShowsMore (sqlStripped sql) := by
  have other : ∀ kw ∈ writeKeywords, "Write operation not allowed: " ++ kw ≠ "Multi-statement SQL is not allowed" := by
    decide
  unfold checkReadOnly
  by_cases more : (search secondStatement (sqlStripped sql)).isSome = true
  · simp [if_pos more, found_iff.mp more]
  · have single : ¬ ShowsMore (sqlStripped sql) := fun shown => more (found_iff.mpr shown)
    rw [if_neg more]
    by_cases leads : Leads tables (sqlStripped sql)
    · simp [leads, single]
    · rw [if_neg leads]
      split
      case h_1 kw found => simpa [single] using other kw (List.mem_of_find?_eq_some found)
      case h_2 => simp [single]

end Rdst.Guard
