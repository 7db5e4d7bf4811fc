import Rdst.Ask.SqlValidation

namespace Rdst.Ask

open Regex PyText SqlLexer Safety

/-- The keyword stands in the statement; `REPLACE` before a parenthesis is the function. -/
def Writes (keyword : String) (tokens : List Token) : Prop :=
  ∃ before rest, tokens = before ++ .word keyword.toList :: rest ∧
    (keyword = "REPLACE" → rest.head? ≠ some (.symbol '('))

/-- A statement that neither writes nor reaches outside of the tables it queries. -/
structure OnlyReads (tokens : List Token) : Prop where
  no_writes : ∀ keyword ∈ writeKeywords, ¬ Writes keyword tokens
  no_into : .word "INTO".toList ∉ tokens
  no_calls : ∀ function ∈ sideEffectFunctions, ¬ Calls function tokens

section Shown

variable (tables : Tables)

def StandsWhole (text word : List Char) : Prop :=
  ∃ before after, text = before ++ (word ++ after) ∧ (∀ c ∈ before.getLast?, isWord tables c = false) ∧
    ∀ c ∈ after.head?, isWord tables c = false

def StartsWith (text word : List Char) : Prop :=
  ∃ after, text = word ++ after ∧ ∀ c ∈ after.head?, isWord tables c = false

/-- `INTO` and white space that no file follows, or one blank and a file. -/
def StandsInto (text : List Char) : Prop :=
  (∃ before gap after, text = before ++ ("INTO".toList ++ (gap ++ after)) ∧
    (∀ c ∈ before.getLast?, isWord tables c = false) ∧ gap ≠ [] ∧ (∀ c ∈ gap, isSpace c = true) ∧
    ¬ StartsWith tables after "OUTFILE".toList ∧ ¬ StartsWith tables after "DUMPFILE".toList) ∨
  "INTO OUTFILE".toList <:+: text ∨ "INTO DUMPFILE".toList <:+: text

/-- What the database reads of the constructs, the texts that are scanned for them still show. -/
structure Shown (d : Dialect) (sql : List Char) : Prop where
  writes : ∀ keyword ∈ writeKeywords, Writes keyword (readByDatabase d sql) →
    StandsWhole tables (keywordScanSql tables sql) keyword.toList
  into : .word "INTO".toList ∈ readByDatabase d sql → StandsInto tables (sqlUpper tables sql)
  calls : ∀ function ∈ sideEffectFunctions, Calls function (readByDatabase d sql) →
    StandsCalled tables (sqlUpper tables sql) function.toList

theorem into_found {text : List Char}
    (shown : ∃ before gap after, text = before ++ ("INTO".toList ++ (gap ++ after)) ∧
      (∀ c ∈ before.getLast?, isWord tables c = false) ∧ gap ≠ [] ∧ (∀ c ∈ gap, isSpace c = true) ∧
      ¬ StartsWith tables after "OUTFILE".toList ∧ ¬ StartsWith tables after "DUMPFILE".toList) :
    (search (selectInto tables) text).isSome = true := by
  obtain ⟨before, gap, after, rfl, outside, some_gap, blank, outfile, dumpfile⟩ := shown
  have consumes : Consumes (selectInto tables) := (consumes_literal (by decide)).before.after
  have file : ∀ word : String, word.toList.getLast?.any inKeyword = true → ¬ StartsWith tables after word.toList →
      ∀ (passed : List Char) groups e,
        ¬ Moves (sequence [text word, wordEdge tables]) ⟨passed, after, groups⟩ e := by
    intro word ends other passed groups e moves
    obtain ⟨f, literal, edge, boundary, _⟩ := moves
    obtain ⟨split, same⟩ := moves_literal.mp literal
    have inner := boundary.1
    rw [same] at inner
    apply other
    refine ⟨f.rest, split, fun c first => ?_⟩
    by_contra word_char
    cases shape : word.toList.reverse with
    | nil =>
      rw [List.reverse_eq_nil_iff.mp shape] at ends
      cases ends
    | cons last others =>
      have same_last : word.toList.getLast? = some last := by rw [← List.head?_reverse, shape]; rfl
      rw [same_last] at ends
      have last_word : isWord tables last = true := isWord_of_inKeyword tables ends
      unfold atBoundary at inner
      rw [shape] at inner
      cases rest : f.rest with
      | nil =>
        rw [rest] at first
        cases first
      | cons x others' =>
        rw [rest] at first inner
        cases first
        simp [last_word, word_char] at inner
  refine search_isSome consumes fun groups => ?_
  cases gap with
  | nil => exact absurd rfl some_gap
  | cons c others =>
    have start : atBoundary (isWord tables) ⟨before.reverse, "INTO".toList ++ (c :: others ++ after), groups⟩ = true := by
      apply atBoundary_start outside
      exact isWord_of_inKeyword tables (by decide : inKeyword 'I' = true)
    refine ⟨_, ⟨before.reverse, "INTO".toList ++ (c :: others ++ after), groups⟩, ⟨start, rfl⟩,
      ⟨"INTO".toList.reverse ++ before.reverse, c :: others ++ after, groups⟩, moves_literal.mpr ⟨rfl, rfl⟩,
      ⟨others.reverse ++ (c :: ("INTO".toList.reverse ++ before.reverse)), after, groups⟩,
      ⟨⟨c :: ("INTO".toList.reverse ++ before.reverse), others ++ after, groups⟩,
        ⟨c, others ++ after, rfl, blank c List.mem_cons_self, rfl⟩,
        moves_chars.mpr ⟨others, rfl, fun x member => blank x (List.mem_cons_of_mem _ member), rfl⟩⟩,
      ⟨others.reverse ++ (c :: ("INTO".toList.reverse ++ before.reverse)), after, groups⟩, ⟨?_, rfl⟩, rfl⟩
    intro found
    obtain ⟨e, either⟩ := found
    rcases either with out | dump
    · exact file "OUTFILE" (by decide) outfile _ _ e out
    · exact file "DUMPFILE" (by decide) dumpfile _ _ e dump

end Shown

section Gate

variable {tables : Tables} {sql : List Char}

theorem written_found (harmless : dangerousFound tables sql = []) {keyword : String} (member : keyword ∈ writeKeywords) :
    ¬ StandsWhole tables (keywordScanSql tables sql) keyword.toList := by
  intro shown
  obtain ⟨before, after, text, outside, outside'⟩ := shown
  have shapes : ∀ keyword ∈ writeKeywords, keyword.toList.head?.any inKeyword = true ∧
      keyword.toList.reverse.head?.any inKeyword = true := by decide +kernel
  have shape := shapes keyword member
  have refused := List.filter_eq_nil_iff.mp harmless keyword member
  cases first : keyword.toList.head? with
  | none => simp [first] at shape
  | some c =>
    cases last : keyword.toList.reverse with
    | nil => simp [last] at shape
    | cons x inner =>
      rw [first, last] at shape
      exact refused (word_found tables ⟨first, last⟩ shape text outside outside')

theorem forbidden_spec (clean : checkForbiddenConstructs tables sql = []) :
    ¬ StandsInto tables (sqlUpper tables sql) ∧
      ∀ function ∈ sideEffectFunctions, ¬ StandsCalled tables (sqlUpper tables sql) function.toList := by
  delta checkForbiddenConstructs at clean
  simp only [List.append_eq_nil_iff, List.map_eq_nil_iff, List.filter_eq_nil_iff] at clean
  obtain ⟨⟨files, into⟩, calls⟩ := clean
  constructor
  · intro shown
    rcases shown with destination | file
    · rw [if_pos (into_found tables destination)] at into
      cases into
    · rw [if_pos file] at files
      cases files
  · intro function member shown
    exact calls function member (call_found tables (function_starts function member) shown)

/-- The first token of a statement as `sqlparse` types it, and the rest of it. -/
def leadingToken (sql : List Char) : Except String (List Statement) :=
  let first := sql.takeWhile Char.isAlpha
  .ok [⟨sql, [⟨if first = "SELECT".toList then .dml else .keyword, first⟩, ⟨.other, sql.drop first.length⟩]⟩]

def acceptedSafe (sql : String) : Bool :=
  match validateSqlForAsk asciiTables leadingToken 1000 sql.toList 1000 100 true "postgresql".toList with
  | .ok report => report.isSafe
  | .error _ => false

end Gate

end Rdst.Ask
