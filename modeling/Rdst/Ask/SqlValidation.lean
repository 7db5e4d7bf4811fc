import Rdst.Ask.TopLevel
import Rdst.Safety.QueryGate

namespace Rdst.Ask

open Regex PyText Safety

def writeKeywords : List String :=
  ["INSERT", "UPDATE", "DELETE", "DROP", "CREATE", "ALTER", "TRUNCATE", "REPLACE", "MERGE", "GRANT", "REVOKE", "SET",
    "RESET", "COPY", "CALL", "EXECUTE", "DO", "VACUUM", "LOAD", "IMPORT", "ATTACH"]

def readKeywords : List String := ["SELECT", "WITH", "SHOW", "DESCRIBE", "DESC", "EXPLAIN"]

/-- What is asked of a token of `sqlparse`: whether it is a `Parenthesis`, and its type. -/
inductive ParsedKind
  | parenthesis
  | dml
  | keyword
  | other

structure ParsedToken where
  kind : ParsedKind
  value : List Char

structure Statement where
  text : List Char
  tokens : List ParsedToken

section Parsing

variable (tables : Tables) (parse : List Char → Except String (List Statement))

/-- `value[1:-1]`. -/
def inside (value : List Char) : List Char := (value.drop 1).dropLast

def recursionError : String := "maximum recursion depth exceeded"

def isSelectStatement : Nat → Statement → Except String Bool
  | 0, _ => .error recursionError
  | depth + 1, statement =>
    statement.tokens.anyM fun token =>
      match token.kind with
      | .parenthesis => do
        match ← parse (inside token.value) with
        | [] => return false
        | first :: _ => isSelectStatement depth first
      | .dml => return upper tables token.value ∈ texts ["SELECT", "WITH"]
      | .keyword => return upper tables token.value = "WITH".toList
      | .other => return false

def leadingWord : Pattern Char :=
  sequence [spaces, .star (.char fun c => c == '('), spaces, .group 1 (plus (.char (isWord tables)))]

def firstWord (sql : List Char) : Option (List Char) :=
  ((matchAt (leadingWord tables) (start sql)).bind fun d => d.span 1).map (slice sql)

def getFirstKeyword : Nat → List Char → Except String (Option (List Char))
  | 0, _ => .error recursionError
  | depth + 1, sql =>
    let sql := strip sql
    if sql = [] then .ok none
    else
      let parsed : Except String (Option (List Char)) := do
        match ← parse sql with
        | [] => return none
        | statement :: _ =>
          statement.tokens.findSomeM? fun token =>
            match token.kind with
            | .parenthesis => do
              let nested ← getFirstKeyword depth (inside token.value)
              return nested.filter fun keyword => !keyword.isEmpty
            | .dml | .keyword => return some (upper tables token.value)
            | .other => return none
      -- The `except` clause takes every exception of the attempt above.
      match parsed with
      | .ok (some keyword) => .ok (some keyword)
      | _ => .ok ((firstWord tables sql).map (upper tables))

end Parsing

section ReadOnly

variable (tables : Tables)

/-- `_QUOTED_SPANS.sub(" ", sql).upper()`. -/
def sqlUpper (sql : List Char) : List Char := upper tables (sub quotedSpans (fun _ => [' ']) sql)

def replaceCall : Pattern Char := sequence [wordEdge tables, text "REPLACE", spaces, .ahead (text "(")]

def keywordScanSql (sql : List Char) : List Char := sub (replaceCall tables) (fun _ => []) (sqlUpper tables sql)

def wholeWord (word : List Char) : Pattern Char := sequence [wordEdge tables, literal word, wordEdge tables]

/-- In the order of the list; the set has none. -/
def dangerousFound (sql : List Char) : List String :=
  writeKeywords.filter fun keyword => (search (wholeWord tables keyword.toList) (keywordScanSql tables sql)).isSome

structure ReadOnlyCheck where
  isReadOnly : Bool
  issues : List String
  dangerousKeywords : List (List Char)
deriving DecidableEq

def checkReadOnly (parse : List Char → Except String (List Statement)) (depth : Nat) (sql : List Char) :
    Except String ReadOnlyCheck :=
  let found := dangerousFound tables sql
  if found ≠ [] then
    .ok ⟨false, ["Write operation detected: " ++ ", ".intercalate found], texts found⟩
  else do
    let first := (← getFirstKeyword tables parse depth sql).getD []
    if first ≠ [] ∧ first ∉ texts readKeywords then
      return ⟨false, ["Query must start with SELECT or WITH, found: " ++ String.ofList first], [first]⟩
    else return ⟨true, [], []⟩

def selectInto : Pattern Char :=
  sequence [wordEdge tables, text "INTO", someSpaces,
    .notAhead (.alt (sequence [text "OUTFILE", wordEdge tables]) (sequence [text "DUMPFILE", wordEdge tables]))]

def checkForbiddenConstructs (sql : List Char) : List String :=
  let searched := sqlUpper tables sql
  (if "INTO OUTFILE".toList <:+: searched ∨ "INTO DUMPFILE".toList <:+: searched then
      ["INTO OUTFILE/DUMPFILE writes to the database server filesystem"] else []) ++
    (if (search (selectInto tables) searched).isSome = true then
      ["SELECT ... INTO writes the result set outside the queried tables"] else []) ++
    ((sideEffectFunctions.filter fun function =>
      (search (callPattern tables function.toList) searched).isSome).map fun function =>
        function ++ "() reaches outside the queried tables and is not permitted")

def checkDangerousPatterns (sql : List Char) : List String :=
  let searched := upper tables sql
  (if "CROSS JOIN".toList <:+: searched then
      ["Query contains CROSS JOIN - may produce very large result set"] else []) ++
    if "PROCEDURE".toList <:+: searched ∨ "FUNCTION".toList <:+: searched then
      ["Query calls stored procedures/functions - verify they are read-only"] else []

end ReadOnly

/-- What `validate_sql_for_ask` returns; the last three are keys that only some returns have. -/
structure AskReport where
  isValid : Bool
  isSafe : Bool
  validatedSql : List Char
  issues : List String
  warnings : List String
  hasLimit : Bool
  limitValue : Option Nat
  dangerousKeywords : Option (List (List Char))
  limitAdded : Option Bool
  limitReduced : Option Bool
deriving DecidableEq

section Validate

variable (tables : Tables) (parse : List Char → Except String (List Statement)) (depth : Nat)

/-- A refusal leaves the statement as it is. -/
def refusal (sql : List Char) (issues : List String) (keywords : Option (List (List Char))) : AskReport :=
  ⟨false, false, sql, issues, [], false, none, keywords, none, none⟩

/-- `strip(";")`. -/
def stripSemicolons (text : List Char) : List Char :=
  ((text.dropWhile fun c => c == ';').reverse.dropWhile fun c => c == ';').reverse

def meaningful (statement : Statement) : Bool := strip (stripSemicolons (strip statement.text)) ≠ []

/-- The third step: what is wrong with the structure of the statement, if anything. -/
def structureIssue (sql : List Char) : Option String :=
  let checked : Except String (Option String) := do
    match ← parse sql with
    | [] => return some "Failed to parse SQL statement"
    | statement :: others =>
      if 1 < ((statement :: others).filter meaningful).length then return some "Only a single statement is allowed"
      else if ← isSelectStatement tables parse depth statement then return none
      else return some "Only SELECT statements are allowed"
  match checked with
  | .ok issue => issue
  | .error e => some ("SQL parsing error: " ++ e)

/-- The fourth and fifth steps, and the warnings of the sixth. -/
def limitStep (sql : List Char) (maxLimit defaultLimit : Nat) (enforceResultLimit : Bool) (dialect : List Char) :
    Except String AskReport := do
  let (hasLimit, limitValue) ← extractLimitClause tables sql dialect
  if enforceResultLimit = true ∧ hasLimit = false then
    let validated := injectLimit sql defaultLimit
    return ⟨true, true, validated, [],
      ("Added LIMIT " ++ toString defaultLimit ++ " to prevent unbounded results") ::
        checkDangerousPatterns tables validated, true, some defaultLimit, none, some true, some false⟩
  else if enforceResultLimit = true ∧ maxLimit < limitValue.getD 0 then
    let validated := replaceLimit tables sql maxLimit dialect
    return ⟨true, true, validated, [],
      ("Reduced LIMIT from " ++ toString (limitValue.getD 0) ++ " to maximum " ++ toString maxLimit) ::
        checkDangerousPatterns tables validated, hasLimit, some maxLimit, none, some false, some true⟩
  else
    return ⟨true, true, sql, [], checkDangerousPatterns tables sql, hasLimit, limitValue, none, some false, some false⟩

def validateSqlForAsk (sql : List Char) (maxLimit defaultLimit : Nat) (enforceResultLimit : Bool)
    (dialect : List Char) : Except String AskReport :=
  if strip sql = [] then .ok (refusal sql ["Empty or whitespace-only query"] none)
  else do
    let readOnly ← checkReadOnly tables parse depth sql
    if readOnly.isReadOnly = false then return refusal sql readOnly.issues (some readOnly.dangerousKeywords)
    else
      match structureIssue tables parse depth sql with
      | some issue => return refusal sql [issue] none
      | none =>
        let forbidden := checkForbiddenConstructs tables sql
        if forbidden ≠ [] then return refusal sql forbidden none
        else limitStep tables sql maxLimit defaultLimit enforceResultLimit dialect

variable {tables parse depth} {sql dialect : List Char} {maxLimit defaultLimit : Nat} {enforceResultLimit : Bool}
  {report : AskReport}

theorem checkReadOnly_found {check : ReadOnlyCheck} (returned : checkReadOnly tables parse depth sql = .ok check)
    (passed : check.isReadOnly = true) : dangerousFound tables sql = [] := by
  unfold checkReadOnly at returned
  by_contra found
  simp only [ne_eq, found, not_false_eq_true, if_true, Except.ok.injEq] at returned
  rw [← returned] at passed
  cases passed

/-- A statement that is reported safe passed the scan for write keywords and the one for forbidden constructs, and
the report is the one of the limit step. -/
theorem safe_spec (returned : validateSqlForAsk tables parse depth sql maxLimit defaultLimit enforceResultLimit dialect =
      .ok report) (safe : report.isSafe = true) :
    dangerousFound tables sql = [] ∧ checkForbiddenConstructs tables sql = [] ∧
      limitStep tables sql maxLimit defaultLimit enforceResultLimit dialect = .ok report := by
  have refused : ∀ issues keywords, (Except.ok (refusal sql issues keywords) : Except String AskReport) ≠ .ok report := by
    intro issues keywords same
    rw [← Except.ok.inj same] at safe
    cases safe
  unfold validateSqlForAsk at returned
  by_cases empty : strip sql = []
  · rw [if_pos empty] at returned
    exact absurd returned (refused _ _)
  · rw [if_neg empty] at returned
    cases checked : checkReadOnly tables parse depth sql with
    | error e =>
      rw [checked] at returned
      cases returned
    | ok check =>
      rw [checked] at returned
      simp only [bind, Except.bind, pure, Except.pure] at returned
      by_cases writes : check.isReadOnly = false
      · rw [if_pos writes] at returned
        exact absurd returned (refused _ _)
      · rw [if_neg writes] at returned
        cases issue : structureIssue tables parse depth sql with
        | some text =>
          rw [issue] at returned
          exact absurd returned (refused _ _)
        | none =>
          rw [issue] at returned
          simp only at returned
          by_cases forbidden : checkForbiddenConstructs tables sql = []
          · rw [if_neg (by simpa using forbidden)] at returned
            exact ⟨checkReadOnly_found checked (by simpa using writes), forbidden, returned⟩
          · rw [if_pos forbidden] at returned
            exact absurd returned (refused _ _)

end Validate

end Rdst.Ask
