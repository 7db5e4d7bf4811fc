import Rdst.Guard.Checker
import Rdst.Guard.Lineage

namespace Rdst.Guard

section Patterns

/-- One part of a pattern of `fnmatch`. -/
inductive Glob
  | any
  | single
  | set (negated : Bool) (ranges : List (Char × Char))
  | char (c : Char)
deriving DecidableEq

def setRanges : List Char → List (Char × Char)
  | first :: '-' :: last :: rest => (first, last) :: setRanges rest
  | c :: rest => (c, c) :: setRanges rest
  | [] => []

/-- What is listed after an opening bracket, and what comes after the closing one; a bracket that comes first is listed. -/
def setBody (text : List Char) : Option (List Char × List Char) :=
  let lead := if text.head? = some '!' then 1 else 0
  let lead := if (text.drop lead).head? = some ']' then lead + 1 else lead
  let width := lead + ((text.drop lead).takeWhile (· ≠ ']')).length
  match text.drop width with
  | _ :: after => some (text.take width, after)
  | [] => none

def globs : Nat → List Char → List Glob
  | 0, _ => []
  | _ + 1, [] => []
  | fuel + 1, c :: rest =>
    if c = '*' then .any :: globs fuel rest
    else if c = '?' then .single :: globs fuel rest
    else if c = '[' then
      match setBody rest with
      | some ('!' :: listed, after) => .set true (setRanges listed) :: globs fuel after
      | some (listed, after) => .set false (setRanges listed) :: globs fuel after
      | none => .char c :: globs fuel rest
    else .char c :: globs fuel rest

def matchesGlobs : List Glob → List Char → Bool
  | [], text => text.isEmpty
  | .any :: rest, text => text.tails.any (matchesGlobs rest)
  | .single :: rest, _ :: text => matchesGlobs rest text
  | .set negated ranges :: rest, c :: text => ((ranges.any fun r => r.1 ≤ c && c ≤ r.2) != negated) && matchesGlobs rest text
  | .char c' :: rest, c :: text => c == c' && matchesGlobs rest text
  | _ :: _, [] => false

def fnmatch (name pattern : List Char) : Bool := matchesGlobs (globs pattern.length pattern) name

end Patterns

section Checks

/-- What `sqlglot.parse_one` does, where it is installed. -/
inductive Parsed
  | missing
  | failed (error : String)
  | tree (query : Query)

/-- The parser, and the nodes of a query in the order in which it walks through them. -/
structure Sqlglot where
  parseOne : List Char → Parsed
  walk : Query → List Node

def Sqlglot.columns (sqlglot : Sqlglot) (query : Query) : List Name := (sqlglot.walk query).filterMap fun
  | .column name => some name
  | _ => none

def Sqlglot.tables (sqlglot : Sqlglot) (query : Query) : List Name := (sqlglot.walk query).filterMap fun
  | .table name => some name
  | _ => none

def Sqlglot.ctes (sqlglot : Sqlglot) (query : Query) : List Name := (sqlglot.walk query).filterMap fun
  | .cte name => some name
  | _ => none

/-- `', '.join`. -/
def joined (names : List Name) : String := ", ".intercalate (names.map String.ofList)

variable (lower : Name → Name) (sqlglot : Sqlglot)

def checkDeniedColumns (sql : List Char) (deniedColumns : List Name) : CheckResult :=
  match sqlglot.parseOne sql with
  | .missing => ⟨true, "warn", "denied_columns", "Could not check denied columns (sqlglot not installed)", none⟩
  | .failed error => ⟨false, "warn", "denied_columns", "Could not check denied columns: " ++ error, none⟩
  | .tree query =>
    let violations := ((sqlglot.columns query).map lower).filter fun name =>
      deniedColumns.any fun pattern => fnmatch name (lower pattern)
    if violations = [] then ⟨true, "info", "denied_columns", "No denied columns referenced", none⟩
    else ⟨false, "block", "denied_columns", "Denied column(s) referenced: " ++ joined violations,
      some "Remove references to restricted columns"⟩

def checkAllowedTables (sql : List Char) (allowedTables : List Name) : CheckResult :=
  match sqlglot.parseOne sql with
  | .missing => ⟨true, "warn", "allowed_tables", "Could not check allowed tables (sqlglot not installed)", none⟩
  | .failed error => ⟨false, "warn", "allowed_tables", "Could not check allowed tables: " ++ error, none⟩
  | .tree query =>
    let cteNames := ((sqlglot.ctes query).filter (· ≠ [])).map lower
    let allowedLower := allowedTables.map lower
    let violations := ((sqlglot.tables query).map lower).filter fun name => name ∉ cteNames ∧ name ∉ allowedLower
    if violations = [] then ⟨true, "info", "allowed_tables", "All tables are allowed", none⟩
    else ⟨false, "block", "allowed_tables", "Table(s) not in allowlist: " ++ joined violations,
      some ("Only these tables are allowed: " ++ joined allowedTables)⟩

end Checks

section Property

variable (lower : Name → Name)

/-- The pattern names the column, by itself or with its table. -/
def Denied (deniedColumns : List Name) (x : Carried) : Prop :=
  ∃ pattern ∈ deniedColumns, fnmatch (lower x.column) (lower pattern) = true ∨
    fnmatch (lower (x.table.name ++ '.' :: x.column)) (lower pattern) = true

/-- A pattern names the column by itself. -/
def DeniedName (deniedColumns : List Name) (name : Name) : Prop :=
  ∃ pattern ∈ deniedColumns, fnmatch (lower name) (lower pattern) = true

def TablesAllowed (allowedTables : List Name) (query : Query) : Prop :=
  ∀ t ∈ query.reads [], lower t.name ∈ allowedTables.map lower

def ColumnsKept (engine : Engine) (deniedColumns : List Name) (query : Query) : Prop :=
  ∀ column ∈ query.flow engine [] [], ∀ x ∈ column.2, ¬ Denied lower deniedColumns x

/-- A common table expression somewhere in the query has the name. -/
def CteNamed (query : Query) (name : Name) : Prop := ∃ cte, Node.cte cte ∈ query.nodes ∧ cte ≠ [] ∧ lower cte = lower name

end Property

section Claims

variable {lower : Name → Name} {sqlglot : Sqlglot} {sql : List Char} {query : Query}

/-- What is found of one kind is what the query has of it. -/
theorem mem_found {shown : Node → Option Name} {node : Name → Node} (kind : ∀ n name, shown n = some name ↔ n = node name)
    (walks : ∀ n, n ∈ sqlglot.walk query ↔ n ∈ query.nodes) (name : Name) :
    name ∈ (sqlglot.walk query).filterMap shown ↔ node name ∈ query.nodes := by
  rw [← walks, List.mem_filterMap]
  simp only [kind, exists_eq_right]

theorem mem_columns (walks : ∀ n, n ∈ sqlglot.walk query ↔ n ∈ query.nodes) (name : Name) :
    name ∈ sqlglot.columns query ↔ Node.column name ∈ query.nodes :=
  mem_found (by rintro (_ | _ | _) name <;> simp) walks name

theorem mem_tables (walks : ∀ n, n ∈ sqlglot.walk query ↔ n ∈ query.nodes) (name : Name) :
    name ∈ sqlglot.tables query ↔ Node.table name ∈ query.nodes :=
  mem_found (by rintro (_ | _ | _) name <;> simp) walks name

theorem mem_ctes (walks : ∀ n, n ∈ sqlglot.walk query ↔ n ∈ query.nodes) (name : Name) :
    name ∈ sqlglot.ctes query ↔ Node.cte name ∈ query.nodes :=
  mem_found (by rintro (_ | _ | _) name <;> simp) walks name

theorem deniedColumns_passes (walks : ∀ n, n ∈ sqlglot.walk query ↔ n ∈ query.nodes)
    (parsed : sqlglot.parseOne sql = .tree query) (deniedColumns : List Name) :
    (checkDeniedColumns lower sqlglot sql deniedColumns).passed = true ↔
      ∀ name, Node.column name ∈ query.nodes → ¬ DeniedName lower deniedColumns name := by
  have empty : (checkDeniedColumns lower sqlglot sql deniedColumns).passed = true ↔
      ((sqlglot.columns query).map lower).filter (fun name => deniedColumns.any fun pattern => fnmatch name (lower pattern)) = [] := by
    rw [checkDeniedColumns, parsed]
    simp only
    split <;> simp_all
  rw [empty, List.filter_eq_nil_iff]
  simp only [List.mem_map, forall_exists_index, and_imp, forall_apply_eq_imp_iff₂, mem_columns walks, List.any_eq_true, DeniedName]

theorem allowedTables_passes (walks : ∀ n, n ∈ sqlglot.walk query ↔ n ∈ query.nodes)
    (parsed : sqlglot.parseOne sql = .tree query) (allowedTables : List Name) :
    (checkAllowedTables lower sqlglot sql allowedTables).passed = true ↔
      ∀ name, Node.table name ∈ query.nodes → ¬ CteNamed lower query name → lower name ∈ allowedTables.map lower := by
  have named : ∀ name, lower name ∈ ((sqlglot.ctes query).filter (· ≠ [])).map lower ↔ CteNamed lower query name := by
    intro name
    simp only [List.mem_map, List.mem_filter, mem_ctes walks, decide_eq_true_eq, CteNamed, and_assoc]
  have empty : (checkAllowedTables lower sqlglot sql allowedTables).passed = true ↔
      ((sqlglot.tables query).map lower).filter (fun name => name ∉ ((sqlglot.ctes query).filter (· ≠ [])).map lower ∧
        name ∉ allowedTables.map lower) = [] := by
    rw [checkAllowedTables, parsed]
    simp only
    split <;> simp_all
  rw [empty, List.filter_eq_nil_iff]
  simp only [List.mem_map (l := sqlglot.tables query), forall_exists_index, and_imp, forall_apply_eq_imp_iff₂, mem_tables walks,
    decide_eq_true_eq, named, not_and, not_not]

/-- The names of columns that the query writes. -/
def written (query : Query) : List Name := query.nodes.filterMap fun
  | .column name => some name
  | _ => none

theorem mem_written (query : Query) (name : Name) : name ∈ written query ↔ Node.column name ∈ query.nodes :=
  @mem_columns ⟨fun _ => .missing, Query.nodes⟩ query (fun _ => Iff.rfl) name

/-- A common table expression of a subquery has the name of the table that the query reads. -/
def shadowed : Query :=
  .select [] [.value (.column none "id".toList) "id".toList] [.table none "secrets".toList "secrets".toList []]
    (some (.call .isIn [.column none "id".toList,
      .subquery (.select
        [.mk "secrets".toList [] false (.select [] [.value .constant "id".toList] [.table none "users".toList "users".toList []] none [])]
        [.value (.column none "id".toList) "id".toList] [.table none "secrets".toList "secrets".toList []] none [])])) []

def shadowedText : List Char :=
  "SELECT id FROM secrets WHERE id IN (WITH secrets AS (SELECT 1 AS id FROM users) SELECT id FROM secrets)".toList

def everything : Query := .select [] [.all] [.table none "users".toList "users".toList []] none []

def everythingText : List Char := "SELECT * FROM users".toList

def numbers : Query :=
  .select [] [.value (.column none "id".toList) "id".toList] [.table none "users".toList "users".toList []] none []

def numbersText : List Char := "SELECT id FROM users".toList

/-- A parser that knows these texts. -/
def threeTexts : Sqlglot where
  parseOne sql :=
    match [(shadowedText, shadowed), (everythingText, everything), (numbersText, numbers)].lookup sql with
    | some query => .tree query
    | none => .failed "Invalid expression / Unexpected token"
  walk := Query.nodes

def usersEngine : Engine where
  columns t := if t.name = "users".toList then ["id".toList, "ssn".toList] else ["id".toList]
  functionColumns _ := []
  hands _ := true

def asciiLower (name : Name) : Name := name.map Char.toLower

end Claims

end Rdst.Guard
