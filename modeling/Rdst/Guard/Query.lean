import Mathlib.Data.List.Basic
import Rdst.Lib.Letters

/-! A query as its parser gives it, and what an engine reads in it. -/

namespace Rdst.Guard

abbrev Name := List Char

inductive Operation
  | eq | neq | gt | gte | lt | lte | isIn | like | between | is
  | and | or | not
  | function (name : Name)
deriving DecidableEq

inductive SetOperation
  | union
  | intersect
  | except
deriving DecidableEq

mutual

inductive Query
  | select (withs : List With) (items : List Item) (sources : List Source) (filter : Option Expr) (conditions : List Expr)
  | combined (operation : SetOperation) (withs : List With) (left right : Query)

/-- A common table expression; one that is recursive sees itself. -/
inductive With
  | mk (name : Name) (columns : List Name) (recursive : Bool) (body : Query)

inductive Item
  | all
  | every (source : Name)
  | value (expr : Expr) (name : Name)

/-- What stands in a `FROM` or a `JOIN`, the name it is known by, and the names that it gives to its first columns. -/
inductive Source
  | table (schema : Option Name) (name known : Name) (columns : List Name)
  | derived (query : Query) (lateral : Bool) (known : Name) (columns : List Name)
  | call (function : Name) (args : List Expr) (known : Name) (columns : List Name)

inductive Expr
  | constant
  | column (source : Option Name) (name : Name)
  | row (source : Name)
  | call (operation : Operation) (args : List Expr)
  | subquery (query : Query)

end

section Nodes

/-- The nodes that the checks look for, with what they read of them: `table.name`, `col.name` and `cte.alias`. -/
inductive Node
  | table (name : Name)
  | column (name : Name)
  | cte (name : Name)
deriving DecidableEq

def star : Name := ['*']

mutual

/-- The nodes of the whole query. A function in a `FROM` is a table with no name, and `t.*` a column of the name `*`. -/
def Query.nodes : Query → List Node
  | .select withs items sources filter conditions =>
    withNodes withs ++ itemNodes items ++ sourceNodes sources ++ filterNodes filter ++ exprNodes conditions
  | .combined _ withs left right => withNodes withs ++ left.nodes ++ right.nodes

def withNodes : List With → List Node
  | [] => []
  | .mk name _ _ body :: rest => .cte name :: (body.nodes ++ withNodes rest)

def itemNodes : List Item → List Node
  | [] => []
  | .all :: rest => itemNodes rest
  | .every _ :: rest => .column star :: itemNodes rest
  | .value expr _ :: rest => expr.nodes ++ itemNodes rest

def sourceNodes : List Source → List Node
  | [] => []
  | .table _ name _ _ :: rest => .table name :: sourceNodes rest
  | .derived query _ _ _ :: rest => query.nodes ++ sourceNodes rest
  | .call _ args _ _ :: rest => .table [] :: (exprNodes args ++ sourceNodes rest)

def filterNodes : Option Expr → List Node
  | none => []
  | some expr => expr.nodes

def exprNodes : List Expr → List Node
  | [] => []
  | expr :: rest => expr.nodes ++ exprNodes rest

def Expr.nodes : Expr → List Node
  | .constant => []
  | .column _ name => [.column name]
  | .row _ => [.column star]
  | .call _ args => exprNodes args
  | .subquery query => query.nodes

end

end Nodes

section Tables

structure BaseTable where
  schema : Option Name
  name : Name
deriving DecidableEq

/-- The names that are of common table expressions after these. -/
def withNames (ctes : List Name) : List With → List Name
  | [] => ctes
  | .mk name _ _ _ :: rest => withNames (name :: ctes) rest

mutual

/-- The base tables that a query reads in any of its scopes, where these names are of common table expressions. -/
def Query.reads (ctes : List Name) : Query → List BaseTable
  | .select withs items sources filter conditions =>
    let inner := withNames ctes withs
    withReads ctes withs ++ itemReads inner items ++ sourceReads inner sources ++ filterReads inner filter ++
      exprReads inner conditions
  | .combined _ withs left right =>
    let inner := withNames ctes withs
    withReads ctes withs ++ left.reads inner ++ right.reads inner

/-- The body of one reads the expressions before it, and itself if it is recursive. -/
def withReads (ctes : List Name) : List With → List BaseTable
  | [] => []
  | .mk name _ recursive body :: rest =>
    body.reads (if recursive = true then name :: ctes else ctes) ++ withReads (name :: ctes) rest

def itemReads (ctes : List Name) : List Item → List BaseTable
  | [] => []
  | .all :: rest | .every _ :: rest => itemReads ctes rest
  | .value expr _ :: rest => expr.reads ctes ++ itemReads ctes rest

def sourceReads (ctes : List Name) : List Source → List BaseTable
  | [] => []
  | .table schema name _ _ :: rest =>
    (if schema = none ∧ name ∈ ctes then [] else [⟨schema, name⟩]) ++ sourceReads ctes rest
  | .derived query _ _ _ :: rest => query.reads ctes ++ sourceReads ctes rest
  | .call _ args _ _ :: rest => exprReads ctes args ++ sourceReads ctes rest

def filterReads (ctes : List Name) : Option Expr → List BaseTable
  | none => []
  | some expr => expr.reads ctes

def exprReads (ctes : List Name) : List Expr → List BaseTable
  | [] => []
  | expr :: rest => expr.reads ctes ++ exprReads ctes rest

def Expr.reads (ctes : List Name) : Expr → List BaseTable
  | .constant | .column _ _ | .row _ => []
  | .call _ args => exprReads ctes args
  | .subquery query => query.reads ctes

end

mutual

/-- What is read is a table of the query. -/
theorem Query.reads_table {ctes : List Name} {t : BaseTable} : (q : Query) → t ∈ q.reads ctes → Node.table t.name ∈ q.nodes
  | .select withs items sources filter conditions, member => by
    simp only [Query.reads, List.mem_append] at member
    simp only [Query.nodes, List.mem_append]
    rcases member with (((with_ | item) | source) | filtered) | condition
    · exact .inl (.inl (.inl (.inl (withs_table withs with_))))
    · exact .inl (.inl (.inl (.inr (items_table items item))))
    · exact .inl (.inl (.inr (sources_table sources source)))
    · exact .inl (.inr (filter_table filter filtered))
    · exact .inr (exprs_table conditions condition)
  | .combined _ withs left right, member => by
    simp only [Query.reads, List.mem_append] at member
    simp only [Query.nodes, List.mem_append]
    rcases member with (with_ | first) | second
    · exact .inl (.inl (withs_table withs with_))
    · exact .inl (.inr (left.reads_table first))
    · exact .inr (right.reads_table second)

theorem withs_table {ctes : List Name} {t : BaseTable} : (withs : List With) → t ∈ withReads ctes withs →
    Node.table t.name ∈ withNodes withs
  | .mk name _ recursive body :: rest, member => by
    simp only [withReads, List.mem_append] at member
    simp only [withNodes, List.mem_cons, List.mem_append]
    rcases member with here | later
    · exact .inr (.inl (body.reads_table here))
    · exact .inr (.inr (withs_table rest later))

theorem items_table {ctes : List Name} {t : BaseTable} : (items : List Item) → t ∈ itemReads ctes items →
    Node.table t.name ∈ itemNodes items
  | .all :: rest, member => items_table rest member
  | .every _ :: rest, member => List.mem_cons_of_mem _ (items_table rest member)
  | .value expr _ :: rest, member => by
    simp only [itemReads, List.mem_append] at member
    rcases member with here | later
    · exact List.mem_append_left _ (expr.reads_table here)
    · exact List.mem_append_right _ (items_table rest later)

theorem sources_table {ctes : List Name} {t : BaseTable} : (sources : List Source) → t ∈ sourceReads ctes sources →
    Node.table t.name ∈ sourceNodes sources
  | .table schema name _ _ :: rest, member => by
    simp only [sourceReads, List.mem_append] at member
    rcases member with here | later
    · split at here
      · cases here
      · rw [List.mem_singleton.mp here]
        exact List.mem_cons_self
    · exact List.mem_cons_of_mem _ (sources_table rest later)
  | .derived query _ _ _ :: rest, member => by
    simp only [sourceReads, List.mem_append] at member
    rcases member with here | later
    · exact List.mem_append_left _ (query.reads_table here)
    · exact List.mem_append_right _ (sources_table rest later)
  | .call _ args _ _ :: rest, member => by
    simp only [sourceReads, List.mem_append] at member
    simp only [sourceNodes, List.mem_cons, List.mem_append]
    rcases member with here | later
    · exact .inr (.inl (exprs_table args here))
    · exact .inr (.inr (sources_table rest later))

theorem filter_table {ctes : List Name} {t : BaseTable} : (filter : Option Expr) → t ∈ filterReads ctes filter →
    Node.table t.name ∈ filterNodes filter
  | some expr, member => expr.reads_table member

theorem exprs_table {ctes : List Name} {t : BaseTable} : (exprs : List Expr) → t ∈ exprReads ctes exprs →
    Node.table t.name ∈ exprNodes exprs
  | expr :: rest, member => by
    simp only [exprReads, List.mem_append] at member
    rcases member with here | later
    · exact List.mem_append_left _ (expr.reads_table here)
    · exact List.mem_append_right _ (exprs_table rest later)

theorem Expr.reads_table {ctes : List Name} {t : BaseTable} : (expr : Expr) → t ∈ expr.reads ctes → Node.table t.name ∈ expr.nodes
  | .call _ args, member => exprs_table args member
  | .subquery query, member => query.reads_table member

end

end Tables

end Rdst.Guard
