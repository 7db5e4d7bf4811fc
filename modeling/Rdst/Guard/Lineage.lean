import Mathlib.Logic.Function.Iterate
import Rdst.Guard.Query

/-! Which columns of the base tables the columns of a query carry. -/

namespace Rdst.Guard

/-- A column of a base table, `hidden` where it came by a `*`, by its whole row or by another name for it. -/
structure Carried where
  table : BaseTable
  column : Name
  hidden : Bool
deriving DecidableEq

/-- The columns of a result, each with what it carries. -/
abbrev Row := List (Name × List Carried)

/-- The sources of one scope under the names they are known by. -/
abbrev Scope := List (Name × Row)

/-- What the engine knows: the columns of its tables and functions, and which operations hand their arguments on. -/
structure Engine where
  columns : BaseTable → List Name
  functionColumns : Name → List Name
  hands : Operation → Bool

def hide (carried : List Carried) : List Carried := carried.map fun x => { x with hidden := true }

def Row.hidden (row : Row) : Row := row.map fun column => (column.1, hide column.2)

/-- The value of a whole row. -/
def Row.whole (row : Row) : List Carried := row.flatMap fun column => hide column.2

def Row.column (row : Row) (name : Name) : List Carried := row.flatMap fun column => if column.1 = name then column.2 else []

/-- The row with other names for its first columns. -/
def Row.rename : List Name → Row → Row
  | name :: names, column :: rest => (name, hide column.2) :: Row.rename names rest
  | _, row => row

def baseRow (engine : Engine) (table : BaseTable) : Row := (engine.columns table).map fun name => (name, [⟨table, name, false⟩])

def sourceRow (scopes : List Scope) (source : Name) : Row := (scopes.findSome? fun scope => scope.lookup source).getD []

/-- A name is that of a column in the nearest scope that has one, else of a source and then its whole row. -/
def resolve (scopes : List Scope) (source : Option Name) (name : Name) : List Carried :=
  match source with
  | some source => (sourceRow scopes source).column name
  | none =>
    match scopes.find? fun scope => scope.any fun source => source.2.any fun column => column.1 == name with
    | some scope => scope.flatMap fun source => source.2.column name
    | none => (sourceRow scopes name).whole

/-- The columns of a set operation are named by its left side; `EXCEPT` takes its values from there too. -/
def combine (operation : SetOperation) : Row → Row → Row
  | column :: left, other :: right =>
    (column.1, column.2 ++ if operation = .except then [] else other.2) :: combine operation left right
  | left, _ => left

mutual

/-- The columns of a query's result, with what they carry. -/
def Query.flow (engine : Engine) (ctes : Scope) (outer : List Scope) : Query → Row
  | .select withs items sources _ _ =>
    let inner := withFlow engine ctes outer withs
    let scope := sourceFlow engine inner outer [] sources
    itemFlow engine inner (scope :: outer) scope items
  | .combined operation withs left right =>
    let inner := withFlow engine ctes outer withs
    combine operation (left.flow engine inner outer) (right.flow engine inner outer)

/-- The rows of the common table expressions. One that is recursive is read until nothing more comes in by itself: a
    value passes through each of its columns at most once. -/
def withFlow (engine : Engine) (ctes : Scope) (outer : List Scope) : List With → Scope
  | [] => ctes
  | .mk name columns recursive body :: rest =>
    let once := fun own : Row => Row.rename columns (body.flow engine ((name, own) :: ctes) outer)
    let row := if recursive = true then once^[(once []).length] (once [])
      else Row.rename columns (body.flow engine ctes outer)
    withFlow engine ((name, row) :: ctes) outer rest

def itemFlow (engine : Engine) (ctes : Scope) (scopes : List Scope) (scope : Scope) : List Item → Row
  | [] => []
  | .all :: rest => scope.flatMap (fun source => source.2.hidden) ++ itemFlow engine ctes scopes scope rest
  | .every source :: rest => (sourceRow scopes source).hidden ++ itemFlow engine ctes scopes scope rest
  | .value expr name :: rest => (name, expr.flow engine ctes scopes) :: itemFlow engine ctes scopes scope rest

/-- The sources one after the other; a lateral one and a function see those before them. -/
def sourceFlow (engine : Engine) (ctes : Scope) (outer : List Scope) (before : Scope) : List Source → Scope
  | [] => before
  | .table schema name known columns :: rest =>
    let row := match if schema = none then ctes.lookup name else none with
      | some row => row
      | none => baseRow engine ⟨schema, name⟩
    sourceFlow engine ctes outer (before ++ [(known, Row.rename columns row)]) rest
  | .derived query lateral known columns :: rest =>
    let row := query.flow engine ctes (if lateral = true then before :: outer else outer)
    sourceFlow engine ctes outer (before ++ [(known, Row.rename columns row)]) rest
  | .call function args known columns :: rest =>
    let carried := if engine.hands (.function function) = true then exprFlow engine ctes (before :: outer) args else []
    let row := (engine.functionColumns function).map fun name => (name, carried)
    sourceFlow engine ctes outer (before ++ [(known, Row.rename columns row)]) rest

def exprFlow (engine : Engine) (ctes : Scope) (scopes : List Scope) : List Expr → List Carried
  | [] => []
  | expr :: rest => expr.flow engine ctes scopes ++ exprFlow engine ctes scopes rest

def Expr.flow (engine : Engine) (ctes : Scope) (scopes : List Scope) : Expr → List Carried
  | .constant => []
  | .column source name => resolve scopes source name
  | .row source => (sourceRow scopes source).whole
  | .call operation args => if engine.hands operation = true then exprFlow engine ctes scopes args else []
  | .subquery query => (query.flow engine ctes scopes).flatMap Prod.snd

end

section Written

/-- What is not hidden has its name among these. -/
def Named (names : List Name) (carried : List Carried) : Prop := ∀ x ∈ carried, x.hidden = false → x.column ∈ names

/-- Each column carries only what has its name among these. -/
def Row.Named (names : List Name) (row : Row) : Prop := ∀ column ∈ row, Guard.Named names column.2

/-- Each column carries its own name, or what has its name among these. -/
def Row.Own (names : List Name) (row : Row) : Prop := ∀ column ∈ row, Guard.Named (column.1 :: names) column.2

def Scope.Own (names : List Name) (scope : Scope) : Prop := ∀ source ∈ scope, Row.Own names source.2

variable {engine : Engine} {names : List Name}

theorem named_hide (carried : List Carried) : Named names (hide carried) := by
  intro x member visible
  obtain ⟨y, -, rfl⟩ := List.mem_map.mp member
  cases visible

theorem Row.Named.own {row : Row} (named : Row.Named names row) : Row.Own names row :=
  fun column member x carried visible => List.mem_cons_of_mem _ (named column member x carried visible)

theorem Named.append {first second : List Carried} (named : Named names first) (named' : Named names second) :
    Named names (first ++ second) := by
  intro x member
  rcases List.mem_append.mp member with left | right
  · exact named x left
  · exact named' x right

theorem hidden_named (row : Row) : Row.Named names row.hidden := by
  intro column member
  obtain ⟨column, -, rfl⟩ := List.mem_map.mp member
  exact named_hide column.2

theorem whole_named (row : Row) : Named names row.whole := by
  intro x member
  obtain ⟨column, -, carried⟩ := List.mem_flatMap.mp member
  exact named_hide column.2 x carried

theorem rename_named {row : Row} (columns : List Name) (named : Row.Named names row) : Row.Named names (Row.rename columns row) := by
  fun_induction Row.rename columns row with
  | case1 name columns column rest ih =>
    intro other member
    rcases List.mem_cons.mp member with rfl | later
    · exact named_hide column.2
    · exact ih (fun column member => named column (List.mem_cons_of_mem _ member)) other later
  | case2 => exact named

theorem rename_own {row : Row} (columns : List Name) (own : Row.Own names row) : Row.Own names (Row.rename columns row) := by
  fun_induction Row.rename columns row with
  | case1 name columns column rest ih =>
    intro other member
    rcases List.mem_cons.mp member with rfl | later
    · exact named_hide column.2
    · exact ih (fun column member => own column (List.mem_cons_of_mem _ member)) other later
  | case2 => exact own

theorem baseRow_own (table : BaseTable) : Row.Own names (baseRow engine table) := by
  intro column member x carried _
  obtain ⟨name, -, rfl⟩ := List.mem_map.mp member
  rw [List.mem_singleton.mp carried]
  exact List.mem_cons_self

theorem column_named {row : Row} (own : Row.Own names row) {name : Name} (written : name ∈ names) : Named names (row.column name) := by
  intro x member visible
  obtain ⟨column, listed, carried⟩ := List.mem_flatMap.mp member
  split at carried
  · rename_i same
    rcases List.mem_cons.mp (own column listed x carried visible) with here | other
    · rw [here, same]
      exact written
    · exact other
  · cases carried

theorem lookup_mem {rows : Scope} {name : Name} {row : Row} (found : rows.lookup name = some row) : (name, row) ∈ rows := by
  obtain ⟨front, back, split, -⟩ := List.lookup_eq_some_iff.mp found
  rw [split]
  exact List.mem_append_right front List.mem_cons_self

theorem sourceRow_own {scopes : List Scope} (own : ∀ scope ∈ scopes, Scope.Own names scope) (source : Name) :
    Row.Own names (sourceRow scopes source) := by
  rw [sourceRow]
  cases found : scopes.findSome? fun scope => scope.lookup source with
  | none => exact nofun
  | some row =>
    obtain ⟨scope, member, here⟩ := List.exists_of_findSome?_eq_some found
    exact own scope member _ (lookup_mem here)

theorem resolve_named {scopes : List Scope} (own : ∀ scope ∈ scopes, Scope.Own names scope) (source : Option Name) {name : Name}
    (written : name ∈ names) : Named names (resolve scopes source name) := by
  cases source with
  | some source => exact column_named (sourceRow_own own source) written
  | none =>
    simp only [resolve]
    split
    · rename_i scope found
      intro x member
      obtain ⟨source, listed, carried⟩ := List.mem_flatMap.mp member
      exact column_named (own scope (List.mem_of_find?_eq_some found) source listed) written x carried
    · exact whole_named _

theorem combine_named (operation : SetOperation) {left right : Row} (named : Row.Named names left) (named' : Row.Named names right) :
    Row.Named names (combine operation left right) := by
  fun_induction combine operation left right with
  | case1 column left other right ih =>
    intro result member
    rcases List.mem_cons.mp member with rfl | later
    · apply (named column List.mem_cons_self).append
      split
      · exact nofun
      · exact named' other List.mem_cons_self
    · exact ih (fun c m => named c (List.mem_cons_of_mem _ m)) (fun c m => named' c (List.mem_cons_of_mem _ m)) result later
  | case2 => exact named

theorem lookup_own {ctes : Scope} (named : ∀ cte ∈ ctes, Row.Named names cte.2) (table : BaseTable) :
    Row.Own names (match if table.schema = none then ctes.lookup table.name else none with
      | some row => row
      | none => baseRow engine table) := by
  split
  · rename_i row found
    split at found
    · exact (named _ (lookup_mem found)).own
    · cases found
  · exact baseRow_own table

/-- The names of columns that are written in a query are among these. -/
def Lists (names : List Name) (nodes : List Node) : Prop := ∀ name, Node.column name ∈ nodes → name ∈ names

mutual

/-- What a query's result carries by no hidden way is written in the query. -/
theorem Query.flow_named {ctes : Scope} {outer : List Scope} (hctes : ∀ cte ∈ ctes, Row.Named names cte.2)
    (houter : ∀ scope ∈ outer, Scope.Own names scope) :
    (q : Query) → Lists names q.nodes → Row.Named names (q.flow engine ctes outer)
  | .select withs items sources filter conditions, lists => by
    have inner := withFlow_named hctes houter withs fun n m => lists n (by simp [Query.nodes, m])
    have scope := sourceFlow_own inner houter sources (show Scope.Own names [] from nofun) fun n m => lists n (by simp [Query.nodes, m])
    exact itemFlow_named inner (List.forall_mem_cons.mpr ⟨scope, houter⟩) scope items fun n m => lists n (by simp [Query.nodes, m])
  | .combined operation withs left right, lists => by
    have inner := withFlow_named hctes houter withs fun n m => lists n (by simp [Query.nodes, m])
    exact combine_named operation (left.flow_named inner houter fun n m => lists n (by simp [Query.nodes, m]))
      (right.flow_named inner houter fun n m => lists n (by simp [Query.nodes, m]))

theorem withFlow_named {ctes : Scope} {outer : List Scope} (hctes : ∀ cte ∈ ctes, Row.Named names cte.2)
    (houter : ∀ scope ∈ outer, Scope.Own names scope) :
    (withs : List With) → Lists names (withNodes withs) → ∀ cte ∈ withFlow engine ctes outer withs, Row.Named names cte.2
  | [], _ => hctes
  | .mk name columns recursive body :: rest, lists => by
    have inside : Lists names body.nodes := fun n m => lists n (by simp [withNodes, m])
    have later : Lists names (withNodes rest) := fun n m => lists n (by simp [withNodes, m])
    have once : ∀ own : Row, Row.Named names own →
        Row.Named names (Row.rename columns (body.flow engine ((name, own) :: ctes) outer)) := fun own hown =>
      rename_named columns (body.flow_named (List.forall_mem_cons.mpr ⟨hown, hctes⟩) houter inside)
    apply withFlow_named _ houter rest later
    apply List.forall_mem_cons.mpr ⟨_, hctes⟩
    change Row.Named names (if recursive = true then _ else _)
    split
    · exact @Function.Iterate.rec Row (Row.Named names) _ (once [] nofun) _ once _
    · exact rename_named columns (body.flow_named hctes houter inside)

theorem itemFlow_named {ctes : Scope} {scopes : List Scope} {scope : Scope} (hctes : ∀ cte ∈ ctes, Row.Named names cte.2)
    (hscopes : ∀ scope ∈ scopes, Scope.Own names scope) (hscope : Scope.Own names scope) :
    (items : List Item) → Lists names (itemNodes items) → Row.Named names (itemFlow engine ctes scopes scope items)
  | [], _ => nofun
  | .all :: rest, lists => by
    apply List.forall_mem_append.mpr ⟨_, itemFlow_named hctes hscopes hscope rest lists⟩
    intro column member
    obtain ⟨source, -, here⟩ := List.mem_flatMap.mp member
    exact hidden_named source.2 column here
  | .every source :: rest, lists =>
    List.forall_mem_append.mpr ⟨hidden_named _,
      itemFlow_named hctes hscopes hscope rest fun n m => lists n (List.mem_cons_of_mem _ m)⟩
  | .value expr name :: rest, lists =>
    List.forall_mem_cons.mpr ⟨expr.flow_named hctes hscopes fun n m => lists n (List.mem_append_left _ m),
      itemFlow_named hctes hscopes hscope rest fun n m => lists n (List.mem_append_right _ m)⟩

theorem sourceFlow_own {ctes : Scope} {outer : List Scope} (hctes : ∀ cte ∈ ctes, Row.Named names cte.2)
    (houter : ∀ scope ∈ outer, Scope.Own names scope) :
    (sources : List Source) → {before : Scope} → Scope.Own names before → Lists names (sourceNodes sources) →
      Scope.Own names (sourceFlow engine ctes outer before sources)
  | [], _, hbefore, _ => hbefore
  | .table schema name known columns :: rest, before, hbefore, lists => by
    apply sourceFlow_own hctes houter rest _ fun n m => lists n (List.mem_cons_of_mem _ m)
    apply List.forall_mem_append.mpr ⟨hbefore, List.forall_mem_singleton.mpr _⟩
    exact rename_own columns (lookup_own hctes ⟨schema, name⟩)
  | .derived query lateral known columns :: rest, before, hbefore, lists => by
    apply sourceFlow_own hctes houter rest _ fun n m => lists n (List.mem_append_right _ m)
    apply List.forall_mem_append.mpr ⟨hbefore, List.forall_mem_singleton.mpr _⟩
    apply rename_own columns (Row.Named.own (query.flow_named hctes _ fun n m => lists n (List.mem_append_left _ m)))
    split
    · exact List.forall_mem_cons.mpr ⟨hbefore, houter⟩
    · exact houter
  | .call function args known columns :: rest, before, hbefore, lists => by
    apply sourceFlow_own hctes houter rest _ fun n m => lists n (List.mem_cons_of_mem _ (List.mem_append_right _ m))
    apply List.forall_mem_append.mpr ⟨hbefore, List.forall_mem_singleton.mpr _⟩
    apply rename_own columns (Row.Named.own _)
    intro column member
    obtain ⟨name, -, rfl⟩ := List.mem_map.mp member
    simp only
    split
    · exact exprFlow_named hctes (List.forall_mem_cons.mpr ⟨hbefore, houter⟩) args
        fun n m => lists n (List.mem_cons_of_mem _ (List.mem_append_left _ m))
    · exact nofun

theorem exprFlow_named {ctes : Scope} {scopes : List Scope} (hctes : ∀ cte ∈ ctes, Row.Named names cte.2)
    (hscopes : ∀ scope ∈ scopes, Scope.Own names scope) :
    (exprs : List Expr) → Lists names (exprNodes exprs) → Named names (exprFlow engine ctes scopes exprs)
  | [], _ => nofun
  | expr :: rest, lists =>
    (expr.flow_named hctes hscopes fun n m => lists n (List.mem_append_left _ m)).append
      (exprFlow_named hctes hscopes rest fun n m => lists n (List.mem_append_right _ m))

theorem Expr.flow_named {ctes : Scope} {scopes : List Scope} (hctes : ∀ cte ∈ ctes, Row.Named names cte.2)
    (hscopes : ∀ scope ∈ scopes, Scope.Own names scope) :
    (expr : Expr) → Lists names expr.nodes → Named names (expr.flow engine ctes scopes)
  | .constant, _ => nofun
  | .column source name, lists => resolve_named hscopes source (lists name List.mem_cons_self)
  | .row source, _ => whole_named _
  | .call operation args, lists => by
    rw [Expr.flow]
    split
    · exact exprFlow_named hctes hscopes args lists
    · exact nofun
  | .subquery query, lists => by
    intro x member
    obtain ⟨column, listed, carried⟩ := List.mem_flatMap.mp member
    exact query.flow_named hctes hscopes lists column listed x carried

end

end Written

end Rdst.Guard
