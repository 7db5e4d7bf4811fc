import Mathlib.Data.List.Sort
import Rdst.Lib.Roster
import Rdst.Safety.QueryGate

namespace Rdst.Monitor.StatementNames

open PyText Regex Assoc Roster

abbrev Text := List Char

section Statements

def texts (words : List String) : List Text := words.map String.toList

def writeVerbs : List Text := texts ["INSERT", "UPDATE", "DELETE", "MERGE", "REPLACE", "UPSERT", "COPY"]

def ddlVerbs : List Text := texts ["CREATE", "DROP", "ALTER", "TRUNCATE", "RENAME", "COMMENT", "GRANT", "REVOKE"]

def maintenanceVerbs : List Text :=
  texts ["ANALYZE", "VACUUM", "REINDEX", "CLUSTER", "OPTIMIZE", "CHECKPOINT", "REFRESH", "LOCK", "CHECK", "CHECKSUM"]

def readVerbs : List Text := texts ["SELECT", "WITH", "VALUES", "TABLE"]

def notNames : List Text := texts ["select", "lateral", "unnest", "generate_series", "only", "if", "exists"]

variable (tables : Tables)

/-- `_COMMENT`, after `^`. -/
def comment : Pattern Char :=
  .seq spaces (.star (.alt (sequence [text "/*", .lazyStar (.char fun _ => true), text "*/", spaces])
    (sequence [text "--", .star (.char (· != '\n')), text "\n", spaces])))

def letterOrUnderscore (c : Char) : Bool := c.isAlpha || c == '_'

def anyOf (words : List String) : Pattern Char := choice (words.map anyCase)

def aggregate : Pattern Char :=
  sequence [wordEdge tables, .group 1 (anyOf ["count", "sum", "avg", "min", "max", "string_agg", "array_agg", "json_agg"]), spaces,
    text "("]

def between (opening closing : Char) : Pattern Char :=
  sequence [.char (· == opening), plus (.char (· != closing)), .char (· == closing)]

def identPart : Pattern Char :=
  choice [between '"' '"', between '\x60' '\x60', between '[' ']', plus (.char fun c => isWord tables c || c == '$')]

/-- `_IDENT` -/
def ident : Pattern Char := .seq (identPart tables) (.star (sequence [spaces, text ".", spaces, identPart tables]))

def tablesPattern : Pattern Char :=
  sequence [wordEdge tables, anyOf ["from", "join", "into", "update", "table"], someSpaces,
    optional (.seq (anyCase "only") someSpaces), .group 1 (ident tables)]

def onTable : Pattern Char :=
  sequence [wordEdge tables, anyCase "on", someSpaces, optional (.seq (anyCase "only") someSpaces), .group 1 (ident tables)]

def whereColumn : Pattern Char :=
  sequence [wordEdge tables, anyCase "where", someSpaces, optional (.seq (anyCase "not") someSpaces), optional (text "("), spaces,
    .group 1 (ident tables)]

/-- `_DDL_OBJECT`, after `^`. -/
def ddlObject : Pattern Char :=
  sequence [spaces, .group 1 (anyOf ["create", "drop", "alter", "truncate"]), someSpaces,
    optional (sequence [anyCase "or", someSpaces, anyCase "replace", someSpaces]),
    optional (.seq (anyCase "unique") someSpaces), optional (.seq (anyCase "materialized") someSpaces),
    optional (.group 2 (anyOf ["index", "table", "view", "sequence", "schema", "function", "trigger", "type", "extension"])),
    spaces, optional (.seq (anyCase "concurrently") someSpaces),
    optional (sequence [anyCase "if", someSpaces, optional (.seq (anyCase "not") someSpaces), anyCase "exists", someSpaces]),
    optional (.group 3 (ident tables))]

def sideEffect : Pattern Char :=
  sequence [wordEdge tables,
    .group 1 (anyOf (Safety.sideEffectFunctions.insertionSort fun a b => b.length ≤ a.length)), spaces, text "("]

def ctePattern : Pattern Char :=
  sequence [.alt (sequence [wordEdge tables, anyCase "with", someSpaces, optional (.seq (anyCase "recursive") someSpaces)])
      (.seq (text ",") spaces),
    .group 1 (plus (.char (isWord tables))), someSpaces, anyCase "as", spaces, text "("]

/-- `match.group(number)` -/
def groupText (body : Text) (found : Cursor Char × Cursor Char) (number : Nat) : Option Text :=
  (found.2.span number).map fun span => (body.take span.2).drop span.1

def stripComments (sql : Text) : Text :=
  strip (match matchAt comment (start sql) with
    | some d => d.rest
    | none => sql)

/-- `identifier.strip('"`[]')` of what follows the last dot. -/
def lastName (identifier : Text) : Text :=
  let identifier := strip identifier
  let last := match (finditer (matchAt (sequence [spaces, text ".", spaces])) identifier).getLast? with
    | some dot => dot.2.rest
    | none => identifier
  let mark := fun c => c ∈ ['"', '\x60', '[', ']']
  ((last.dropWhile fun c => mark c).reverse.dropWhile fun c => mark c).reverse

def verb (sql : Text) : Text := upper tables ((stripComments sql).takeWhile letterOrUnderscore)

def writesWord : Pattern Char :=
  sequence [wordEdge tables, choice (["INSERT", "UPDATE", "DELETE", "MERGE"].map text), wordEdge tables]

inductive Kind
  | select | write | ddl | maintenance | utility | unknown
deriving DecidableEq

def statementKind (sql : Text) : Kind :=
  let first := verb tables sql
  if first = [] then .unknown
  else if first ∈ readVerbs then
    if (search (writesWord tables) (upper tables (stripComments sql))).isSome ∧ first = "WITH".toList then .write else .select
  else if first ∈ writeVerbs then .write
  else if first ∈ ddlVerbs then .ddl
  else if first ∈ maintenanceVerbs then .maintenance
  else .utility

/-- `str.lower`, with the mapping that the tables have. -/
def lower (name : Text) : Text := casefold tables name

def tablesOf (sql : Text) : List Text :=
  let ctes := (finditer (matchAt (ctePattern tables)) sql).filterMap fun found =>
    (groupText sql found 1).map (lower tables)
  (finditer (matchAt (tablesPattern tables)) sql).foldl (fun names found =>
    let name := lastName ((groupText sql found 1).getD [])
    if name ≠ [] ∧ lower tables name ∉ notNames ++ ctes ∧ name.head? ≠ some '$' ∧ name ∉ names then names ++ [name] else names) []

/-- `separator.join(parts)` -/
def join (separator : Text) (parts : List Text) : Text := separator.intercalate parts

/-- `text.split()`, the first argument being enough for the whole text. -/
def splitFrom : Nat → Text → List Text
  | 0, _ => []
  | fuel + 1, sql =>
    match sql.dropWhile isSpace with
    | [] => []
    | c :: rest =>
      (c :: rest).takeWhile (fun c => !isSpace c) :: splitFrom fuel ((c :: rest).dropWhile fun c => !isSpace c)

def split (sql : Text) : List Text := splitFrom (sql.length + 1) sql

def ddlName (body first : Text) : Text :=
  match matchAt (ddlObject tables) (start body) with
  | none => first
  | some d =>
    let group := groupText body (start body, d)
    let op := join [' '] (([group 1, group 2].filterMap id).map (upper tables))
    match search (onTable tables) body, (group 2).map (lower tables), group 3 with
    | some on, some kind, object =>
      if kind ∈ texts ["index", "trigger"] then op ++ " on ".toList ++ lastName ((groupText body on 1).getD [])
      else (object.map fun object => op ++ ' ' :: lastName object).getD op
    | _, _, object => (object.map fun object => op ++ ' ' :: lastName object).getD op

def commandName (body first : Text) : Text :=
  let words := ((split body).drop 1).take 1
  let named := tablesOf tables body
  let found := if named ≠ [] then named
    else (words.filter fun word => word.all fun c => isWord tables c || c == '"' || c == '.').map lastName
  match found with
  | table :: _ => first ++ ' ' :: table
  | [] => first

def queryName (body first : Text) (kind : Kind) : Text :=
  let called := if kind = .select then search (aggregate tables) body else none
  let op := match called with
    | some found => upper tables ((groupText body found 1).getD [])
    | none => if first ∈ readVerbs then "SELECT".toList else first
  let op := match search (sideEffect tables) body with
    | some found => op ++ ' ' :: lower tables ((groupText body found 1).getD [])
    | none => op
  match tablesOf tables body with
  | [] => op
  | table :: more =>
    let on := match more with
      | [] => table
      | [second] => table ++ " and ".toList ++ second
      | _ => table ++ " and ".toList ++ (toString more.length).toList ++ " more".toList
    let name := op ++ " on ".toList ++ on
    match search (whereColumn tables) body with
    | none => name
    | some found =>
      let column := lastName ((groupText body found 1).getD [])
      if column ≠ [] ∧ lower tables column ∉ notNames ∧ column.head? ≠ some '$' ∧ column.head?.any (isDigit tables) = false then
        name ++ " by ".toList ++ column
      else name

def displayName (sql : Text) : Text :=
  let body := join [' '] (split (stripComments sql))
  if body = [] then "Untitled query".toList
  else
    let kind := statementKind tables body
    let first := verb tables body
    match kind with
    | .ddl => ddlName tables body first
    | .maintenance | .utility => commandName tables body first
    | _ => queryName tables body first kind

end Statements

example : displayName asciiTables "SELECT count(*) FROM a.orders WHERE x = 1".toList = "COUNT on orders by x".toList := by
  decide +kernel

section Allocation

/-- What `_name_details` reads off the tree of a statement. -/
structure NameDetails where
  filters : List Text
  joins : List Text
  orders : List Text
  groups : List Text
  limits : List Text
  selected : List Text

def NameDetails.category (d : NameDetails) : Nat → List Text
  | 0 => d.filters
  | 1 => d.joins
  | 2 => d.orders
  | 3 => d.groups
  | 4 => d.limits
  | _ => d.selected

def prefixes : List Text := texts ["filtered on ", "with ", "sorted by ", "per ", "top ", "returning "]

/-- What all peers have of a category. -/
def commonValues (details : Text → NameDetails) (peers : List Text) (category : Nat) : List Text :=
  match peers with
  | [] => []
  | peer :: rest => rest.foldl (fun common peer => common.filter fun value => value ∈ (details peer).category category)
      ((details peer).category category)

structure Traits where
  traits : List Text
  peers : List Text
  stopped : Bool

/-- One category of a pending key. What is common to the whole family is read again where the source keeps it. -/
def Traits.next (details : Text → NameDetails) (key : Text) (s : Traits) (category : Text × Nat) : Traits :=
  if s.stopped then s
  else
    let common := commonValues details s.peers category.2
    let differing := ((details key).category category.2).filter fun value => value ∉ common
    if differing = [] ∨ (category.2 = 5 ∧ 3 < differing.length) then s
    else
      let peers := s.peers.filter fun peer => (details peer).category category.2 = (details key).category category.2
      ⟨s.traits ++ [category.1 ++ join " and ".toList differing], peers, peers.length = 1⟩

def variant (chosen : Text) (index : Nat) : Text := chosen ++ ", variant ".toList ++ (toString index).toList

/-- The name for a pending key of a family. -/
def chosenName (details : Text → NameDetails) (name : Text) (keys : List Text) (used : List Text) (key : Text) : Text :=
  let read := prefixes.zipIdx.foldl (Traits.next details key) ⟨[], keys, false⟩
  let chosen := join ", ".toList (name :: read.traits)
  if chosen ∈ used then variant chosen (firstFree (variant chosen) used used.length 2) else chosen

/-- `groups.setdefault(name, []).append(key)` -/
def addToGroup (groups : List (Text × List Text)) (key name : Text) : List (Text × List Text) :=
  if groups.any (fun group => group.1 = name) then
    groups.map fun group => if group.1 = name then (group.1, group.2 ++ [key]) else group
  else groups ++ [(name, [key])]

/-- The first pass names a statement whose base name nobody else has. -/
def nameSingle (s : State Text Text) (group : Text × List Text) : State Text Text :=
  match group.2 with
  | [key] => if s.names.lookup key = none ∧ group.1 ∉ s.used then s.give key group.1 else s
  | _ => s

variable (tables : Tables) (nameDetails : Text → NameDetails)

/-- The second pass names what is left of a family. -/
def nameFamily (statements : Dict Text Text) (s : State Text Text) (group : Text × List Text) : State Text Text :=
  let details := fun key => nameDetails ((statements.lookup key).getD [])
  let pending := group.2.filter fun key => s.names.lookup key = none
  pending.foldl (fun s key => s.give key (chosenName details group.1 group.2 s.used key)) s

def bases (statements : Dict Text Text) : List (Text × Text) :=
  statements.entries.map fun item => (item.1, if item.2 ≠ [] then displayName tables item.2 else "Query ".toList ++ item.1)

/-- The names that are kept of those of the last call: a duplicate one is not, where its statement is still there. -/
def keptNames (statements names : Dict Text Text) : Dict Text Text :=
  let held := names.entries.map Sigma.snd
  keepKeys (fun key => key ∉ statements.keys || decide (held.count ((names.lookup key).getD []) ≤ 1)) names

def distinctNames (statements : Dict Text Text) (existing : Option (Dict Text Text)) : Dict Text Text :=
  let names := keptNames statements (existing.getD ∅)
  let groups := (bases tables statements).foldl (fun groups item => addToGroup groups item.1 item.2) []
  let singles := groups.foldl nameSingle ⟨names, names.entries.map Sigma.snd⟩
  (groups.foldl (nameFamily nameDetails statements) singles).names

end Allocation

end Rdst.Monitor.StatementNames
