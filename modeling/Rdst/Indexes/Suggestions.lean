import Mathlib.Algebra.Order.BigOperators.Group.List
import Mathlib.Data.Rat.Floor
import Rdst.Indexes.Plan
import Rdst.Lib.Maxima

namespace Rdst.Indexes

open Assoc Regex PyText Maxima

inductive Engine
  | postgresql
  | mysql
deriving DecidableEq

inductive Role
  | equality
  | sort
  | range
deriving DecidableEq

/-- `ROLE_RANK`. -/
def Role.rank : Role → Nat
  | .equality => 0
  | .sort => 1
  | .range => 2

/-- An index that the analysis of a query suggests. -/
structure Suggestion where
  table : Text
  columns : List Text
  method : Text
  gainPct : Option ℚ
  verified : Bool
  impact : Text
  roles : List (Text × Role)
deriving DecidableEq

structure Query where
  key : Text
  name : Text
  share : ℚ
  suggestions : List Suggestion
deriving DecidableEq

structure Helped where
  key : Text
  name : Text
  share : ℚ
  gain : ℚ
  verified : Bool
  gainPct : Option ℚ
  impact : Text
deriving DecidableEq

/-- What the statistics say of a table. -/
structure TableFacts where
  writesPerSecond : ℚ
  peakWritesPerSecond : ℚ
  hotRatio : Option ℚ
  updatedColumns : List Text

/-- The inputs of `build_plan` that what it adds is made from, besides the existing indexes. -/
structure Advice where
  engine : Engine
  queries : List Query
  facts : Text → TableFacts

/-- An index to add: its table, its columns and its method. -/
abbrev Shape := Text × List Text × Text

/-- A suggested index and the queries that it helps. -/
structure Entry where
  table : Text
  columns : List Text
  method : Text
  helps : Dict Text Helped
  roles : Dict Text Role
  merged : List (List Text)

structure WriteCost where
  writesPerSecond : ℚ
  peakWritesPerSecond : ℚ
  existingIndexes : Nat
  updatedColumns : List Text
  hotRisk : Bool
deriving DecidableEq

inductive Label
  | skip
  | worthIt
  | safe
deriving DecidableEq

inductive LabelReason
  | writesOutweigh
  | hotUpdates
  | writeHeavy
  | manyIndexes
  | readHeavy
deriving DecidableEq

structure Add where
  id : Text
  table : Text
  replaces : List Text
  columns : List Text
  method : Text
  roles : List (Option Role)
  merged : List (List Text)
  helps : List Helped
  benefit : ℚ
  verified : Bool
  writeCost : WriteCost
  label : Label
  labelReason : LabelReason
  sql : Text
  undoSql : Text
deriving DecidableEq

/-- A suggested index that an existing one covers. -/
structure Covered where
  table : Text
  columns : List Text
  coveredBy : Index
  queries : List Text

structure Additions where
  add : List Add
  skipped : List Add
  later : List Add
  covered : List Covered

def maxKeyColumns : Nat := 3

def minBenefit : ℚ := 2 / 1000

def smallBenefit : ℚ := 2 / 100

def writeHeavy : ℚ := 20

def veryWriteHeavy : ℚ := 200

def manyIndexes : Nat := 6

def hotShare : ℚ := 1 / 2

def maxAdds : Nat := 5

def minAddBenefit : ℚ := 1 / 100

section Candidates

variable (tables : Tables) (lower : Text → Text)

/-- `_gain`. -/
def Suggestion.gain (s : Suggestion) : ℚ :=
  match s.gainPct with
  | some pct => max 0 (min 1 (pct / 100))
  | none =>
    if lower s.impact = "high".toList then 6 / 10
    else if lower s.impact = "medium".toList then 3 / 10
    else if lower s.impact = "low".toList then 1 / 10
    else 2 / 10

def Suggestion.keyColumns (s : Suggestion) : List Text := columnsOf tables lower s.columns

/-- A shorter index isn't the one the planner checked. -/
def Suggestion.trimmed (s : Suggestion) : Suggestion :=
  if maxKeyColumns < (s.keyColumns tables lower).length then { s with verified := false, gainPct := none } else s

def Suggestion.shape (s : Suggestion) : Shape :=
  (norm lower s.table, (s.keyColumns tables lower).take maxKeyColumns, methodOf lower s.method)

/-- A suggestion without a table or without columns suggests nothing. -/
def Suggestion.usable (s : Suggestion) : Bool :=
  decide (norm lower s.table ≠ []) && decide (s.keyColumns tables lower ≠ [])

def Suggestion.help (q : Query) (s : Suggestion) : Helped where
  key := q.key
  name := q.name
  share := q.share
  gain := (s.trimmed tables lower).gain lower
  verified := (s.trimmed tables lower).verified
  gainPct := (s.trimmed tables lower).gainPct
  impact := s.impact

/-- `_add_roles`. -/
def addRoles (into : Dict Text Role) (roles : List (Text × Role)) : Dict Text Role :=
  roles.foldl (fun known entry =>
    match known.lookup (norm lower entry.1) with
    | some role => if entry.2.rank < role.rank then known.insert (norm lower entry.1) entry.2 else known
    | none => known.insert (norm lower entry.1) entry.2) into

/-- Note that a query is helped, where it is not already helped as much. -/
def noteHelp (helps : Dict Text Helped) (key : Text) (help : Helped) : Dict Text Helped :=
  noteMax Helped.gain helps key help

def Entry.empty (shape : Shape) : Entry := ⟨shape.1, shape.2.1, shape.2.2, ∅, ∅, []⟩

/-- A suggestion of a query, noted in the entry of its index. -/
def Entry.note (q : Query) (s : Suggestion) (entry : Entry) : Entry :=
  { entry with
    roles := addRoles lower entry.roles s.roles
    helps := noteHelp entry.helps q.key (s.help tables lower q) }

def noteSuggestion (found : Dict Shape Entry) (q : Query) (s : Suggestion) : Dict Shape Entry :=
  if s.usable tables lower then
    let shape := s.shape tables lower
    found.insert shape (((found.lookup shape).getD (Entry.empty shape)).note tables lower q s)
  else found

/-- Every suggestion with its query, in the order of the loops. -/
def offers (queries : List Query) : List (Query × Suggestion) :=
  queries.flatMap fun q => q.suggestions.map fun s => (q, s)

/-- `_candidates`. -/
def candidates (queries : List Query) : Dict Shape Entry :=
  (offers queries).foldl (fun found offer => noteSuggestion tables lower found offer.1 offer.2) ∅

/-- An existing index that serves in the place of a suggested one. -/
def Index.covering (x : Index) (shape : Shape) : Bool :=
  decide (norm lower x.table = shape.1) && decide (methodOf lower x.method = shape.2.2) && x.plain &&
    startsWith shape.2.1 (x.key tables lower)

/-- `_covering`. -/
def coveringOf (existing : List Index) (shape : Shape) : Option Index :=
  existing.find? fun x => x.covering tables lower shape

end Candidates

section Merge

variable (lower : Text → Text)

def Entry.shape (entry : Entry) : Shape := (entry.table, entry.columns, entry.method)

/-- An entry that a candidate folds into. -/
def Entry.hosts (host candidate : Entry) : Bool :=
  decide (host.table = candidate.table) && decide (host.method = candidate.method) &&
    startsWith candidate.columns host.columns

def Entry.absorb (host candidate : Entry) : Entry :=
  { host with
    merged := host.merged ++ [candidate.columns]
    roles := addRoles lower host.roles (candidate.roles.entries.map fun item => (item.1, item.2))
    helps := forItems candidate.helps host.helps noteHelp }

/-- The first host takes the candidate, or it is kept. -/
def place (candidate : Entry) : List Entry → List Entry
  | [] => [{ candidate with merged := [] }]
  | host :: rest => if host.hosts candidate then host.absorb lower candidate :: rest else host :: place candidate rest

/-- The order in which the candidates are folded. -/
def Longer (a b : Entry) : Prop := b.columns.length < a.columns.length ∨ a.columns.length = b.columns.length ∧ ¬ b.columns < a.columns

instance : DecidableRel Longer := fun _ _ => inferInstanceAs (Decidable (_ ∨ _))

def longestFirst (candidates : List Entry) : List Entry := candidates.insertionSort Longer

def folded (candidates : List Entry) : List Entry :=
  (longestFirst candidates).foldl (fun kept candidate => place lower candidate kept) []

def Entry.helped (entry : Entry) : List Helped := entry.helps.entries.map fun item => item.2

def Helped.worth (helped : Helped) : ℚ := helped.share * helped.gain

/-- The first part of `_strength`. -/
def Entry.strength (entry : Entry) : ℚ := (entry.helped.map Helped.worth).sum

/-- The stronger first, as `sorted` with `reverse` has it. -/
def Entry.before (a b : Entry) : Bool :=
  if a.strength ≠ b.strength then decide (b.strength < a.strength)
  else if a.columns.length ≠ b.columns.length then decide (b.columns.length < a.columns.length)
  else !decide (a.columns < b.columns)

/-- Another way to help the queries that a stronger entry of the same table helps. -/
def Entry.alternative (entry other : Entry) : Bool :=
  decide (other.table = entry.table) && entry.helps.keys.all fun key => decide (key ∈ other.helps.keys)

/-- `_alternatives`. -/
def alternatives (entries : List Entry) : List Entry :=
  thin Entry.alternative (entries.insertionSort fun a b => a.before b = true)

/-- `_merge`. -/
def merge (candidates : List Entry) : List Entry := alternatives (folded lower candidates)

end Merge

section Statements

variable (tables : Tables)

/-- `^[a-z_][a-z0-9_]*$`, which a line feed at the end does not keep from matching. -/
def plainName (name : Text) : Bool :=
  let line := if name.getLast? = some '\n' then name.dropLast else name
  match line with
  | first :: rest =>
    (('a' ≤ first && first ≤ 'z') || first == '_') &&
      rest.all fun c => ('a' ≤ c && c ≤ 'z') || ('0' ≤ c && c ≤ '9') || c == '_'
  | [] => false

/-- A name between two quotes, with those inside it doubled. -/
def enclose (quote : Char) (name : Text) : Text :=
  quote :: name.flatMap (fun c => if c = quote then [quote, quote] else [c]) ++ [quote]

def backtick : Char := Char.ofNat 96

def doubleQuote : Char := Char.ofNat 34

/-- `_quote`. -/
def quote (engine : Engine) (name : Text) : Text :=
  match engine with
  | .mysql => enclose backtick name
  | .postgresql => if plainName name then name else enclose doubleQuote name

/-- `_part`. -/
def part (engine : Engine) (column : Text) : Text :=
  if '(' ∈ column then "(".toList ++ column ++ ")".toList else quote engine column

def join (separator : Text) (parts : List Text) : Text := separator.intercalate parts

/-- `_index_name`. -/
def suggestedName (table : Text) (columns : List Text) : Text :=
  let written := sub (plus (.char fun c => !isWord tables c)) (fun _ => ['_'])
    ("idx_".toList ++ table ++ "_".toList ++ join "_".toList columns)
  (((written.dropWhile (· = '_')).reverse.dropWhile (· = '_')).reverse).take 63

/-- `_create_sql`. -/
def createSql (engine : Engine) (table : Text) (columns : List Text) (method : Text) : Text :=
  let name := suggestedName tables table columns
  let parts := join ", ".toList (columns.map (part engine))
  match engine with
  | .mysql =>
    "CREATE INDEX ".toList ++ quote engine name ++ " ON ".toList ++ quote engine table ++ " (".toList ++ parts ++
      ");".toList
  | .postgresql =>
    let using_ := if method = "btree".toList then [] else " USING ".toList ++ method
    "CREATE INDEX CONCURRENTLY ".toList ++ quote engine name ++ " ON ".toList ++ quote engine table ++ using_ ++
      " (".toList ++ parts ++ ");".toList

/-- `_drop_sql`. -/
def dropSql (engine : Engine) (schema table indexName : Text) : Text :=
  match engine with
  | .mysql => "ALTER TABLE ".toList ++ quote engine table ++ " DROP INDEX ".toList ++ quote engine indexName ++ ";".toList
  | .postgresql =>
    "DROP INDEX CONCURRENTLY ".toList ++ quote engine (if schema = [] then "public".toList else schema) ++ ".".toList ++
      quote engine indexName ++ ";".toList

/-- `_undo_sql`. -/
def undoSql (engine : Engine) (table : Text) (columns : List Text) : Text :=
  dropSql engine [] table (suggestedName tables table columns)

/-- The text that `_id` takes the digest of. -/
def idText (table : Text) (parts : List Text) : Text := table ++ ":".toList ++ join ",".toList parts

end Statements

section Additions

variable (tables : Tables) (lower : Text → Text) (digest : Text → Text) (inputs : Inputs) (advice : Advice)

/-- `_id`, for the first twelve digits of the SHA-1 of a text. -/
def idOf (kind : String) (table : Text) (parts : List Text) : Text :=
  kind.toList ++ ":".toList ++ digest (idText table parts)

/-- `_write_cost`. -/
def writeCost (table : Text) (columns : List Text) (existingCount : Nat) : WriteCost :=
  let facts := advice.facts table
  let updated := (facts.updatedColumns.map (norm lower)).dedup.filter fun column => column ∈ columns
  { writesPerSecond := facts.writesPerSecond
    peakWritesPerSecond := facts.peakWritesPerSecond
    existingIndexes := existingCount
    updatedColumns := updated.insertionSort fun a b => ¬ b < a
    hotRisk := decide (advice.engine = .postgresql) && decide (updated ≠ []) &&
      facts.hotRatio.any fun ratio => decide (hotShare ≤ ratio) }

/-- `_label`. -/
def labelOf (benefit : ℚ) (cost : WriteCost) : Label × LabelReason :=
  let writes := max cost.writesPerSecond (cost.peakWritesPerSecond / 2)
  if benefit < smallBenefit ∧ (veryWriteHeavy ≤ writes ∨ cost.hotRisk = true) then (.skip, .writesOutweigh)
  else if cost.hotRisk = true then (.worthIt, .hotUpdates)
  else if writeHeavy ≤ writes ∨ manyIndexes ≤ cost.existingIndexes then
    (.worthIt, if writeHeavy ≤ writes then .writeHeavy else .manyIndexes)
  else (.safe, .readHeavy)

/-- `round(x, 4)`. -/
def roundFour (x : ℚ) : ℚ :=
  let scaled := x * 10000
  let below := ⌊scaled⌋
  let rest := scaled - below
  let nearest := if rest < 1 / 2 ∨ rest = 1 / 2 ∧ below % 2 = 0 then below else below + 1
  nearest / 10000

def sortNames (names : List Text) : List Text := names.insertionSort fun a b => ¬ b < a

def Entry.benefit (entry : Entry) : ℚ := (entry.helped.map Helped.worth).sum

/-- The add of an entry. -/
def addOf (entry : Entry) : Add :=
  let helps := entry.helped.insertionSort fun a b => b.worth < a.worth ∨ a.worth = b.worth ∧ ¬ b.key < a.key
  let existingCount := inputs.existing.countP fun x => decide (norm lower x.table = entry.table) && !x.primary
  let cost := writeCost lower advice entry.table entry.columns existingCount
  let label := labelOf entry.benefit cost
  { id := idOf digest "add" entry.table entry.columns
    table := entry.table
    replaces := sortNames ((inputs.existing.filter fun x =>
      decide (norm lower x.table = entry.table) && !x.unique && !x.primary &&
        decide (methodOf lower x.method = entry.method) && startsWith (x.key tables lower) entry.columns).map
          Index.indexName)
    columns := entry.columns
    method := entry.method
    roles := entry.columns.map fun column => entry.roles.lookup column
    merged := entry.merged
    helps := helps
    benefit := roundFour entry.benefit
    verified := helps.any Helped.verified
    writeCost := cost
    label := label.1
    labelReason := label.2
    sql := createSql tables advice.engine entry.table entry.columns entry.method
    undoSql := undoSql tables advice.engine entry.table entry.columns }

/-- The suggested indexes in the order of their tables, columns and methods. -/
def listed (found : Dict Shape Entry) : List (Shape × Entry) :=
  (found.entries.map fun item => (item.1, item.2)).insertionSort fun a b =>
    a.1.1 < b.1.1 ∨ a.1.1 = b.1.1 ∧ (a.1.2.1 < b.1.2.1 ∨ a.1.2.1 = b.1.2.1 ∧ ¬ b.1.2.2 < a.1.2.2)

def coveredOf (item : Shape × Entry) : Option Covered :=
  (coveringOf tables lower inputs.existing item.1).map fun x =>
    ⟨item.1.1, item.1.2.1, x, sortNames item.2.helps.keys⟩

/-- The entries that no existing index covers. -/
def openCandidates : List Entry :=
  ((listed (candidates tables lower advice.queries)).filter fun item =>
    (coveringOf tables lower inputs.existing item.1).isNone).map Prod.snd

def mergedEntries : List Entry := merge lower (openCandidates tables lower inputs advice)

/-- The greater benefit first. -/
def Add.before (a b : Add) : Bool := decide (b.benefit < a.benefit) || decide (a.benefit = b.benefit) && !decide (b.id < a.id)

def worthwhile : List Add :=
  ((mergedEntries tables lower inputs advice).filter fun entry => decide (minBenefit ≤ entry.benefit)).map
    (addOf tables lower digest inputs advice)

def offeredAdds : List Add :=
  ((worthwhile tables lower digest inputs advice).filter fun add => decide (add.label ≠ .skip)).insertionSort
    fun a b => a.before b = true

def skippedAdds : List Add :=
  ((worthwhile tables lower digest inputs advice).filter fun add => decide (add.label = .skip)).insertionSort
    fun a b => a.before b = true

/-- The adds past the first few and those of little benefit wait. -/
def laterAdds : List Add :=
  ((offeredAdds tables lower digest inputs advice).zipIdx.filter fun item =>
    decide (maxAdds ≤ item.2) || decide (item.1.benefit < minAddBenefit)).map Prod.fst

def firstAdds : List Add := (offeredAdds tables lower digest inputs advice).filter fun add =>
  decide (add ∉ laterAdds tables lower digest inputs advice)

/-- What `build_plan` adds, sets aside and finds covered. -/
def buildAdditions : Additions where
  add := firstAdds tables lower digest inputs advice
  skipped := skippedAdds tables lower digest inputs advice
  later := laterAdds tables lower digest inputs advice
  covered := (listed (candidates tables lower advice.queries)).filterMap (coveredOf tables lower inputs)

end Additions

end Rdst.Indexes
