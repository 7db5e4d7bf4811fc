import Mathlib.Data.Rat.Defs
import Mathlib.Algebra.Order.Ring.Unbundled.Rat
import Mathlib.Data.List.Sort
import Rdst.Lib.PyText
import Rdst.Lib.Weeding

namespace Rdst.Indexes

open Assoc Regex PyText Weeding

abbrev Text := List Char

section Names

variable (tables : Tables) (lower : Text → Text)

def quotes : List Char := [Char.ofNat 34, Char.ofNat 96]

/-- `_norm`. -/
def norm (name : Text) : Text :=
  let last := (name.reverse.takeWhile (· ≠ '.')).reverse
  let bare := ((strip last).dropWhile (· ∈ quotes)).reverse.dropWhile (· ∈ quotes)
  lower bare.reverse

/-- `::[a-z_ ]+(\[\])?` -/
def castPattern : Pattern Char :=
  sequence [text "::", plus (.char fun c => ('a' ≤ c && c ≤ 'z') || c == '_' || c == ' '), optional (text "[]")]

/-- `(?<!\w)\(` -/
def openAlone : Pattern Char := .seq (.notAhead (wordEdge tables)) (text "(")

def wordChars : Pattern Char := .star (.char (isWord tables))

/-- `(?<!\w)\((\w+)\)` -/
def spareWord : Pattern Char := sequence [openAlone tables, plus (.char (isWord tables)), text ")"]

/-- `(?<!\w)\((\w+\(\w*\))\)` -/
def spareCall : Pattern Char :=
  sequence [openAlone tables, plus (.char (isWord tables)), text "(", wordChars tables, text "))"]

/-- The group of the two patterns is their match without its first and its last character. -/
def inner (matched : Text) : Text := (matched.drop 1).dropLast

/-- Every turn that changes the text makes it shorter. -/
def simplify : Nat → Text → Text
  | 0, text => text
  | fuel + 1, text =>
    let simpler := sub (spareCall tables) inner (sub (spareWord tables) inner text)
    if simpler = text then text else simplify fuel simpler

/-- `_expression`. -/
def expression (text : Text) : Text :=
  let bare := (sub castPattern (fun _ => []) (lower text)).filter (· ≠ ' ')
  simplify tables bare.length bare

/-- The first of the words of `str.split`. -/
def firstWord (text : Text) : Text := (text.dropWhile isSpace).takeWhile fun c => !isSpace c

/-- `_columns`. -/
def columnsOf (columns : List Text) : List Text :=
  columns.filterMap fun column =>
    let text := if '(' ∈ column then expression tables lower (strip column) else norm lower column
    if text = [] then none else some (if '(' ∈ text then text else firstWord text)

def methods : List Text := ["btree", "hash", "gin", "gist", "brin", "spgist"].map String.toList

/-- `_method`. -/
def methodOf (method : Text) : Text :=
  let word := firstWord (lower (strip method))
  if word ∈ methods then word else "btree".toList

end Names

/-- `_prefix`. -/
def startsWith (short long : List Text) : Bool := decide (short ≠ []) && short.isPrefixOf long

/-- An existing index, as `_existing` gathers it. -/
structure Index where
  schema : Text
  table : Text
  indexName : Text
  columns : List Text
  included : List Text
  method : Text
  isPartial : Bool
  valid : Bool
  unique : Bool
  primary : Bool
  scans : Option Nat
  windowScans : Nat
  sizeBytes : Nat
  lastScanAt : Option Int
  firstSeen : Option Int
deriving DecidableEq

inductive Reason
  | unused
  | stale
  | duplicate
deriving DecidableEq

abbrev Ident := Text × Text × Text

/-- The inputs of `build_plan` that its drops and what it keeps are made from. -/
structure Inputs where
  now : Int
  observedSeconds : Int
  counterAgeSeconds : Int
  existing : List Index
  /-- By normalised table: its writes a second and the columns that queries filter on. -/
  writesPerSecond : Text → ℚ
  filtered : Text → List Text
  replicas : Bool

structure Drop where
  index : Index
  reason : Reason
  coveredBy : Option Text
  evidenceAge : Int
  confident : Bool
  tableWritesPerSecond : ℚ
  replicaCaveat : Bool
deriving DecidableEq

structure Plan where
  drop : List Drop
  keep : List Index

def confidentAgeSeconds : Int := 7 * 86400

def staleScanSeconds : Int := 30 * 86400

section Drops

variable (tables : Tables) (lower : Text → Text) (inputs : Inputs)

/-- `_ident`. -/
def ident (x : Index) : Ident := (lower x.schema, norm lower x.table, x.indexName)

def Index.key (x : Index) : List Text := columnsOf tables lower x.columns

def Index.held (x : Index) : List Text := x.key tables lower ++ columnsOf tables lower x.included

/-- `_plain`. -/
def Index.plain (x : Index) : Bool := !x.isPartial && x.valid

def Index.reads (x : Index) : Nat := x.scans.getD 0

/-- `_carries`. -/
def carries (cover x : Index) : Bool := (columnsOf tables lower x.included).all fun column =>
  decide (column ∈ cover.held tables lower)

def Index.removable (x : Index) : Bool := !x.unique && !x.primary && x.scans.isSome && x.valid

/-- `_defeated`. -/
def defeated (x : Index) : Bool :=
  match x.key tables lower with
  | first :: _ => decide (first ∈ inputs.filtered (norm lower x.table))
  | [] => false

/-- Why an index that is not read goes, if it does. -/
def idleReason (x : Index) : Option Reason :=
  if defeated tables lower inputs x then none
  else if x.reads = 0 ∧ x.windowScans = 0 then some .unused
  else
    match x.lastScanAt with
    | some last =>
      if last ≠ 0 ∧ inputs.now - last ≥ staleScanSeconds ∧ x.windowScans = 0 then some .stale else none
    | none => none

/-- Whether `_drops` takes `other` for a cover of `x`, which no index is of itself. -/
def covers (x other : Index) : Bool :=
  other.plain && decide (norm lower other.table = norm lower x.table) &&
    decide (methodOf lower other.method = methodOf lower x.method) &&
    startsWith (x.key tables lower) (other.key tables lower) && carries tables lower other x &&
    (decide ((x.key tables lower).length < (other.key tables lower).length) || decide (x.reads < other.reads) ||
      decide (other.reads = x.reads) && decide (other.indexName < x.indexName))

def removables : List Index := inputs.existing.filter Index.removable

/-- The unused and the stale indexes. -/
def idle : Dict Ident (Reason × Option Index) :=
  (removables inputs).foldl (fun chosen x =>
    match idleReason tables lower inputs x with
    | some reason => chosen.insert (ident lower x) (reason, none)
    | none => chosen) ∅

def fewestReads : List Index := (removables inputs).insertionSort fun a b =>
  a.reads < b.reads ∨ a.reads = b.reads ∧ ¬ b.indexName < a.indexName

def chosen : Dict Ident (Reason × Option Index) :=
  weed (ident lower) (fun _ cover => (.duplicate, some cover)) (covers tables lower) inputs.existing
    ((fewestReads inputs).filter Index.plain) (idle tables lower inputs)

/-- `_evidence_age`. -/
def evidenceAge (x : Index) : Int :=
  match x.firstSeen with
  | some seen =>
    if seen ≠ 0 ∧ seen > inputs.now - inputs.observedSeconds + 60 then max 0 (inputs.now - seen)
    else max inputs.observedSeconds inputs.counterAgeSeconds
  | none => max inputs.observedSeconds inputs.counterAgeSeconds

def dropOf (x : Index) (choice : Reason × Option Index) : Drop where
  index := x
  reason := choice.1
  coveredBy := choice.2.map Index.indexName
  evidenceAge := evidenceAge inputs x
  confident := decide (choice.1 = .duplicate) || decide (evidenceAge inputs x ≥ confidentAgeSeconds) ||
    decide (choice.1 = .stale) && x.lastScanAt.any fun last => last ≠ 0
  tableWritesPerSecond := inputs.writesPerSecond (norm lower x.table)
  replicaCaveat := inputs.replicas && decide (choice.1 ≠ .duplicate)

/-- The order of the drops. -/
def Drop.before (a b : Drop) : Bool :=
  if a.confident ≠ b.confident then a.confident
  else if decide (a.reason = .duplicate) ≠ decide (b.reason = .duplicate) then decide (a.reason = .duplicate)
  else if a.tableWritesPerSecond ≠ b.tableWritesPerSecond then
    decide (b.tableWritesPerSecond < a.tableWritesPerSecond)
  else if a.index.sizeBytes ≠ b.index.sizeBytes then decide (b.index.sizeBytes < a.index.sizeBytes)
  else !decide (b.index.indexName < a.index.indexName)

/-- `_drops`. -/
def drops : List Drop :=
  ((removables inputs).filterMap fun x =>
    ((chosen tables lower inputs).lookup (ident lower x)).map (dropOf lower inputs x)).insertionSort fun a b =>
      a.before b = true

/-- The name by which the plan lists an index. -/
def listing (x : Index) : Text × Text := (norm lower x.table, x.indexName)

/-- The drops of `build_plan` and what it keeps; what queries suggest decides only on what it adds. -/
def buildPlan : Plan where
  drop := drops tables lower inputs
  keep :=
    (inputs.existing.filter fun x =>
      decide (listing lower x ∉ (drops tables lower inputs).map fun drop => listing lower drop.index)).insertionSort
        fun a b => norm lower a.table < norm lower b.table ∨
          norm lower a.table = norm lower b.table ∧ ¬ b.indexName < a.indexName

end Drops

end Rdst.Indexes
