import Mathlib.Data.List.Sort
import Rdst.Lib.Assoc
import Rdst.Lib.Double
import Rdst.Lib.Like
import Rdst.Lib.PyText

namespace Rdst.Library.Listing

open Assoc Float64 PyText Regex

abbrev Text := List Char

/-- `str.lower`: what a character becomes depends on those around it, where it is beyond ASCII. -/
structure Lowering where
  beyond : List Char → Char → List Char → List Char
  lowered : ∀ before c after, ∀ d ∈ beyond before c after, d.toLower = d ∧ d ≠ '\n'

def Lowering.lowerFrom (lowering : Lowering) : List Char → Text → Text
  | _, [] => []
  | before, c :: rest =>
    (if isAscii c = true then [c.toLower] else lowering.beyond before c rest) ++ lowering.lowerFrom (c :: before) rest

def Lowering.lower (lowering : Lowering) (text : Text) : Text := lowering.lowerFrom [] text

/-- What Python makes of texts. -/
structure Platform where
  tables : Tables
  lowering : Lowering
  /-- The milliseconds of `datetime.fromisoformat`, in UTC where no offset is given; nothing where it fails. -/
  fromisoformat : Text → Option Double

/-- A hash as `hash_sql` gives it. -/
def isHexDigit (c : Char) : Bool := ('0' ≤ c ∧ c ≤ '9') || ('a' ≤ c ∧ c ≤ 'f')

def Digest := { text : Text // ∀ c ∈ text, isHexDigit c = true }

inductive Concern
  | accessExpressionRisk
  | indexCoverage
  | joinGrowth
  | repeatedWork
  | broadWork
deriving DecidableEq

/-- A Jev assessment; a complete one may have no priority. -/
inductive Assessment
  | waiting
  | complete (findings : List Concern) (priority : Option (Fin 101))

/-- An entry of the registry with its lifecycle on one target. -/
structure Entry where
  hash : Digest
  sql : Text
  tag : Text
  originalSql : Text
  question : Text
  source : Text
  readysetQueryId : Text
  readysetSupported : Text
  firstAnalyzed : Text
  lastAnalyzed : Text
  frequency : Int
  observationCount : Int
  /-- Nothing for NaN or an infinity. -/
  avgDurationMs : Option Double
  /-- The values as `str` shows them, nothing for None. -/
  mostRecentParams : Dict Text (Option Text)
  firstObservedAt : Text
  lastObservedAt : Text
  reviewedAt : Text
  savedAt : Text
  lastAnalyzedAt : Text
  lastComparedAt : Text
  sources : List Text
  assessment : Option Assessment

def Entry.findings (entry : Entry) : List Concern :=
  match entry.assessment with
  | some (.complete findings _) => findings
  | _ => []

def Entry.priority (entry : Entry) : Option (Fin 101) :=
  match entry.assessment with
  | some (.complete _ priority) => priority
  | _ => none

def Entry.isNew (entry : Entry) : Bool := decide (entry.firstObservedAt ≠ [] ∧ entry.reviewedAt = [])

inductive ViewName
  | all
  | new
  | saved
  | highImpact
  | needsAnalysis
  | readyToCache
  | cached
deriving DecidableEq

inductive SourceName
  | all
  | observed
  | ask
  | manual
  | file
  | scan
deriving DecidableEq

inductive ParamsName
  | all
  | withoutParameters
  | valuesReady
  | valuesNeeded
deriving DecidableEq

inductive ActivityName
  | all
  | minute
  | hour
  | eightHours
  | day
  | week
  | month
deriving DecidableEq

inductive ImpactName
  | all
  | minute
  | tenMinutes
  | hour
deriving DecidableEq

inductive FindingName
  | all
  | any
  | concern (concern : Concern)
  | none
deriving DecidableEq

inductive SortName
  | highestImpact
  | recentlyObserved
  | newest
  | mostFrequent
  | slowestAverage
  | recentlyAnalyzed
  | jevPriority
  | jevConcern (concern : Concern)
deriving DecidableEq

/-- `re.sub(r"\s+", " ", text)`; the flag says that the last character was a space. -/
def collapseFrom : Bool → Text → Text
  | _, [] => []
  | spaced, c :: rest =>
    if isSpace c = true then if spaced = true then collapseFrom true rest else ' ' :: collapseFrom true rest
    else c :: collapseFrom false rest

def collapseWhitespace (text : Text) : Text := strip (collapseFrom false text)

section Names

variable (p : Platform)

def normalizeSearch (text : Text) : Text := p.lowering.lower (collapseWhitespace text)

/-- A letter under IGNORECASE with ASCII. -/
def anyCaseAscii (word : String) : Pattern Char := sequence (word.toList.map fun x => .char fun c => c.toUpper == x.toUpper)

def isAsciiWord (c : Char) : Bool := c == '_' || (isAscii c && c.isAlphanum)

def isAsciiSpace (c : Char) : Bool := (9 ≤ c.toNat && c.toNat ≤ 13) || c == ' '

def verbPattern : Pattern Char :=
  .seq (.group 1 (choice (["select", "insert", "update", "delete", "with", "create", "alter", "drop",
    "truncate"].map anyCase))) (wordEdge p.tables)

def aggregatePattern : Pattern Char :=
  sequence [wordEdge p.tables, .group 1 (choice (["count", "sum", "avg", "min", "max"].map anyCase)), spaces,
    .char (· == '(')]

/-- A table's name after a keyword, with its opening quote or bracket. -/
def tableAfter (keyword : Pattern Char) : Pattern Char :=
  sequence [keyword, plus (.char isAsciiSpace),
    optional (.char fun c => c == '"' || c == '\'' || c == Char.ofNat 96 || c == '['),
    .group 1 (plus (.char fun c => isAsciiWord c || c == '.'))]

def fromPattern : Pattern Char := tableAfter (.seq (.boundary isAsciiWord) (anyCaseAscii "from"))

def intoPattern : Pattern Char := tableAfter (.seq (.boundary isAsciiWord) (anyCaseAscii "into"))

def updatePattern : Pattern Char := tableAfter (anyCaseAscii "update")

/-- The text of a match's first group. -/
def groupText (text : Text) (ends : Cursor Char) : Text :=
  match ends.span 1 with
  | some (first, last) => (text.drop first).take (last - first)
  | none => []

def searched (pattern : Pattern Char) (text : Text) : Option Text :=
  (search pattern text).map fun found => groupText text found.2

def matchedAtStart (pattern : Pattern Char) (text : Text) : Option Text :=
  (matchAt pattern (start text)).map fun ends => groupText text ends

/-- `text.split(".")[-1]`. -/
def afterLastDot (text : Text) : Text := (text.reverse.takeWhile fun c => c != '.').reverse

def deriveQueryName (sql : Text) : Text :=
  let normalized := collapseWhitespace sql
  if normalized = [] then "Untitled query".toList
  else
    let verb := ((matchedAtStart (verbPattern p) normalized).map p.lowering.lower).getD []
    let aggregate := ((searched (aggregatePattern p) normalized).map (upper p.tables)).getD []
    let found := ((searched fromPattern normalized).or (searched intoPattern normalized)).or
      (matchedAtStart updatePattern normalized)
    let table := (found.map afterLastDot).getD []
    let verbTitle := upper p.tables (verb.take 1) ++ verb.drop 1
    if aggregate ≠ [] ∧ table ≠ [] then aggregate ++ " on ".toList ++ table
    else if verbTitle ≠ [] ∧ table ≠ [] then verbTitle ++ " · ".toList ++ table
    else if table ≠ [] then table
    else if verbTitle ≠ [] then verbTitle
    else if 40 < normalized.length then normalized.take 40 ++ "…".toList
    else normalized

def Entry.text (entry : Entry) : Text := if entry.originalSql ≠ [] then entry.originalSql else entry.sql

def displayName (entry : Entry) : Text :=
  let tag := strip entry.tag
  if tag ≠ [] then tag else deriveQueryName p entry.text

/-- The texts of an entry that a search looks through. -/
def haystacks (entry : Entry) : List Text :=
  [entry.tag, displayName p entry, entry.question, entry.sql, entry.originalSql]

def Entry.lowerHash (entry : Entry) : Text := p.lowering.lower entry.hash.val

/-- The test of `filter_by_search` for one entry, given how many hashes start with the search. -/
def searchMatches (search : Text) (uniquePrefixMatches : Nat) (entry : Entry) : Bool :=
  decide (entry.lowerHash p = search) ||
    (decide (4 ≤ search.length) && decide (uniquePrefixMatches = 1) && decide (search <+: entry.lowerHash p)) ||
    (haystacks p entry).any fun value => decide (value ≠ []) && decide (search <:+: normalizeSearch p value)

def filterBySearch (entries : List Entry) (rawSearch : Text) : List Entry :=
  let search := normalizeSearch p rawSearch
  if search = [] then entries
  else
    let uniquePrefixMatches :=
      if 4 ≤ search.length then entries.countP fun entry => decide (search <+: entry.lowerHash p) else 0
    entries.filter (searchMatches p search uniquePrefixMatches)

end Names

def observedSources : List Text := ["top".toList, "top-historical".toList, "audit".toList]

def askSources : List Text := ["ask".toList, "prompt".toList]

def manualSources : List Text := ["manual".toList, "web".toList]

def Entry.entrySources (entry : Entry) : List Text := (entry.sources ++ [entry.source]).filter fun value => value ≠ []

def sourceMatches (entry : Entry) : SourceName → Bool
  | .all => true
  | .observed => entry.entrySources.any fun value => value ∈ observedSources
  | .ask => entry.entrySources.any fun value => value ∈ askSources
  | .manual => entry.entrySources.any fun value => value ∈ manualSources
  | .file => decide ("file".toList ∈ entry.entrySources)
  | .scan => decide ("scan".toList ∈ entry.entrySources)

section Parameters

variable (tables : Tables)

def singleQuoted : Pattern Char :=
  sequence [.char (· == '\''), .star (.alt (.char (· != '\'')) (literal "''".toList)), .char (· == '\'')]

def dollarQuoteOpen : Pattern Char :=
  sequence [.char (· == '$'), optional (.seq (.char fun c => c.isAlpha || c == '_') (.star (.char (isWord tables)))),
    .char (· == '$')]

/-- The loop of `mask_string_literals` from a place in the text on. -/
def maskFrom : Nat → Cursor Char → Text
  | 0, _ => []
  | fuel + 1, c =>
    match c.rest with
    | [] => []
    | x :: rest =>
      let kept := x :: maskFrom fuel (c.next x rest)
      if x = '\'' then
        match matchAt singleQuoted c with
        | some d => List.replicate (matched c d).length ' ' ++ maskFrom fuel d
        | none => List.replicate c.rest.length ' '
      else if x = '$' then
        match matchAt (dollarQuoteOpen tables) c with
        | none => kept
        | some d =>
          let opening := matched c d
          match beforeFirst opening d.rest with
          | some body =>
            let length := opening.length + body.length + opening.length
            List.replicate length ' ' ++
              maskFrom fuel { c with before := (c.rest.take length).reverse ++ c.before, rest := c.rest.drop length }
          | none => List.replicate c.rest.length ' '
      else kept

def maskStringLiterals (sql : Text) : Text := maskFrom tables (sql.length + 1) (start sql)

/-- A placeholder of a text. -/
structure Param where
  placeholder : Text
  index : Nat
  named : Bool
deriving DecidableEq

def pgParam : Pattern Char := .seq (.char (· == '$')) (plus (.char (isDecimal tables)))

/-- The matches of the pattern of named parameters, given the character before. -/
def namedParams : Nat → Option Char → Text → List Text
  | 0, _, _ => []
  | fuel + 1, last, text =>
    match text with
    | [] => []
    | x :: rest =>
      let name := rest.takeWhile isAsciiWord
      if (x = ':' ∨ x = '@') ∧ last ≠ some ':' ∧ name ≠ [] ∧ name.head?.any Char.isDigit = false then
        (x :: name) :: namedParams fuel name.getLast? (rest.drop name.length)
      else namedParams fuel (some x) rest

/-- Add a placeholder that was not seen. -/
def addParam (params : List Param) (param : Param) : List Param :=
  if params.any (fun other => other.placeholder = param.placeholder) = true then params else params ++ [param]

def detectParameters (sql : Text) : List Param :=
  let sql := maskStringLiterals tables sql
  let positional := (findall (pgParam tables) sql).foldl (fun params placeholder =>
    addParam params ⟨placeholder, number tables (placeholder.drop 1), false⟩) []
  let questions := (List.range (sql.count '?')).map fun i => (⟨['?'], i + 1, false⟩ : Param)
  let named := (namedParams (sql.length + 1) none sql).foldl (fun params placeholder =>
    addParam params ⟨placeholder, params.length + 1, true⟩) (positional ++ questions)
  named.insertionSort fun first second => first.index ≤ second.index

def resolveInitialValue (param : Param) (stored : Dict Text (Option Text)) : Text :=
  let key :=
    if param.named = true then param.placeholder.drop 1
    else if param.placeholder.head? = some '$' then 'p' :: param.placeholder.drop 1
    else 'p' :: (Nat.repr param.index).toList
  ((stored.lookup key).getD none).getD []

def Entry.hasParameters (entry : Entry) : Bool := !(detectParameters tables entry.text).isEmpty

def Entry.valuesReady (entry : Entry) : Bool :=
  entry.hasParameters tables && (detectParameters tables entry.text).all fun param =>
    decide (strip (resolveInitialValue param entry.mostRecentParams) ≠ [])

def parameterMatches (entry : Entry) : ParamsName → Bool
  | .all => true
  | .withoutParameters => !entry.hasParameters tables
  | .valuesReady => entry.valuesReady tables
  | .valuesNeeded => entry.hasParameters tables && !entry.valuesReady tables

end Parameters

section Metrics

variable (p : Platform)

/-- `Z` as an offset. -/
def replaceZ (text : Text) : Text := text.flatMap fun c => if c = 'Z' then "+00:00".toList else [c]

def timestampMs (value : Text) : Double := if value = [] then .zero else (p.fromisoformat (replaceZ value)).getD .zero

def finiteNumber (value : Option Double) : Double := value.getD .zero

def finiteInt (value : Int) : Double := .finite value

def latestActivity (entry : Entry) : Double :=
  (((timestampMs p entry.lastObservedAt).max (timestampMs p entry.lastAnalyzedAt)).max
    (timestampMs p entry.lastComparedAt)).max (timestampMs p entry.lastAnalyzed)

def activityWindowMs : ActivityName → Option ℚ
  | .all => none
  | .minute => some 60000
  | .hour => some 3600000
  | .eightHours => some 28800000
  | .day => some 86400000
  | .week => some 604800000
  | .month => some 2592000000

def activityMatches (nowMs : Double) (entry : Entry) (name : ActivityName) : Bool :=
  match activityWindowMs name with
  | none => true
  | some span =>
    decide (0 < (latestActivity p entry).val) &&
      decide ((Double.finite (nowMs.val - span)).val ≤ (latestActivity p entry).val)

def impactMs (entry : Entry) : Double :=
  .finite ((finiteNumber entry.avgDurationMs).val * (finiteInt entry.observationCount).val)

def impactThresholdMs : ImpactName → ℚ
  | .all => 0
  | .minute => 60000
  | .tenMinutes => 600000
  | .hour => 3600000

def impactMatches (entry : Entry) (name : ImpactName) : Bool := decide (impactThresholdMs name ≤ (impactMs entry).val)

def findingMatches (entry : Entry) : FindingName → Bool
  | .all => true
  | .any => !entry.findings.isEmpty
  | .concern concern => decide (concern ∈ entry.findings)
  | .none => entry.priority.isSome && entry.findings.isEmpty

def viewMatches (entry : Entry) : ViewName → Bool
  | .all => true
  | .new => entry.isNew
  | .saved => decide (entry.savedAt ≠ [])
  | .highImpact => decide (0 < (impactMs entry).val)
  | .needsAnalysis => decide (entry.lastAnalyzedAt = [])
  | .readyToCache =>
    decide (entry.readysetQueryId = []) && decide (entry.readysetSupported = "yes".toList) &&
      !decide ("unsupported".toList <+: entry.readysetSupported)
  | .cached => decide (entry.readysetQueryId ≠ [])

def score (entry : Entry) : Double :=
  match entry.priority with
  | some value => .finite value.val
  | none => .finite (-1)

def sortValue (entry : Entry) : SortName → Double
  | .highestImpact => impactMs entry
  | .recentlyObserved => timestampMs p entry.lastObservedAt
  | .newest =>
    ((timestampMs p entry.savedAt).max (timestampMs p entry.firstObservedAt)).max (timestampMs p entry.firstAnalyzed)
  | .mostFrequent => finiteInt entry.frequency
  | .slowestAverage => finiteNumber entry.avgDurationMs
  | .recentlyAnalyzed => timestampMs p entry.lastAnalyzedAt
  | .jevPriority => score entry
  | .jevConcern concern =>
    .finite ((if findingMatches entry (.concern concern) = true then 1000 else 0) + (score entry).val)

end Metrics

/-- What a request for a page of the Library asks for. -/
structure Filters where
  target : Text
  search : Text
  view : ViewName
  starred : Option Bool
  source : SourceName
  params : ParamsName
  activity : ActivityName
  impact : ImpactName
  finding : FindingName
  sort : SortName

structure FacetCounts where
  view : ViewName → Nat
  source : SourceName → Nat
  params : ParamsName → Nat
  activity : ActivityName → Nat
  impact : ImpactName → Nat
  finding : FindingName → Nat

def emptyFacetCounts : FacetCounts := ⟨fun _ => 0, fun _ => 0, fun _ => 0, fun _ => 0, fun _ => 0, fun _ => 0⟩

/-- Where the next page goes on from. -/
structure Position where
  value : Double
  hash : Text
deriving DecidableEq

/-- The order of a page's rows: the metric descending, the hash ascending. -/
def Position.Before (first second : Position) : Prop :=
  second.value.val < first.value.val ∨ (first.value.val = second.value.val ∧ first.hash < second.hash)

instance : DecidableRel Position.Before := fun first second =>
  inferInstanceAs (Decidable (second.value.val < first.value.val ∨ _))

section Selection

variable (p : Platform) (nowMs : Double) (filters : Filters)

/-- Count the candidates of a facet that an entry meets. -/
def tally {Name : Type} (counts : Name → Nat) (others : Bool) (meets : Name → Bool) : Name → Nat :=
  fun name => if (others && meets name) = true then counts name + 1 else counts name

/-- One turn of the loop of `select_library`. -/
def selectEntry (state : FacetCounts × List Entry) (entry : Entry) : FacetCounts × List Entry :=
  let (counts, selected) := state
  let matchesView := viewMatches entry filters.view
  let matchesSource := sourceMatches entry filters.source
  let matchesParams := parameterMatches p.tables entry filters.params
  let matchesActivity := activityMatches p nowMs entry filters.activity
  let matchesImpact := impactMatches entry filters.impact
  let matchesFinding := findingMatches entry filters.finding
  ({ view := tally counts.view (matchesSource && matchesParams && matchesActivity && matchesImpact && matchesFinding)
      (viewMatches entry)
     source := tally counts.source (matchesView && matchesParams && matchesActivity && matchesImpact)
      (sourceMatches entry)
     params := tally counts.params (matchesView && matchesSource && matchesActivity && matchesImpact && matchesFinding)
      (parameterMatches p.tables entry)
     activity := tally counts.activity (matchesView && matchesSource && matchesParams && matchesImpact && matchesFinding)
      (activityMatches p nowMs entry)
     impact := tally counts.impact (matchesView && matchesSource && matchesParams && matchesActivity && matchesFinding)
      (impactMatches entry)
     finding := tally counts.finding (matchesView && matchesSource && matchesParams && matchesActivity && matchesImpact)
      (findingMatches entry) },
    if (matchesView && matchesSource && matchesParams && matchesActivity && matchesImpact && matchesFinding) = true
    then selected ++ [entry] else selected)

/-- The entries that the search and the star leave. -/
def candidates (entries : List Entry) : List Entry :=
  let searched := filterBySearch p entries filters.search
  match filters.starred with
  | none => searched
  | some starred => searched.filter fun entry => decide (decide (entry.savedAt ≠ []) = starred)

/-- The place of an entry in the order. -/
def Entry.position (entry : Entry) : Position := ⟨sortValue p entry filters.sort, entry.hash.val⟩

def selectLibrary (entries : List Entry) : List Entry × FacetCounts :=
  let (counts, selected) := (candidates p filters entries).foldl (selectEntry p nowMs filters) (emptyFacetCounts, [])
  (selected.insertionSort fun first second => ¬ (second.position p filters).Before (first.position p filters), counts)

def paginate (rows : List Entry) (cursorPosition : Option Position) (limit : Nat) : List Entry × Option Position :=
  let rows :=
    match cursorPosition with
    | none => rows
    | some cursor => rows.filter fun entry =>
        decide ((sortValue p entry filters.sort).val < cursor.value.val) ||
          (decide ((sortValue p entry filters.sort).val = cursor.value.val) && decide (cursor.hash < entry.hash.val))
  let page := rows.take limit
  match page.getLast? with
  | some last => if limit < rows.length then (page, some (last.position p filters)) else (page, none)
  | none => (page, none)

end Selection

end Rdst.Library.Listing
