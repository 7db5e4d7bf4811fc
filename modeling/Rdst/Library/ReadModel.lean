import Rdst.Lib.Keyset
import Rdst.Library.Selectors

namespace Rdst.Library.Listing

open Assoc Float64 PyText Like Keyset

/-- The columns of `target_query` that the read model keeps, flags as what they say. -/
structure Row where
  rmHash : Text
  rmSearchText : Text
  rmSourceObserved : Bool
  rmSourceAsk : Bool
  rmSourceManual : Bool
  rmSourceFile : Bool
  rmSourceScan : Bool
  rmHasParameters : Bool
  rmParameterValuesReady : Bool
  rmIsNew : Bool
  rmIsSaved : Bool
  rmHighImpact : Bool
  rmNeedsAnalysis : Bool
  rmReadyToCache : Bool
  rmIsCached : Bool
  rmLatestActivityMs : Double
  rmImpactMs : Double
  rmLastObservedMs : Double
  rmNewestMs : Double
  rmFrequency : Double
  rmAvgDurationMs : Double
  rmRecentlyAnalyzedMs : Double
  rmJevPriority : Double
  rmJevFindings : Nat

def findingBit : Concern → Nat
  | .accessExpressionRisk => 0
  | .indexCoverage => 1
  | .joinGrowth => 2
  | .repeatedWork => 3
  | .broadWork => 4

def findingMask (findings : List Concern) : Nat := findings.foldl (fun mask finding => mask ||| 1 <<< findingBit finding) 0

section Columns

variable (p : Platform)

/-- `_read_model_values`, with what `complete_assessment` writes beside it. -/
def readModelValues (entry : Entry) : Row :=
  let displayName := if strip entry.tag ≠ [] then strip entry.tag else deriveQueryName p entry.text
  let values := [entry.tag, displayName, entry.question, entry.sql, entry.originalSql].filter fun value => value ≠ []
  let sourceValues := (entry.sources ++ [entry.source]).filter fun value => value ≠ []
  let parameters := detectParameters p.tables entry.text
  let avgDurationMs := finiteNumber entry.avgDurationMs
  let impact := Double.finite (avgDurationMs.val * (finiteInt entry.observationCount).val)
  let lastObservedMs := timestampMs p entry.lastObservedAt
  let analyzedMs := timestampMs p entry.lastAnalyzedAt
  { rmHash := entry.hash.val
    rmSearchText := ['\n'].intercalate (values.map (normalizeSearch p))
    rmSourceObserved := sourceValues.any fun value => value ∈ observedSources
    rmSourceAsk := sourceValues.any fun value => value ∈ askSources
    rmSourceManual := sourceValues.any fun value => value ∈ manualSources
    rmSourceFile := decide ("file".toList ∈ sourceValues)
    rmSourceScan := decide ("scan".toList ∈ sourceValues)
    rmHasParameters := !parameters.isEmpty
    rmParameterValuesReady := !parameters.isEmpty && parameters.all fun param =>
      decide (strip (resolveInitialValue param entry.mostRecentParams) ≠ [])
    rmIsNew := decide (entry.firstObservedAt ≠ []) && !decide (entry.reviewedAt ≠ [])
    rmIsSaved := decide (entry.savedAt ≠ [])
    rmHighImpact := decide (0 < impact.val)
    rmNeedsAnalysis := !decide (entry.lastAnalyzedAt ≠ [])
    rmReadyToCache := !decide (entry.readysetQueryId ≠ []) && decide (entry.readysetSupported = "yes".toList) &&
      !decide ("unsupported".toList <+: entry.readysetSupported)
    rmIsCached := decide (entry.readysetQueryId ≠ [])
    rmLatestActivityMs := ((lastObservedMs.max analyzedMs).max (timestampMs p entry.lastComparedAt)).max
      (timestampMs p entry.lastAnalyzed)
    rmImpactMs := impact
    rmLastObservedMs := lastObservedMs
    rmNewestMs := ((timestampMs p entry.savedAt).max (timestampMs p entry.firstObservedAt)).max
      (timestampMs p entry.firstAnalyzed)
    rmFrequency := finiteInt entry.frequency
    rmAvgDurationMs := avgDurationMs
    rmRecentlyAnalyzedMs := analyzedMs
    rmJevPriority := match entry.priority with
      | some value => .finite value.val
      | none => .finite (-1)
    rmJevFindings := findingMask entry.findings }

def viewColumn (row : Row) : ViewName → Bool
  | .all => true
  | .new => row.rmIsNew
  | .saved => row.rmIsSaved
  | .highImpact => row.rmHighImpact
  | .needsAnalysis => row.rmNeedsAnalysis
  | .readyToCache => row.rmReadyToCache
  | .cached => row.rmIsCached

def sourceColumn (row : Row) : SourceName → Bool
  | .all => true
  | .observed => row.rmSourceObserved
  | .ask => row.rmSourceAsk
  | .manual => row.rmSourceManual
  | .file => row.rmSourceFile
  | .scan => row.rmSourceScan

def paramColumn (row : Row) : ParamsName → Bool
  | .all => true
  | .withoutParameters => !row.rmHasParameters
  | .valuesReady => row.rmParameterValuesReady
  | .valuesNeeded => row.rmHasParameters && !row.rmParameterValuesReady

/-- `_activity_sql`, whose cutoff is written into the statement and read by SQLite. -/
def activitySql (nowMs : Double) (row : Row) (name : ActivityName) : Bool :=
  match activityWindowMs name with
  | none => true
  | some window =>
    let cutoff := (Double.finite (nowMs.val - window)).repr.read.getD 0
    decide (0 < row.rmLatestActivityMs.val) && decide (cutoff ≤ row.rmLatestActivityMs.val)

def impactSql (row : Row) (name : ImpactName) : Bool := decide (impactThresholdMs name ≤ row.rmImpactMs.val)

def findingColumn (row : Row) : FindingName → Bool
  | .all => true
  | .concern concern => decide (row.rmJevFindings &&& 1 <<< findingBit concern ≠ 0)
  | .any => decide (row.rmJevFindings ≠ 0)
  | .none => decide (0 ≤ row.rmJevPriority.val) && decide (row.rmJevFindings = 0)

def sortTerm (row : Row) : SortName → Double
  | .highestImpact => row.rmImpactMs
  | .recentlyObserved => row.rmLastObservedMs
  | .newest => row.rmNewestMs
  | .mostFrequent => row.rmFrequency
  | .slowestAverage => row.rmAvgDurationMs
  | .recentlyAnalyzed => row.rmRecentlyAnalyzedMs
  | .jevPriority => row.rmJevPriority
  | .jevConcern concern =>
    .finite ((if row.rmJevFindings &&& 1 <<< findingBit concern ≠ 0 then 1000 else 0) + row.rmJevPriority.val)

end Columns

/-- A row of `target_query`, joined with its identity and its assessment. -/
structure Stored where
  targetKey : Text
  entry : Entry
  row : Row

/-- A library whose columns are those of its entries. -/
structure LibraryTable (p : Platform) where
  rows : List Stored
  derived : ∀ stored ∈ rows, stored.row = readModelValues p stored.entry
  distinct : (rows.map fun stored => (stored.targetKey, stored.entry.hash.val)).Nodup

/-- The predicates of one request, a dimension each. -/
structure Predicates where
  view : Row → Bool
  source : Row → Bool
  params : Row → Bool
  activity : Row → Bool
  impact : Row → Bool
  finding : Row → Bool

def dimensionPredicates (filters : Filters) (nowMs : Double) : Predicates :=
  { view := fun row => viewColumn row filters.view
    source := fun row => sourceColumn row filters.source
    params := fun row => paramColumn row filters.params
    activity := fun row => activitySql nowMs row filters.activity
    impact := fun row => impactSql row filters.impact
    finding := fun row => findingColumn row filters.finding }

def Predicates.all (selected : Predicates) (row : Row) : Bool :=
  selected.view row && selected.source row && selected.params row && selected.activity row && selected.impact row &&
    selected.finding row

/-- `_search_clause`, over the rows of the target. -/
def searchClause (p : Platform) (rawSearch : Text) (rows : List Stored) (row : Row) : Bool :=
  let search := normalizeSearch p rawSearch
  if search = [] then true
  else
    let starts := fun row : Row => like '\\' (escapeLike search ++ ['%']) row.rmHash
    decide (row.rmHash = search) ||
      (decide (4 ≤ search.length) && starts row && decide (rows.countP (fun stored => starts stored.row) = 1)) ||
      like '\\' ('%' :: (escapeLike search ++ ['%'])) row.rmSearchText

structure LibraryPage where
  entries : List Entry
  facets : FacetCounts
  total : Nat
  next : Option Position

section Query

variable (p : Platform) (rows : List Stored) (filters : Filters)

/-- The rows of the target that the search and the star leave. -/
def candidateRows : List Stored :=
  let ofTarget := rows.filter fun stored => stored.targetKey = filters.target
  ofTarget.filter fun stored =>
    searchClause p filters.search ofTarget stored.row &&
      match filters.starred with
      | none => true
      | some true => stored.row.rmIsSaved
      | some false => !stored.row.rmIsSaved

def facetCounts (nowMs : Double) (candidate : List Stored) : FacetCounts :=
  let selected := dimensionPredicates filters nowMs
  { view := fun name => candidate.countP fun stored => let row := stored.row
      selected.source row && selected.params row && selected.activity row && selected.impact row &&
        selected.finding row && viewColumn row name
    source := fun name => candidate.countP fun stored => let row := stored.row
      selected.view row && selected.params row && selected.activity row && selected.impact row &&
        selected.finding row && sourceColumn row name
    params := fun name => candidate.countP fun stored => let row := stored.row
      selected.view row && selected.source row && selected.activity row && selected.impact row &&
        selected.finding row && paramColumn row name
    activity := fun name => candidate.countP fun stored => let row := stored.row
      selected.view row && selected.source row && selected.params row && selected.impact row &&
        selected.finding row && activitySql nowMs row name
    impact := fun name => candidate.countP fun stored => let row := stored.row
      selected.view row && selected.source row && selected.params row && selected.activity row &&
        selected.finding row && impactSql row name
    finding := fun name => candidate.countP fun stored => let row := stored.row
      selected.view row && selected.source row && selected.params row && selected.activity row &&
        selected.impact row && findingColumn row name }

/-- The place of a row in the order. -/
def Stored.place (sort : SortName) (stored : Stored) : Position := ⟨sortTerm stored.row sort, stored.row.rmHash⟩

/-- `ORDER BY` the sort's term descending and the hash. -/
def orderRows (sort : SortName) (rows : List Stored) : List Stored := ordered Position.Before (Stored.place sort) rows

/-- The rows of a page and one to probe for more. -/
def pageRows (nowMs : Double) (cursorPosition : Option Position) (probe : Nat) : List Stored :=
  let selected := dimensionPredicates filters nowMs
  let base := (candidateRows p rows filters).filter fun stored => selected.all stored.row
  match cursorPosition with
  | none => (orderRows filters.sort base).take probe
  | some cursor =>
    let lowerMetric := (orderRows filters.sort (base.filter fun stored =>
      decide ((sortTerm stored.row filters.sort).val < cursor.value.val))).take probe
    let sameMetric := (orderRows filters.sort (base.filter fun stored =>
      decide ((sortTerm stored.row filters.sort).val = cursor.value.val) &&
        decide (cursor.hash < stored.row.rmHash))).take probe
    (orderRows filters.sort (lowerMetric ++ sameMetric)).take probe

def queryLibrary (cursorPosition : Option Position) (limit : Nat) (nowMs : Double) : LibraryPage :=
  let candidate := candidateRows p rows filters
  let selected := dimensionPredicates filters nowMs
  let found := pageRows p rows filters nowMs cursorPosition (limit + 1)
  let pageRows := found.take limit
  { entries := pageRows.map Stored.entry
    facets := facetCounts filters nowMs candidate
    total := candidate.countP fun stored => selected.all stored.row
    next := match pageRows.getLast? with
      | some last =>
        if limit < found.length then some ⟨sortTerm last.row filters.sort, last.entry.hash.val⟩ else none
      | none => none }

end Query

end Rdst.Library.Listing
