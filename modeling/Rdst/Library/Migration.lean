import Mathlib.Data.List.Dedup
import Mathlib.Data.List.Sort
import Rdst.Library.Rekey
import Rdst.Lib.Run
import Rdst.Observation.Rekey

namespace Rdst.Library

open Renaming Rdst.Observation

set_option linter.unusedSectionVars false

variable {Content Rank : Type} [LinearOrder Rank]

def analysisHistoryLimit : Nat := 10

/-- A row of `query_analysis`. `origin` is the hash under which the analysis was stored when the
    migrations began. -/
structure Analysis where
  queryHash : String
  analysisId : String
  createdAt : String
  target : String
  payload : String
  origin : String
deriving DecidableEq

/-- A body of analysis_results.toml, with `str(body.get(..) or "")` for the three fields that are read. -/
structure AnalysisBody where
  analysisId : String
  timestamp : String
  target : String
  payload : String

/-- library.db and what stands beside it. `fresh` marks a first import, which is one transaction;
    `gone` are the hashes of the identities that a prune removed. -/
structure Store (Content : Type) where
  version : Nat
  fresh : Bool
  cacheExists : Bool
  catalog : Catalog Content
  pending : List (String × String)
  analyses : List Analysis
  history : History
  gone : List String

/-- The data migrations with what they derive from the stored texts. -/
inductive Migration (Content : Type)
  | pruneSystemOnlyEntries (pass : Fin 5) (drop : Identity Content → Bool)
  | canonicalizePlaceholderHashes (derive : Identity Content → Option String)
  | repairPlaceholderArtifacts (derive : Identity Content → Option (Content × String))
  | repairV9Residue (derive : Identity Content → Option (Content × String))
      (legacy : Identity Content → List String)
  | pruneSelfTraffic (drop : Identity Content → Bool)
  | pruneSystemStatements (drop : Identity Content → Bool)
  | importAnalysisToml (results : List (String × List AnalysisBody))
  | rederiveIdentityHashes (again : Bool) (derive : Identity Content → Option String)

def Migration.version : Migration Content → Nat
  | .pruneSystemOnlyEntries pass _ => pass + 2
  | .canonicalizePlaceholderHashes _ => 8
  | .repairPlaceholderArtifacts _ => 9
  | .repairV9Residue .. => 10
  | .pruneSelfTraffic _ => 11
  | .pruneSystemStatements _ => 12
  | .importAnalysisToml _ => 13
  | .rederiveIdentityHashes again _ => if again then 18 else 16

def schemaVersion : Nat := 18

/-- A row whose derived hash is the stored one is skipped. -/
def elsewhere (derive : Identity Content → Option String) (row : Identity Content) : Option (Content × String) :=
  (derive row).bind fun target => if target = row.hash then none else some (row.content, target)

/-- The hashes that the text of exactly one surviving row had under the prior normalizer. -/
def staleIdentityHashes (legacy : Identity Content → List String) (rows : List (Identity Content)) :
    List (String × String) :=
  let live := rows.map Identity.hash
  let stale := rows.flatMap fun row =>
    ((legacy row).filter fun candidate => candidate ≠ row.hash).map fun candidate => (candidate, row.hash)
  (stale.map Prod.fst).reverse.dedup.reverse.filterMap fun old =>
    if old ∈ live then none
    else match ((stale.filter fun claim => claim.1 = old).map Prod.snd).dedup with
      | [claimant] => some (old, claimant)
      | _ => none

/-- Drop rows, and the moves that would land on one of them. -/
def prune (drop : Identity Content → Bool) (store : Store Content) : Store Content :=
  let dropped := store.catalog.rows.filter drop
  { store with
    catalog :=
      { rows := store.catalog.rows.filter fun row => !drop row
        moves := store.catalog.moves.filter fun move => move.2 ∉ dropped.map Identity.hash }
    gone := store.gone ++ dropped.flatMap Identity.carries }

def insertAnalysis (queryHash : String) (analyses : List Analysis) (body : AnalysisBody) : List Analysis :=
  if ∃ stored ∈ analyses, stored.queryHash = queryHash ∧ stored.analysisId = body.analysisId then analyses
  else analyses ++ [⟨queryHash, body.analysisId, body.timestamp, body.target, body.payload, queryHash⟩]

/-- The bodies of one query that are imported: the latest, those without an id left out. -/
def importable (bodies : List AnalysisBody) : List AnalysisBody :=
  ((bodies.insertionSort fun a b => b.timestamp ≤ a.timestamp).take analysisHistoryLimit).filter
    fun body => body.analysisId ≠ ""

def importAnalysisToml (results : List (String × List AnalysisBody)) (analyses : List Analysis) : List Analysis :=
  results.foldl (fun analyses query => (importable query.2).foldl (insertAnalysis query.1) analyses) analyses

/-- `UPDATE OR IGNORE query_analysis SET query_hash = new WHERE query_hash = old`. -/
def renameAnalyses (analyses : List Analysis) (old new : String) : List Analysis :=
  analyses.map fun stored =>
    if stored.queryHash = old ∧
        ¬ ∃ other ∈ analyses, other.queryHash = new ∧ other.analysisId = stored.analysisId then
      { stored with queryHash := new }
    else stored

def renameAll (moves : List (String × String)) (analyses : List Analysis) : List Analysis :=
  moves.foldl (fun analyses move => renameAnalyses analyses move.1 move.2) analyses

/-- The analysis updates of `_rederive_identity_hashes`, in the order of its scan. -/
def scanMoves (movers : List (Mover Content)) : List (String × String) :=
  movers.map fun mover => (mover.row.hash, mover.target)

def rederiveIdentityHashes (curation : Curation Content Rank) (derive : Identity Content → Option String)
    (store : Store Content) : Store Content :=
  let moves := update store.pending store.catalog.moves
  let found := movers (elsewhere derive) store.catalog.rows
  let applied := applyIdentityMoves curation { store.catalog with moves := moves } found
  { store with
    catalog := { applied with moves := if store.cacheExists then applied.moves else [] }
    pending := if store.cacheExists then store.pending else []
    analyses := renameAll (scanMoves found) store.analyses }

def runMigration (curation : Curation Content Rank) (store : Store Content) :
    Migration Content → Store Content
  | .pruneSystemOnlyEntries _ drop =>
    { store with
      catalog := { store.catalog with rows := store.catalog.rows.filter fun row => !drop row }
      gone := store.gone ++ (store.catalog.rows.filter drop).flatMap Identity.carries }
  | .canonicalizePlaceholderHashes derive =>
    { store with
      catalog := canonicalizePlaceholderHashes curation store.catalog
        (movers (elsewhere derive) store.catalog.rows) }
  | .repairPlaceholderArtifacts derive =>
    { store with
      catalog := applyIdentityMoves curation store.catalog (movers derive store.catalog.rows) }
  | .repairV9Residue derive legacy =>
    let applied := applyIdentityMoves curation store.catalog (movers derive store.catalog.rows)
    { store with
      catalog := { applied with moves := update applied.moves (staleIdentityHashes legacy applied.rows) } }
  | .pruneSelfTraffic drop => prune drop store
  | .pruneSystemStatements drop => prune drop store
  | .importAnalysisToml results =>
    { store with analyses := importAnalysisToml results store.analyses }
  | .rederiveIdentityHashes _ derive => rederiveIdentityHashes curation derive store

/-- The moves of earlier processes that this one has not recorded again. -/
def outstanding (pending moves : List (String × String)) : List (String × String) :=
  pending.filter fun move => move.1 ∉ keys moves

/-- What the journal and the moves in memory have observations follow. -/
def Store.journal (store : Store Content) : List (String × String) :=
  outstanding store.pending store.catalog.moves ++ store.catalog.moves

/-- `INSERT OR REPLACE INTO pending_identity_move`; a first import writes it at its end only. -/
def Store.journaled (store : Store Content) : Store Content :=
  if store.fresh = true ∧ store.version < schemaVersion then store
  else { store with pending := store.journal }

/-- How the re-keying of cache.db ends: it fails, the process dies before the journal is cleared, or both
    are done. -/
inductive CacheWrite
  | failed
  | uncleared
  | done

inductive Action (Content : Type)
  | migrate (migration : Migration Content)
  | restart
  | rekeyHistory (ends : CacheWrite)

/-- `_rekey_observation_history` with the journal that `ensure_open` reads before it. -/
def rekeyHistory (store : Store Content) (ends : CacheWrite) : Store Content :=
  let moves := update store.catalog.moves store.pending
  let idle := { store with catalog := { store.catalog with moves := [] } }
  if store.cacheExists = true then
    match ends with
    | .failed => idle
    | .uncleared => { idle with history := (rekeyIdentities store.history moves).1 }
    | .done =>
      { idle with
        history := (rekeyIdentities store.history moves).1
        pending := store.pending.filter fun move => move ∉ moves }
  else idle

def step (curation : Curation Content Rank) (store : Store Content) : Action Content → Store Content
  | .migrate migration =>
    if store.version < migration.version then
      Store.journaled { runMigration curation store migration with version := migration.version }
    else store
  -- A first import that dies is rolled back as a whole and begins again.
  | .restart =>
    if store.fresh = true ∧ store.version < schemaVersion then store
    else { store with catalog := { store.catalog with moves := [] } }
  | .rekeyHistory ends => if store.version = schemaVersion then rekeyHistory store ends else store

end Rdst.Library
