import Mathlib.Logic.Relation
import Rdst.Analysis.Queue
import Rdst.Lib.Run

namespace Rdst.Analysis

open RowTable

/-- A call of the store; each is one `BEGIN IMMEDIATE` transaction, so calls of several processes interleave
    whole. -/
inductive Call
  | enqueue (target key : String) (reason : Reason) (priority : ℚ) (now : Int) (cap : Option Int)
  | skipOnce (target key : String) (reason : Reason) (now : Int) (explanation : String)
  | hold (jobId : Nat) (owner : String) (attempt : Nat)
  | retry (jobId : Nat) (owner : String) (attempt : Nat)
  | claim (process : Process) (target : String) (now : Int) (options : ClaimOptions)
  | updatePriorities (target : String) (weights : List (String × ℚ))
  | reprioritize (target : String) (weights : List (String × ℚ))
  | trim (target : String) (keep : Int) (reasons : List Reason)
  | drop (target : String) (keys : List String) (reasons : List Reason)
  | finish (jobId : Nat) (state : Outcome) (now : Int) (fields : FinishFields) (owner : String) (attempt : Nat)
  | cancel (jobId : Nat) (now : Int)
  | recordUser (target key text : String) (now : Int) (analysisRef : Option String) (mode : Option Mode)
  | recover (process : Process) (now timeout : Int)
  | setSetting (target key value : String)
  | addBucket (target : String) (start res : Int)

def Call.apply (calendar : Calendar) (s : Store) : Call → Store
  | .enqueue target key reason priority now cap => (enqueueAnalysis calendar s target key reason priority now cap).1
  | .skipOnce target key reason now explanation => (skipAnalysisOnce s target key reason now explanation).1
  | .hold jobId owner attempt => (holdAnalysis s jobId owner attempt).1
  | .retry jobId owner attempt => (retryAnalysis s jobId owner attempt).1
  | .claim process target now options => (claimAnalysis calendar process s target now options).1
  | .updatePriorities target weights => updateAnalysisPriorities s target weights
  | .reprioritize target weights => reprioritizeQueued s target weights
  | .trim target keep reasons => (trimAutomaticAnalyses s target keep reasons).1
  | .drop target keys reasons => (dropQueuedAnalyses s target keys reasons).1
  | .finish jobId state now fields owner attempt => (finishAnalysis s jobId state now fields owner attempt).1
  | .cancel jobId now => (cancelAnalysis s jobId now).1
  | .recordUser target key text now analysisRef mode =>
    (recordUserAnalysis s target key text now analysisRef mode).1
  | .recover process now timeout => recoverAnalysis process s now timeout
  | .setSetting target key value => writeSetting s target key value
  | .addBucket target start res => { s with dbSeries := s.dbSeries ++ [(target, start, res)] }

/-- What a call does to jobs: a worker starts one, one goes back to the queue from a worker that is dead or
    timed out, one taken from such a worker fails, one is deleted. -/
inductive Event
  | started (now : Int) (row : Row)
  | putBack (id : Nat)
  | gaveUp (id : Nat)
  | deleted (id : Nat)
deriving DecidableEq

def Store.idsWhere (s : Store) (test : Job → Bool) : List Nat :=
  (s.jobs.rows.filter fun row => test row.2).map Prod.fst

/-- The running jobs of the target whose worker is dead. -/
def isDead (process : Process) (target : String) (job : Job) : Bool :=
  job.target = target && job.state = .running && deadAnalysisOwner process job

def isAbandoned (process : Process) (now timeout : Int) (job : Job) : Bool :=
  job.state = .running && abandoned process now timeout job

def missing (before after : Store) : List Event :=
  ((before.jobs.rows.map Prod.fst).filter fun id => decide (after.jobs.lookup id = none)).map .deleted

def Call.events (calendar : Calendar) (s : Store) (call : Call) : List Event :=
  match call with
  | .claim process target now options =>
    let reclaimed := (s.idsWhere (isDead process target)).map .putBack
    match (claimAnalysis calendar process s target now options).2 with
    | .raised => []
    | .nothing => reclaimed
    | .started row => reclaimed ++ [.started now row]
  | .recover process now timeout =>
    (s.idsWhere fun job => isAbandoned process now timeout job && !job.recovered).map .putBack ++
      (s.idsWhere fun job => isAbandoned process now timeout job && job.recovered).map .gaveUp
  | call => missing s (call.apply calendar s)

def queueStep (calendar : Calendar) (s : Store) (call : Call) : Store × List Event :=
  (call.apply calendar s, call.events calendar s)

end Rdst.Analysis
