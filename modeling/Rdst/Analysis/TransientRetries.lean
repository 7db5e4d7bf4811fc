import Mathlib.Data.List.Dedup
import Mathlib.Data.String.Basic
import Rdst.Analysis.Fencing

namespace Rdst.Analysis

open RowTable Machine

/-- Why an analysis did not finish. -/
inductive ErrorKind
  | retrying
  | signIn
  | aiUnavailable
  | aiBadAnswer
  | notAnalyzable
  | timeout
  | planFailed
deriving DecidableEq

def aiUnavailableCodes : List String := ["upstream_error", "hosted_inference_unavailable", "hosted_deadline_exceeded",
  "hosted_inference_error", "accounting_unavailable", "llm analysis failed", "no response from llm", "hosted_upstream_busy"]

def aiBadAnswerCodes : List String := ["parse llm response", "hosted_inference_invalid_response"]

def notAnalyzableCodes : List String := ["dangerous keyword found", "reaches outside", "only select statements",
  "not safe to explain", "read-only safety", "so rdst doesn't run it", "no query plan to analyze", "which rdst won't run",
  "isn't a query"]

/-- `_TRANSIENT_CODES`. -/
def transientCodes : List String := ["deadline exceeded", "proxy_unreachable", "connection_error", "stream_interrupted",
  "stream_failed", "anthropic_unavailable"]

/-- `RETRY_BACKOFF_S`. -/
def retryBackoff : List Int := [60, 300, 1800]

section Plan

-- `str.lower`
variable (lower : List Char → List Char)

def mentions (codes : List String) (error : String) : Bool :=
  codes.any fun code => decide (code.toList <:+: lower error.toList)

def analysisErrorKind (state : JobState) (error : Option String) : Option ErrorKind :=
  let text := error.getD ""
  if state = .running ∧ (text = "retrying" ∨ text = "retrying_after_recovery") then some .retrying
  else if (state ≠ .failed ∧ state ≠ .skipped) ∨ text = "" then none
  else if mentions lower ["login_required"] text = true then some .signIn
  else if mentions lower aiUnavailableCodes text = true then some .aiUnavailable
  else if mentions lower aiBadAnswerCodes text = true then some .aiBadAnswer
  else if mentions lower notAnalyzableCodes text = true then some .notAnalyzable
  else if mentions lower ["timed out", "timeout"] text = true then some .timeout
  else if mentions lower ["explain failed", "syntax error", "does not exist"] text = true then some .planFailed
  else none

def isTransientFailure (error : Option String) : Bool :=
  let text := error.getD ""
  let kind := analysisErrorKind lower .failed error
  text ≠ "" && (kind = some .aiUnavailable || kind = some .aiBadAnswer || mentions lower transientCodes text)

def Job.failedTransiently (job : Job) : Bool := job.state = .failed && isTransientFailure lower job.error

def Job.ofQuery (target key : String) (job : Job) : Bool := job.target = target && job.queryKey = key

/-- The jobs of a query, newest first. -/
def Store.history (s : Store) (target key : String) : List Row :=
  (s.jobs.rows.filter fun row => row.2.ofQuery target key).reverse

/-- The newest jobs up to the first that did not fail on the AI service. -/
def streak (rows : List Row) : List Row := rows.takeWhile fun row => row.2.failedTransiently lower

structure RetryPlan where
  attempts : Nat
  reason : Reason
  retryAt : Option Int

/-- `finished_at or now`. -/
def Job.finishedOr (job : Job) (now : Int) : Int :=
  match job.finishedAt with
  | some time => if time = 0 then now else time
  | none => now

def planOf (rows : List Row) (now : Int) : Option RetryPlan :=
  match streak lower rows with
  | [] => none
  | newest :: rest =>
    some ⟨rest.length + 1, newest.2.reason, retryBackoff[rest.length]?.map fun wait => newest.2.finishedOr now + wait⟩

def Job.failedSince (target : String) (since : Int) (job : Job) : Bool :=
  job.target = target && job.state = .failed && job.finishedAt.any fun time => decide (since ≤ time)

def retryPlan (s : Store) (target : String) (now : Int) : List (String × RetryPlan) :=
  let keys := ((s.jobs.rows.filter fun row => row.2.failedSince target (now - 86400)).map fun row => row.2.queryKey).dedup
  (keys.insertionSort (· ≤ ·)).filterMap fun key => (planOf lower (s.history target key) now).map fun plan => (key, plan)

end Plan

/-- What a pass reads besides the jobs: the queries of full detail, `automatic_skip_reason`, the load of each query and
    whether automatic analysis is on. -/
structure Readings where
  fullDetail : List String
  skipReason : String → Option String
  load : String → ℚ
  deepAnalysis : Bool

/-- `_enqueue` without a priority of its own. -/
def enqueueJob (calendar : Calendar) (readings : Readings) (s : Store) (target key : String) (reason : Reason) (now : Int)
    (cap : Option Int) : Store × Option Row :=
  match s.queryText.find? fun row => row.target = target && row.queryKey = key with
  | none => (s, none)
  | some row =>
    if reason = .user then enqueueAnalysis calendar s target key reason (readings.load key) now none
    else if key ∉ readings.fullDetail then (s, none)
    else
      match readings.skipReason row.text with
      | some skip => ((skipAnalysisOnce s target key reason now skip).1, none)
      | none =>
        if (s.jobs.last (Job.isFor target key .skipped)).isSome = true then (s, none)
        else enqueueAnalysis calendar s target key reason (readings.load key) now cap

/-- One turn of the loop of `enqueue_transient_retries`. -/
def retryTurn (calendar : Calendar) (readings : Readings) (target : String) (now : Int) (s : Store)
    (item : String × RetryPlan) : Store × Option Row :=
  if item.2.retryAt.all (fun time => decide (now < time)) = true then (s, none)
  else if item.2.reason ≠ .user ∧ readings.deepAnalysis = false then (s, none)
  else enqueueJob calendar readings s target item.1 item.2.reason now none

def enqueueTransientRetries (lower : List Char → List Char) (calendar : Calendar) (readings : Readings) (s : Store)
    (target : String) (now : Int) : Store × List Row :=
  (retryPlan lower s target now).foldl (fun done item =>
    let turn := retryTurn calendar readings target now done.1 item
    (turn.1, done.2 ++ turn.2.toList)) (s, [])

/-- What may happen next: a call of the store, or a pass of the queue, which has the store to itself. -/
inductive Move
  | call (call : Call)
  | retries (target : String) (now : Int) (readings : Readings)

/-- The store, and the ids of the jobs in it that a pass enqueued again. -/
structure Marked where
  store : Store
  retried : List Nat

def moveStep (lower : List Char → List Char) (calendar : Calendar) (m : Marked) : Move → Marked
  | .call call =>
    let after := call.apply calendar m.store
    ⟨after, m.retried.filter fun id => (after.jobs.lookup id).isSome⟩
  | .retries target now readings =>
    let pass := enqueueTransientRetries lower calendar readings m.store target now
    ⟨pass.1, m.retried ++ (pass.2.map Prod.fst).filter fun id => (m.store.jobs.lookup id).isNone⟩

/-- The jobs of a query from before the one with the id, newest first. -/
def Store.older (s : Store) (target key : String) (id : Nat) : List Row :=
  (s.jobs.rows.filter fun row => decide (row.1 < id) && row.2.ofQuery target key).reverse

/-- The jobs before end in a streak that the backoff still has a step for, and the step was over. -/
def Spaced (lower : List Char → List Char) (older : List Row) (enqueuedAt : Int) : Prop :=
  ∃ newest rest wait finished, streak lower older = newest :: rest ∧ retryBackoff[rest.length]? = some wait ∧
    newest.2.finishedAt = some finished ∧ finished + wait ≤ enqueuedAt

section Frames

variable {calendar : Calendar} {s : Store} {call : Call} {id : Nat} {target key : String} {job later : Job}

theorem ofQuery_iff : job.ofQuery target key = true ↔ job.target = target ∧ job.queryKey = key := by
  simp [Job.ofQuery]

theorem mem_history {row : Row} : row ∈ s.history target key ↔
    s.jobs.lookup row.1 = some row.2 ∧ row.2.target = target ∧ row.2.queryKey = key := by
  rw [Store.history, List.mem_reverse, List.mem_filter, ← Table.mem_rows_iff, ofQuery_iff]

theorem mem_older {row : Row} : row ∈ s.older target key id ↔ row.1 < id ∧ row ∈ s.history target key := by
  rw [Store.older, Store.history, List.mem_reverse, List.mem_reverse, List.mem_filter, List.mem_filter]
  simp [and_left_comm]

/-- A row comes after all of its query that are there when it is inserted. -/
theorem older_nextId : s.older target key s.jobs.nextId = s.history target key := by
  rw [Store.older, Store.history]
  congr 1
  apply List.filter_congr
  intro row member
  simp [s.jobs.lt_nextId member]

theorem Edit.same_time (edit : Edit call id job later) : later.enqueuedAt = job.enqueuedAt := by
  cases edit <;> rfl

theorem Edits.same (edits : Edits call id job later) :
    later.target = job.target ∧ later.queryKey = job.queryKey ∧ later.enqueuedAt = job.enqueuedAt := by
  induction edits with
  | refl => exact ⟨rfl, rfl, rfl⟩
  | tail _ edit ih =>
    exact ⟨edit.same_query.1.trans ih.1, edit.same_query.2.trans ih.2.1, edit.same_time.trans ih.2.2⟩

/-- Jobs that are over stay as they are, and new ones come after them. -/
theorem older_unchanged (calendar : Calendar) (call : Call) (present : s.jobs.lookup id = some job)
    (ended : ∀ row ∈ s.older target key id, row.2.isOver) :
    (call.apply calendar s).older target key id = s.older target key id := by
  rw [Store.older, Store.older]
  congr 1
  apply Table.filter_rows_congr
  rintro ⟨id', found⟩ passes
  simp only [Bool.and_eq_true, decide_eq_true_eq] at passes
  rw [Table.mem_rows_iff, Table.mem_rows_iff]
  have stays {old : Job} (before : s.jobs.lookup id' = some old) (of : old.ofQuery target key = true) : old.isOver := by
    apply ended (id', old)
    rw [mem_older, mem_history]
    exact ⟨passes.1, before, ofQuery_iff.mp of⟩
  constructor
  · intro after
    have fate := fate calendar s call id'
    rw [after] at fate
    generalize before : s.jobs.lookup id' = row at fate
    cases fate with
    | inserted new =>
      have early := s.jobs.lt_nextId (s.jobs.mem_rows_iff.mpr present)
      exact absurd passes.1 (Nat.lt_asymm early)
    | edited edits =>
      rename_i old
      have of : old.ofQuery target key = true := by
        rw [ofQuery_iff, ← edits.same.1, ← edits.same.2.1, ← ofQuery_iff]
        exact passes.2
      have same := over_unchanged calendar call before (stays before of)
      rw [after] at same
      exact same.symm
  · intro before
    exact over_unchanged calendar call before (stays before passes.2)

/-- The calls of a pass touch the query that they name. -/
theorem history_other (calendar : Calendar) {other : String} (differs : other ≠ key)
    (named : (∃ reason priority now cap, call = .enqueue target key reason priority now cap) ∨
      ∃ reason now explanation, call = .skipOnce target key reason now explanation) :
    (call.apply calendar s).history target other = s.history target other := by
  have edits_ {id : Nat} {job later : Job} (edits : Edits call id job later) (of : job.queryKey = other) : later = job := by
    rcases edits.cases_head with same | ⟨_, edit, -⟩
    · exact same.symm
    · rcases named with ⟨_, _, _, _, rfl⟩ | ⟨_, _, _, rfl⟩ <;> cases edit <;> exact absurd of.symm differs
  rw [Store.history, Store.history]
  congr 1
  apply Table.filter_rows_congr
  rintro ⟨id', found⟩ passes
  rw [Table.mem_rows_iff, Table.mem_rows_iff]
  have fate := fate calendar s call id'
  have of := (ofQuery_iff.mp passes).2
  constructor
  · intro after
    rw [after] at fate
    generalize before : s.jobs.lookup id' = row at fate
    cases fate with
    | inserted new =>
      rcases named with ⟨_, _, _, _, rfl⟩ | ⟨_, _, _, rfl⟩ <;> cases new <;> exact absurd of.symm differs
    | edited edits => rw [edits_ edits (edits.same.2.1 ▸ of)]
  · intro before
    rw [before] at fate
    generalize after : (call.apply calendar s).jobs.lookup id' = row at fate
    cases fate with
    | edited edits => rw [edits_ edits of]
    | deleted gone => rcases named with ⟨_, _, _, _, rfl⟩ | ⟨_, _, _, rfl⟩ <;> exact gone.elim

end Frames

/-- A job that a pass enqueued when it might. -/
def Backed (lower : List Char → List Char) (s : Store) (id : Nat) : Prop :=
  ∃ job, s.jobs.lookup id = some job ∧ (∀ row ∈ s.older job.target job.queryKey id, row.2.isOver) ∧
    Spaced lower (s.older job.target job.queryKey id) job.enqueuedAt

section Passes

variable {lower : List Char → List Char} {calendar : Calendar} {s : Store} {id : Nat} {target key : String}
variable {now : Int}

theorem Backed.after (backed : Backed lower s id) (call : Call) (stays : ((call.apply calendar s).jobs.lookup id).isSome) :
    Backed lower (call.apply calendar s) id := by
  obtain ⟨job, present, ended, spaced⟩ := backed
  have fate := fate calendar s call id
  rw [present] at fate
  obtain ⟨later, after⟩ := Option.isSome_iff_exists.mp stays
  rw [after] at fate
  cases fate with
  | edited edits =>
    obtain ⟨of, for_, time⟩ := edits.same
    refine ⟨later, after, ?_⟩
    rw [of, for_, time, older_unchanged calendar call present ended]
    exact ⟨ended, spaced⟩

theorem Backed.present (backed : Backed lower s id) : (s.jobs.lookup id).isSome := by
  obtain ⟨job, present, -⟩ := backed
  rw [present]
  rfl

/-- The calls of a pass delete nothing. -/
theorem named_keeps {call : Call} (named : (∃ reason priority now cap, call = .enqueue target key reason priority now cap) ∨
    ∃ reason now explanation, call = .skipOnce target key reason now explanation) (present : (s.jobs.lookup id).isSome) :
    ((call.apply calendar s).jobs.lookup id).isSome := by
  obtain ⟨job, before⟩ := Option.isSome_iff_exists.mp present
  have fate := fate calendar s call id
  rw [before] at fate
  generalize (call.apply calendar s).jobs.lookup id = row at fate ⊢
  cases fate with
  | edited => rfl
  | deleted gone => rcases named with ⟨_, _, _, _, rfl⟩ | ⟨_, _, _, rfl⟩ <;> exact gone.elim

theorem isOver_of_not_live {job : Job} (idle : job.isLive target key = false) (of : job.target = target)
    (for_ : job.queryKey = key) : job.isOver := by
  rw [Bool.eq_false_iff, Ne, isLive_iff] at idle
  unfold Job.isOver
  cases state : job.state <;> simp_all

/-- The row that a call of a pass returns is one that was there, or a new one of a query without a live job. -/
theorem enqueueAnalysis_row {reason : Reason} {priority : ℚ} {row : Row}
    (returned : (enqueueAnalysis calendar s target key reason priority now none).2 = some row) :
    (∃ old, s.jobs.lookup row.1 = some old ∧ old.target = target ∧ old.queryKey = key) ∨
      s.jobs.last (Job.isLive target key) = none ∧ row.1 = s.jobs.nextId ∧
        (enqueueAnalysis calendar s target key reason priority now none).1 =
          (s.insertJob { blankJob target key reason .queued now with priority := priority }).1 := by
  unfold enqueueAnalysis at returned ⊢
  cases found : s.jobs.last (Job.isLive target key) with
  | some live =>
    left
    obtain ⟨special, existing⟩ := live
    obtain ⟨present, alive⟩ := s.jobs.last_some found
    obtain ⟨of, for_, -⟩ := isLive_iff.mp alive
    rw [found] at returned
    simp only at returned
    split at returned
    · simp only [Store.row, Store.updateJob, Table.lookup_update, Option.map_map, Option.map_eq_some_iff] at returned
      obtain ⟨_, _, rfl⟩ := returned
      exact ⟨existing, present, of, for_⟩
    · cases returned
  | none =>
    right
    rw [found] at returned
    simp only [Option.any_none, Bool.false_eq_true, and_false, if_false] at returned
    cases returned
    simp [Store.insertJob]

/-- What a new job finds behind it. -/
theorem backed_of_inserted {job : Job} (idle : s.jobs.last (Job.isLive job.target job.queryKey) = none)
    (spaced : Spaced lower (s.history job.target job.queryKey) job.enqueuedAt) :
    Backed lower (s.insertJob job).1 s.jobs.nextId := by
  have same : (s.insertJob job).1.older job.target job.queryKey s.jobs.nextId = s.history job.target job.queryKey := by
    rw [← older_nextId, Store.older, Store.older, Store.insertJob, Table.insert, List.filter_append]
    simp
  refine ⟨job, ?_, ?_, ?_⟩
  · rw [Store.insertJob, Table.lookup_insert, if_pos rfl]
  · rw [same]
    intro row member
    obtain ⟨found, of, for_⟩ := mem_history.mp member
    exact isOver_of_not_live ((s.jobs.last_none).mp idle row.1 row.2 found) of for_
  · rwa [same]

theorem spaced_of_plan {rows : List Row} {plan : RetryPlan} {time : Int} (planned : planOf lower rows now = some plan)
    (due : plan.retryAt = some time) (up : time ≤ now) : Spaced lower rows now := by
  unfold planOf at planned
  cases newest : streak lower rows with
  | nil =>
    rw [newest] at planned
    cases planned
  | cons first rest =>
    rw [newest] at planned
    cases planned
    obtain ⟨wait, step, rfl⟩ := Option.map_eq_some_iff.mp due
    have positive : 0 < wait := by
      have member := List.mem_of_getElem? step
      simp only [retryBackoff, List.mem_cons, List.not_mem_nil, or_false] at member
      omega
    refine ⟨first, rest, wait, first.2.finishedOr now, newest, step, ?_, up⟩
    unfold Job.finishedOr at up ⊢
    cases finished : first.2.finishedAt with
    | none =>
      rw [finished] at up
      simp only at up
      omega
    | some moment =>
      rw [finished] at up
      simp only at up ⊢
      split
      · rename_i zero
        rw [if_pos zero] at up
        omega
      · rfl

/-- A turn of a pass calls the store once at most, about its own query; a row that it returns is new and backed, or old. -/
theorem retryTurn_cases (calendar : Calendar) (readings : Readings) (s : Store) {item : String × RetryPlan}
    (planned : planOf lower (s.history target item.1) now = some item.2) :
    retryTurn calendar readings target now s item = (s, none) ∨
    ∃ call : Call, ((∃ reason priority now cap, call = .enqueue target item.1 reason priority now cap) ∨
        ∃ reason now explanation, call = .skipOnce target item.1 reason now explanation) ∧
      (retryTurn calendar readings target now s item).1 = call.apply calendar s ∧
      ∀ row, (retryTurn calendar readings target now s item).2 = some row →
        (∃ old, s.jobs.lookup row.1 = some old ∧ old.target = target ∧ old.queryKey = item.1) ∨
          Backed lower (call.apply calendar s) row.1 := by
  unfold retryTurn
  split
  · exact .inl rfl
  · rename_i late
    obtain ⟨time, due, up⟩ : ∃ time, item.2.retryAt = some time ∧ time ≤ now := by
      cases due : item.2.retryAt with
      | none => simp [due] at late
      | some time => exact ⟨time, rfl, by simpa [due] using late⟩
    have spaced := spaced_of_plan planned due up
    have enqueued (reason : Reason) (priority : ℚ) :
        ∀ row, (enqueueAnalysis calendar s target item.1 reason priority now none).2 = some row →
          (∃ old, s.jobs.lookup row.1 = some old ∧ old.target = target ∧ old.queryKey = item.1) ∨
            Backed lower ((Call.enqueue target item.1 reason priority now none).apply calendar s) row.1 := by
      intro row returned
      rcases enqueueAnalysis_row returned with old | ⟨idle, new, result⟩
      · exact .inl old
      · right
        rw [Call.apply, result, new]
        exact backed_of_inserted idle spaced
    split
    · exact .inl rfl
    · unfold enqueueJob
      cases s.queryText.find? fun row => row.target = target && row.queryKey = item.1 with
      | none => exact .inl rfl
      | some text =>
        simp only
        split
        · exact .inr ⟨_, .inl ⟨_, _, _, _, rfl⟩, rfl, enqueued _ _⟩
        · split
          · exact .inl rfl
          · cases readings.skipReason text.text with
            | some skip =>
              refine .inr ⟨_, .inr ⟨_, _, _, rfl⟩, rfl, fun row returned => ?_⟩
              cases returned
            | none =>
              simp only
              split
              · exact .inl rfl
              · exact .inr ⟨_, .inl ⟨_, _, _, _, rfl⟩, rfl, enqueued _ _⟩

theorem retryPlan_spec (lower : List Char → List Char) (s : Store) (target : String) (now : Int) :
    (retryPlan lower s target now).Pairwise (fun a b => a.1 ≠ b.1) ∧
      ∀ item ∈ retryPlan lower s target now, planOf lower (s.history target item.1) now = some item.2 := by
  unfold retryPlan
  simp only
  constructor
  · rw [List.pairwise_filterMap]
    have distinct := (List.perm_insertionSort (· ≤ ·) _).nodup_iff.mpr (List.nodup_dedup
      ((s.jobs.rows.filter fun row => row.2.failedSince target (now - 86400)).map fun row => row.2.queryKey))
    refine distinct.imp fun differs item first item' second => ?_
    obtain ⟨_, _, rfl⟩ := Option.map_eq_some_iff.mp first
    obtain ⟨_, _, rfl⟩ := Option.map_eq_some_iff.mp second
    exact differs
  · intro item member
    obtain ⟨key, _, found⟩ := List.mem_filterMap.mp member
    obtain ⟨plan, planned, rfl⟩ := Option.map_eq_some_iff.mp found
    exact planned

/-- The turns of a pass keep what is backed, and what they enqueue is backed, on plans that were made before them all. -/
theorem turns_backed (calendar : Calendar) (readings : Readings) {first : Store} {retried : List Nat}
    {items : List (String × RetryPlan)} (apart : items.Pairwise fun a b => a.1 ≠ b.1)
    (planned : ∀ item ∈ items, planOf lower (first.history target item.1) now = some item.2) (done : Store × List Row)
    (same : ∀ item ∈ items, done.1.history target item.1 = first.history target item.1)
    (old : ∀ id ∈ retried, Backed lower done.1 id)
    (new : ∀ row ∈ done.2, first.jobs.lookup row.1 = none → Backed lower done.1 row.1) :
    let final := items.foldl (fun done item =>
      let turn := retryTurn calendar readings target now done.1 item
      (turn.1, done.2 ++ turn.2.toList)) done
    (∀ id ∈ retried, Backed lower final.1 id) ∧
      ∀ row ∈ final.2, first.jobs.lookup row.1 = none → Backed lower final.1 row.1 := by
  induction items generalizing done with
  | nil => exact ⟨old, new⟩
  | cons item items ih =>
    obtain ⟨others, apart⟩ := List.pairwise_cons.mp apart
    have here := same item List.mem_cons_self
    have plan := planned item List.mem_cons_self
    rw [← here] at plan
    simp only [List.foldl_cons]
    apply ih apart fun item member => planned item (List.mem_cons_of_mem _ member)
    all_goals rcases retryTurn_cases calendar readings done.1 plan with skipped | ⟨call, named, result, returned⟩
    · intro other member
      rw [skipped]
      exact same other (List.mem_cons_of_mem _ member)
    · intro other member
      rw [result, history_other calendar (others other member).symm named]
      exact same other (List.mem_cons_of_mem _ member)
    · rwa [skipped]
    · intro id member
      rw [result]
      exact (old id member).after call (named_keeps named (old id member).present)
    · rw [skipped]
      simpa using new
    · intro row member absent
      rw [result]
      rcases List.mem_append.mp member with before | now_
      · exact (new row before absent).after call (named_keeps named (new row before absent).present)
      · rcases returned row (by simpa using now_) with ⟨existing, present, of, for_⟩ | backed
        · have inside : (row.1, existing) ∈ first.history target item.1 := by
            rw [← here, mem_history]
            exact ⟨present, of, for_⟩
          rw [mem_history, absent] at inside
          cases inside.1
        · exact backed

theorem moveStep_backed (lower : List Char → List Char) (calendar : Calendar) (m : Marked) (move : Move)
    (backed : ∀ id ∈ m.retried, Backed lower m.store id) :
    ∀ id ∈ (moveStep lower calendar m move).retried, Backed lower (moveStep lower calendar m move).store id := by
  cases move with
  | call call =>
    intro id member
    obtain ⟨before, stays⟩ := List.mem_filter.mp member
    exact (backed id before).after call stays
  | retries target now readings =>
    obtain ⟨apart, planned⟩ := retryPlan_spec lower m.store target now
    obtain ⟨old, new⟩ := turns_backed calendar readings apart planned (m.store, []) (fun _ _ => rfl) backed (by simp)
    intro id member
    rcases List.mem_append.mp member with before | created
    · exact old id before
    · obtain ⟨inside, absent⟩ := List.mem_filter.mp created
      obtain ⟨row, returned, rfl⟩ := List.mem_map.mp inside
      exact new row returned (by simpa using absent)

end Passes

section Blocks

variable {α : Type} {test mark : α → Bool} {most : Nat}

/-- Where a marked element stands before at least one and at most `most` that pass, as many are marked among those that pass. -/
theorem marked_le {block rest : List α} (passes : ∀ x ∈ block, test x = true)
    (bounded : ∀ before x after, block ++ rest = before ++ x :: after → mark x = true →
      1 ≤ (after.takeWhile test).length ∧ (after.takeWhile test).length ≤ most) :
    (block.filter mark).length ≤ min most (block.length + (rest.takeWhile test).length - 1) := by
  induction block with
  | nil => simp
  | cons x block ih =>
    have through : ((block ++ rest).takeWhile test).length = block.length + (rest.takeWhile test).length := by
      rw [List.takeWhile_append_of_pos fun y member => passes y (List.mem_cons_of_mem _ member), List.length_append]
    have inner := ih (fun y member => passes y (List.mem_cons_of_mem _ member)) fun before y after split =>
      bounded (x :: before) y after (by rw [List.cons_append, split, List.cons_append])
    rw [List.filter_cons, List.length_cons]
    split
    · rename_i marked
      have here := bounded [] x (block ++ rest) rfl marked
      rw [through] at here
      rw [List.length_cons]
      omega
    · omega

end Blocks

section History

variable {s : Store} {target key : String}

theorem history_ordered (s : Store) (target key : String) : (s.history target key).Pairwise fun a b => b.1 < a.1 := by
  rw [Store.history, List.pairwise_reverse]
  exact s.jobs.ordered.filter _

/-- What comes behind a row in its history is older. -/
theorem older_of_history {before after : List Row} {row : Row} (split : s.history target key = before ++ row :: after) :
    s.older target key row.1 = after := by
  have ordered := history_ordered s target key
  rw [split, List.pairwise_append, List.pairwise_cons] at ordered
  have whole : s.older target key row.1 = (s.history target key).filter fun other => decide (other.1 < row.1) := by
    rw [Store.older, Store.history, List.filter_reverse, List.filter_filter]
  rw [whole, split, List.filter_append, List.filter_cons_of_neg (by simp), List.filter_eq_nil_iff.mpr, List.filter_eq_self.mpr,
    List.nil_append]
  · intro other member
    exact decide_eq_true (ordered.2.1.1 other member)
  · intro other member
    simpa using Nat.le_of_lt (ordered.2.2 other member row List.mem_cons_self)

end History

theorem Spaced.length {lower : List Char → List Char} {older : List Row} {time : Int} (spaced : Spaced lower older time) :
    1 ≤ (streak lower older).length ∧ (streak lower older).length ≤ 3 := by
  obtain ⟨newest, rest, wait, finished, found, step, -⟩ := spaced
  have small := (List.getElem?_eq_some_iff.mp step).1
  rw [found, List.length_cons]
  simp only [retryBackoff, List.length_cons, List.length_nil] at small
  omega

/-- Whatever calls come between the passes: a job that a pass enqueued again stands behind one to three failures of the
    AI service in a row, no sooner than the backoff of that many after the last of them; and of a query's jobs that failed
    on it in a row, passes enqueued three at most. -/
theorem transient_retries_bounded (lower : List Char → List Char) (calendar : Calendar) (s : Store) (moves : List Move) :
    let final := moves.foldl (moveStep lower calendar) ⟨s, []⟩
    (∀ id ∈ final.retried, ∃ job, final.store.jobs.lookup id = some job ∧
      Spaced lower (final.store.older job.target job.queryKey id) job.enqueuedAt) ∧
    ∀ target key newer block rest, final.store.history target key = newer ++ block ++ rest →
      (∀ row ∈ block, row.2.failedTransiently lower = true) →
      (block.filter fun row => decide (row.1 ∈ final.retried)).length ≤ 3 := by
  have backed := foldl_invariant (fun m => ∀ id ∈ m.retried, Backed lower m.store id)
    (fun m move _ _ before => moveStep_backed lower calendar m move before)
    (everyTurn_trivial (moveStep lower calendar) ⟨s, []⟩ moves) (by simp)
  intro final
  constructor
  · intro id member
    obtain ⟨job, present, -, spaced⟩ := backed id member
    exact ⟨job, present, spaced⟩
  · intro target key newer block rest split failed
    have few : (block.filter fun row => decide (row.1 ∈ final.retried)).length ≤
        min 3 (block.length + (streak lower rest).length - 1) := by
      apply marked_le failed
      intro before row after inner marked
      have whole : final.store.history target key = (newer ++ before) ++ row :: after := by
        rw [split, List.append_assoc, inner, List.append_assoc]
      obtain ⟨job, present, -, spaced⟩ := backed row.1 (of_decide_eq_true marked)
      have member : row ∈ final.store.history target key := by
        rw [whole]
        simp
      obtain ⟨found, of, for_⟩ := mem_history.mp member
      rw [present] at found
      cases found
      rw [of, for_, older_of_history whole] at spaced
      exact spaced.length
    exact few.trans (Nat.min_le_left _ _)

end Rdst.Analysis
