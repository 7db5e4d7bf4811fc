import Mathlib.Data.List.Dedup
import Mathlib.Data.List.Sort
import Mathlib.Data.Rat.Init
import Mathlib.Algebra.Order.Ring.Rat
import Rdst.Lib.Assoc
import Rdst.Lib.RowTable
import Rdst.Lib.Run
import Rdst.Monitor.Record

namespace Rdst.Monitor.Tracking

open Assoc RowTable Machine

def seriesQueries : Nat := 10000

def recentLoadSeconds : Int := 86400

def samplesPerQuery : Nat := 5

def sampleRetentionSeconds : Int := 48 * 3600

structure QuerySample where
  queryKey : String
  text : List Char
  observedAt : Int

structure StuckSample where
  queryKey : Option String
  state : Option String
  durationS : ℚ

/-- A finished job of `analyze_job` that a user's own statement led to. -/
structure UserJob where
  queryKey : String
  mode : Option String
  enqueuedAt : Int
  finishedAt : Int
  analysisRef : String

/-- The rows of one target, with the settings that `record` reads. -/
structure Tables where
  enabled : Bool
  collectorBaseline : Option (String × Int)
  collectPulse : Bool
  systemQuery : List String
  candidateLoads : Dict String (ℚ × Int)
  queryText : Dict String (List Char × Int)
  queryLoad : Dict String (ℚ × Int)
  querySample : Table QuerySample
  /-- A row for each reading and backend. -/
  stuckSample : Dict (Int × Int) StuckSample
  analyzeJob : Table UserJob

def Tables.empty : Tables := ⟨true, none, false, [], ∅, ∅, ∅, .empty, ∅, .empty⟩

/-- The distinct query keys of the four tables. -/
def Tables.keys (t : Tables) : List String :=
  (t.queryText.keys ++ t.queryLoad.keys ++ t.querySample.rows.map (fun row => row.2.queryKey) ++
    t.stuckSample.entries.filterMap fun row => row.2.queryKey).dedup

/-- `text.encode("utf-8")[:8192].decode("utf-8", "ignore")`, from the bytes that are left. -/
def clip : Nat → List Char → List Char
  | _, [] => []
  | room, c :: rest => if c.utf8Size ≤ room then c :: clip (room - c.utf8Size) rest else []

def clipped (text : List Char) : List Char := clip 8192 text

/-- Both admission checks. -/
def noRoom (t : Tables) (key : String) : Prop := key ∉ t.keys ∧ seriesQueries ≤ t.keys.length

instance (t : Tables) (key : String) : Decidable (noRoom t key) := inferInstanceAs (Decidable (_ ∧ _))

section Trim

/-- Keep the rows of some keys. What a backend ran stays without its key. -/
def Tables.retain (t : Tables) (retained : List String) : Tables :=
  { t with
    queryText := keepKeys (fun key => retained.contains key) t.queryText
    queryLoad := keepKeys (fun key => retained.contains key) t.queryLoad
    querySample := t.querySample.delete fun _ row => !retained.contains row.queryKey
    stuckSample := ⟨t.stuckSample.entries.map fun row =>
      ⟨row.1, { row.2 with queryKey := row.2.queryKey.filter fun key => retained.contains key }⟩, by
        rw [List.NodupKeys, List.keys, List.map_map]
        exact t.stuckSample.nodupKeys⟩ }

def Tables.totalMs (t : Tables) (key : String) : ℚ := ((t.queryLoad.lookup key).map Prod.fst).getD 0

/-- `_trim_tracked_queries` without a choice of its caller's. -/
def trimTrackedQueries (t : Tables) : Tables :=
  if t.keys.length ≤ seriesQueries then t
  else t.retain ((t.keys.insertionSort fun a b =>
    t.totalMs b < t.totalMs a ∨ t.totalMs a = t.totalMs b ∧ a ≤ b).take seriesQueries)

end Trim

/-- `_insert_sample`. -/
def insertSample (t : Tables) (ts : Int) (queryKey : String) (text : List Char) : Tables :=
  if !t.enabled then t
  else if noRoom t queryKey then t
  else if clipped text = [] then t
  else
    let fresh := (t.querySample.delete fun _ row => row.queryKey = queryKey && row.text = clipped text).insert
      ⟨queryKey, clipped text, ts⟩
    let latest := ((fresh.rows.filter fun row => row.2.queryKey = queryKey).map Prod.fst).reverse.take samplesPerQuery
    { t with querySample := fresh.delete fun id row => row.queryKey = queryKey && !latest.contains id }

def recordSample (t : Tables) (queryKey : String) (text : List Char) (ts : Int) : Tables := insertSample t ts queryKey text

/-- A query analyzed from pasted SQL, and whether its job was stored. -/
def recordUserAnalysis (t : Tables) (key : String) (text : List Char) (now : Int) (analysisRef mode : Option String) :
    Except String (Tables × Option UserJob) :=
  if mode ∉ [none, some "analyze", some "explain"] then .error "mode must be analyze or explain"
  else if noRoom t key then .ok (t, none)
  else
    let kept := if (t.queryText.lookup key).isSome then t else { t with queryText := t.queryText.insert key (text, now) }
    match analysisRef with
    | none => .ok (kept, none)
    | some analysisRef =>
      let job : UserJob := ⟨key, mode, now, now, analysisRef⟩
      .ok ({ kept with analyzeJob := kept.analyzeJob.insert job }, some job)

/-- The deletes of `_rollup` that reach the four tables. -/
def rollup (t : Tables) (now : Int) : Tables :=
  { t with
    stuckSample := keepKeys (fun row => now - sampleRetentionSeconds ≤ row.1) t.stuckSample
    querySample := t.querySample.delete fun _ row => row.observedAt < now - sampleRetentionSeconds }

structure StuckRow where
  pid : Int
  queryKey : Option String
  state : Option String
  durationS : ℚ

/-- The arguments of `record` that decide what is tracked. -/
structure Reading where
  process : String
  ts : Int
  statements : List (String × ℚ)
  texts : Dict String (List Char)
  stuck : List StuckRow
  samples : List (String × List Char)
  systemKeys : List String
  workloadChecked : Bool

section Record

variable (t : Tables) (r : Reading)

/-- Whether the reading before is another process's or too old for the counters of this one. -/
def baselineBroken : Bool :=
  r.workloadChecked && match t.collectorBaseline with
    | some (process, reading) => process ≠ r.process || r.ts < reading || r.ts - reading > collectionGapSeconds
    | none => t.collectPulse

def rows : List (String × ℚ) := if baselineBroken t r then [] else r.statements

/-- The reading's stamp, and its system queries without the history they had. -/
def prepared : Tables :=
  let fresh := r.systemKeys.filter fun key => key ∉ t.systemQuery
  { t with
    collectorBaseline := if r.workloadChecked then some (r.process, r.ts) else t.collectorBaseline
    systemQuery := t.systemQuery ++ fresh.dedup
    queryText := keepKeys (fun key => key ∉ fresh) t.queryText
    queryLoad := keepKeys (fun key => key ∉ fresh) t.queryLoad
    querySample := t.querySample.delete fun _ row => row.queryKey ∈ fresh }

/-- The load that each statement of the reading adds; a statement that comes twice adds its last. -/
def loads (statements : List (String × ℚ)) (key : String) : Option ℚ :=
  (statements.reverse.find? fun row => row.1 = key).map Prod.snd

/-- The load a key was known by, wherever it is kept. -/
def known (t : Tables) (key : String) : Option (ℚ × Int) := t.queryLoad.lookup key <|> t.candidateLoads.lookup key

def weight (t : Tables) (ts : Int) (statements : List (String × ℚ)) (key : String) : ℚ :=
  let (value, updated) := (known t key).getD (0, ts)
  if ts < updated - recentLoadSeconds then value
  else
    let age := max 0 (ts - updated)
    (if age < recentLoadSeconds then value / (1 + age / recentLoadSeconds) else 0) + (loads statements key).getD 0

def candidates (statements : List (String × ℚ)) (r : Reading) : List String :=
  r.texts.keys ++ statements.map Prod.fst ++ r.samples.map Prod.fst ++
    (r.stuck.filterMap StuckRow.queryKey).filter fun key => key ≠ ""

def pool (t : Tables) (statements : List (String × ℚ)) (r : Reading) : List String :=
  (t.keys ++ candidates statements r ++ t.candidateLoads.keys).dedup

/-- The heavier first; of two as heavy the one that is tracked. -/
def outranks (t : Tables) (ts : Int) (statements : List (String × ℚ)) (a b : String) : Prop :=
  weight t ts statements b < weight t ts statements a ∨ weight t ts statements a = weight t ts statements b ∧
    (a ∈ t.keys ∧ b ∉ t.keys ∨ (a ∈ t.keys ↔ b ∈ t.keys) ∧ a ≤ b)

instance (ts : Int) (statements : List (String × ℚ)) : DecidableRel (outranks t ts statements) :=
  fun _ _ => inferInstanceAs (Decidable (_ ∨ _))

def selected (t : Tables) (statements : List (String × ℚ)) (r : Reading) : List String :=
  ((pool t statements r).insertionSort (outranks t r.ts statements)).take seriesQueries

/-- The loads of the heaviest keys that are not selected. -/
def candidateCounts (t : Tables) (statements : List (String × ℚ)) (r : Reading) : Dict String (ℚ × Int) :=
  let outside := ((pool t statements r).filter fun key => key ∉ selected t statements r).insertionSort fun a b =>
    weight t r.ts statements b < weight t r.ts statements a ∨
      weight t r.ts statements a = weight t r.ts statements b ∧ a ≤ b
  ((outside.take seriesQueries).filter fun key => 0 < weight t r.ts statements key).foldl (fun counts key =>
    counts.insert key (if (loads statements key).isSome then (weight t r.ts statements key, r.ts)
      else (known t key).getD (0, r.ts))) ∅

/-- Make the selected keys the tracked ones. -/
def retarget (t : Tables) (statements : List (String × ℚ)) (r : Reading) : Tables :=
  let chosen := selected t statements r
  let left := if t.keys.all (chosen.contains ·) then t else t.retain chosen
  let entrants := chosen.filter fun key => key ∉ t.keys
  { left with
    candidateLoads := candidateCounts t statements r
    queryLoad := entrants.foldl (fun load key => load.insert key
      (weight t r.ts statements key - (loads statements key).getD 0, r.ts)) left.queryLoad }

/-- The load of a statement on top of what is left of its load before. -/
def addLoad (load : Dict String (ℚ × Int)) (ts : Int) (row : String × ℚ) : Dict String (ℚ × Int) :=
  match load.lookup row.1 with
  | none => load.insert row.1 (row.2, ts)
  | some (totalMs, updated) =>
    let sum :=
      if ts < updated - 86400 then totalMs
      else if ts - updated ≥ 86400 then row.2
      else totalMs / (1 + (max 0 (ts - updated) : Int) / 86400) + row.2
    load.insert row.1 (sum, max updated ts)

def storeTexts (t : Tables) (tracked : List String) (r : Reading) : Tables :=
  { t with
    queryText := (r.texts.entries.filter fun item => tracked.contains item.1).foldl
      (fun text item => text.insert item.1 (clipped item.2, r.ts)) t.queryText }

def storeLoads (t : Tables) (tracked : List String) (statements : List (String × ℚ)) (ts : Int) : Tables :=
  { t with
    queryLoad := (statements.filter fun row => tracked.contains row.1).foldl (fun load row => addLoad load ts row)
      t.queryLoad }

def storeSamples (t : Tables) (tracked : List String) (r : Reading) : Tables :=
  (r.samples.filter fun sample => tracked.contains sample.1).foldl (fun t sample => insertSample t r.ts sample.1 sample.2) t

def storeStuck (t : Tables) (tracked : List String) (r : Reading) : Tables :=
  { t with
    stuckSample := r.stuck.foldl (fun stuck row => stuck.insert (r.ts, row.pid)
      ⟨row.queryKey.filter fun key => tracked.contains key, row.state, row.durationS⟩) t.stuckSample }

def record : Tables :=
  if !t.enabled then t
  else
    let statements := rows t r
    let left := prepared t r
    let tracked := selected left statements r
    let stored := storeLoads (storeTexts (retarget left statements r) tracked r) tracked statements r.ts
    { rollup (storeStuck (storeSamples stored tracked r) tracked r) r.ts with collectPulse := true }

end Record

inductive Operation
  | record (reading : Reading)
  | recordSample (queryKey : String) (text : List Char) (ts : Int)
  | recordUserAnalysis (key : String) (text : List Char) (now : Int) (analysisRef mode : Option String)
  | trimTrackedQueries
  | rollup (now : Int)
  /-- A batch of the storage budget. -/
  | prune (batch : List Nat)
  | setEnabled (enabled : Bool)

/-- A committed operation on the rows of its target; one that raises leaves them. -/
def Tables.step (t : Tables) : Operation → Tables
  | .record reading => Tracking.record t reading
  | .recordSample queryKey text ts => Tracking.recordSample t queryKey text ts
  | .recordUserAnalysis key text now analysisRef mode =>
    match Tracking.recordUserAnalysis t key text now analysisRef mode with
    | .ok (t, _) => t
    | .error _ => t
  | .trimTrackedQueries => Tracking.trimTrackedQueries t
  | .rollup now => Tracking.rollup t now
  | .prune batch => { t with querySample := t.querySample.delete fun id _ => batch.contains id }
  | .setEnabled enabled => { t with enabled := enabled }

/-- The store holds the rows of every target. -/
def step (store : String → Tables) (turn : String × Operation) : String → Tables :=
  Function.update store turn.1 ((store turn.1).step turn.2)

section Within

/-- The four tables hold no other keys. -/
structure Within (allowed : List String) (t : Tables) : Prop where
  texts : ∀ key ∈ t.queryText.keys, key ∈ allowed
  loads : ∀ key ∈ t.queryLoad.keys, key ∈ allowed
  samples : ∀ row ∈ t.querySample.rows, row.2.queryKey ∈ allowed
  stuck : ∀ row ∈ t.stuckSample.entries, ∀ key ∈ row.2.queryKey, key ∈ allowed

variable {t : Tables} {allowed : List String}

theorem within_iff : Within allowed t ↔ ∀ key ∈ t.keys, key ∈ allowed := by
  simp only [Tables.keys, List.mem_dedup, List.mem_append, List.mem_map, List.mem_filterMap]
  constructor
  · intro within key member
    rcases member with ((text | load) | ⟨row, sample, rfl⟩) | ⟨row, stuck, own⟩
    · exact within.texts key text
    · exact within.loads key load
    · exact within.samples row sample
    · exact within.stuck row stuck key own
  · intro all
    exact ⟨fun key text => all key (.inl (.inl (.inl text))), fun key load => all key (.inl (.inl (.inr load))),
      fun row sample => all _ (.inl (.inr ⟨row, sample, rfl⟩)), fun row stuck key own => all key (.inr ⟨row, stuck, own⟩)⟩

theorem Within.capped (within : Within allowed t) (short : allowed.length ≤ seriesQueries) :
    t.keys.length ≤ seriesQueries := by
  have distinct : t.keys.Nodup := List.nodup_dedup _
  exact (distinct.subperm (within_iff.mp within)).length_le.trans short

theorem within_own (t : Tables) : Within t.keys t := within_iff.mpr fun _ member => member

/-- A key that is let in leaves the tables within the cap. -/
theorem admitted {key : String} (room : ¬ noRoom t key) (capped : t.keys.length ≤ seriesQueries) :
    ∃ allowed : List String, allowed.length ≤ seriesQueries ∧ key ∈ allowed ∧ Within allowed t := by
  by_cases tracked : key ∈ t.keys
  · exact ⟨t.keys, capped, tracked, within_own t⟩
  · have fewer : t.keys.length < seriesQueries := by
      by_contra full
      exact room ⟨tracked, not_lt.mp full⟩
    refine ⟨key :: t.keys, fewer, List.mem_cons_self, within_iff.mpr ?_⟩
    exact fun other member => List.mem_cons_of_mem _ member

theorem mem_keepKeys {Key Value : Type} [DecidableEq Key] {test : Key → Bool} {dict : Dict Key Value} {key : Key}
    (member : key ∈ (keepKeys test dict).keys) : key ∈ dict.keys ∧ test key = true := by
  rw [mem_keys_iff, keepKeys_lookup] at member
  rw [mem_keys_iff]
  split at member
  · rename_i passes
    exact ⟨member, passes⟩
  · exact absurd rfl member

theorem mem_insert_keys {Value : Type} {dict : Dict String Value} {key other : String} {value : Value}
    (old : ∀ key ∈ dict.keys, key ∈ allowed) (new : key ∈ allowed) (member : other ∈ (dict.insert key value).keys) :
    other ∈ allowed := by
  rw [mem_keys_iff, insert_lookup] at member
  split at member
  · rename_i same
    exact same ▸ new
  · exact old other (mem_keys_iff.mpr member)

theorem retain_within (t : Tables) (retained : List String) : Within retained (t.retain retained) where
  texts key member := List.contains_iff_mem.mp (mem_keepKeys member).2
  loads key member := List.contains_iff_mem.mp (mem_keepKeys member).2
  samples row member := by
    have kept := (List.mem_filter.mp member).2
    simpa using kept
  stuck row member key own := by
    obtain ⟨before, -, rfl⟩ := List.mem_map.mp member
    exact List.contains_iff_mem.mp (Option.filter_eq_some_iff.mp own).2

theorem trimTrackedQueries_capped (t : Tables) : (trimTrackedQueries t).keys.length ≤ seriesQueries := by
  rw [trimTrackedQueries]
  split
  · assumption
  · exact (retain_within t _).capped (List.length_take_le _ _)

theorem Within.insertSample (within : Within allowed t) {queryKey : String} (tracked : queryKey ∈ allowed) (ts : Int)
    (text : List Char) : Within allowed (insertSample t ts queryKey text) := by
  rw [Tracking.insertSample]
  split
  · exact within
  split
  · exact within
  split
  · exact within
  · refine { within with samples := ?_ }
    intro row member
    rcases List.mem_append.mp (List.mem_of_mem_filter member) with old | new
    · exact within.samples row (List.mem_of_mem_filter old)
    · rw [List.mem_singleton.mp new]
      exact tracked

theorem Within.rollup (within : Within allowed t) (now : Int) : Within allowed (rollup t now) :=
  { within with
    samples := fun row member => within.samples row (List.mem_of_mem_filter member)
    stuck := fun row member => within.stuck row (List.mem_of_mem_filter member) }

end Within

section Run

variable {t : Tables}

theorem recordSample_capped (capped : t.keys.length ≤ seriesQueries) (queryKey : String) (text : List Char) (ts : Int) :
    (recordSample t queryKey text ts).keys.length ≤ seriesQueries := by
  by_cases room : noRoom t queryKey
  · have refused : recordSample t queryKey text ts = t := by
      rw [recordSample, insertSample, if_pos room, ite_self]
    rw [refused]
    exact capped
  · obtain ⟨allowed, short, tracked, within⟩ := admitted room capped
    exact (within.insertSample tracked ts text).capped short

theorem recordUserAnalysis_capped (capped : t.keys.length ≤ seriesQueries) {key : String} {text : List Char} {now : Int}
    {analysisRef mode : Option String} {result : Tables × Option UserJob}
    (stored : recordUserAnalysis t key text now analysisRef mode = .ok result) :
    result.1.keys.length ≤ seriesQueries := by
  rw [recordUserAnalysis] at stored
  split at stored
  · cases stored
  split at stored
  · cases stored
    exact capped
  · rename_i room
    obtain ⟨allowed, short, tracked, within⟩ := admitted room capped
    have kept : Within allowed
        (if (t.queryText.lookup key).isSome then t else { t with queryText := t.queryText.insert key (text, now) }) := by
      split
      · exact within
      · exact { within with texts := fun other member => mem_insert_keys within.texts tracked member }
    cases analysisRef with
    | none =>
      cases stored
      exact kept.capped short
    | some analysisRef =>
      cases stored
      exact Within.capped { kept with } short

section Record

variable {allowed : List String} {r : Reading}

theorem retarget_within (t : Tables) (statements : List (String × ℚ)) (r : Reading) :
    Within (selected t statements r) (retarget t statements r) := by
  have left : Within (selected t statements r) (if t.keys.all ((selected t statements r).contains ·) then t
      else t.retain (selected t statements r)) := by
    split
    · rename_i all
      apply within_iff.mpr
      intro key member
      exact List.contains_iff_mem.mp (List.all_eq_true.mp all key member)
    · exact retain_within t _
  refine { left with loads := ?_ }
  apply List.foldlRecOn (motive := fun load : Dict String (ℚ × Int) => ∀ key ∈ load.keys, key ∈ selected t statements r)
  · exact left.loads
  · intro load old key member other
    exact mem_insert_keys old (List.mem_of_mem_filter member)

theorem Within.storeTexts (within : Within allowed t) : Within allowed (storeTexts t allowed r) := by
  refine { within with texts := ?_ }
  apply List.foldlRecOn (motive := fun text : Dict String (List Char × Int) => ∀ key ∈ text.keys, key ∈ allowed)
  · exact within.texts
  · intro text old item member other
    exact mem_insert_keys old (List.contains_iff_mem.mp (List.mem_filter.mp member).2)

theorem Within.storeLoads (within : Within allowed t) (statements : List (String × ℚ)) (ts : Int) :
    Within allowed (storeLoads t allowed statements ts) := by
  refine { within with loads := ?_ }
  apply List.foldlRecOn (motive := fun load : Dict String (ℚ × Int) => ∀ key ∈ load.keys, key ∈ allowed)
  · exact within.loads
  · intro load old row member other
    have tracked := List.contains_iff_mem.mp (List.mem_filter.mp member).2
    rw [addLoad]
    split
    · exact mem_insert_keys old tracked
    · exact mem_insert_keys old tracked

theorem Within.storeSamples (within : Within allowed t) : Within allowed (storeSamples t allowed r) := by
  apply List.foldlRecOn (motive := Within allowed)
  · exact within
  · intro t within sample member
    exact within.insertSample (List.contains_iff_mem.mp (List.mem_filter.mp member).2) r.ts sample.2

theorem Within.storeStuck (within : Within allowed t) : Within allowed (storeStuck t allowed r) := by
  refine { within with stuck := ?_ }
  apply List.foldlRecOn (motive := fun stuck : Dict (Int × Int) StuckSample =>
    ∀ row ∈ stuck.entries, ∀ key ∈ row.2.queryKey, key ∈ allowed)
  · exact within.stuck
  · intro stuck old row member other inside key own
    rw [AList.entries_insert, List.mem_cons] at inside
    rcases inside with rfl | before
    · exact List.contains_iff_mem.mp (Option.filter_eq_some_iff.mp own).2
    · exact old other ((List.kerase_sublist _ _).subset before) key own

theorem record_capped (capped : t.keys.length ≤ seriesQueries) (r : Reading) :
    (record t r).keys.length ≤ seriesQueries := by
  rw [record]
  split
  · exact capped
  · have short : (selected (prepared t r) (rows t r) r).length ≤ seriesQueries := List.length_take_le _ _
    have texts := (retarget_within (prepared t r) (rows t r) r).storeTexts (r := r)
    have samples := (texts.storeLoads (rows t r) r.ts).storeSamples (r := r)
    have stuck := samples.storeStuck (r := r)
    exact Within.capped { stuck.rollup r.ts with } short

end Record

theorem step_capped (capped : t.keys.length ≤ seriesQueries) (operation : Operation) :
    (t.step operation).keys.length ≤ seriesQueries := by
  cases operation with
  | record reading => exact record_capped capped reading
  | recordSample queryKey text ts => exact recordSample_capped capped queryKey text ts
  | recordUserAnalysis key text now analysisRef mode =>
    rw [Tables.step]
    split
    · rename_i stored
      exact recordUserAnalysis_capped capped stored
    · exact capped
  | trimTrackedQueries => exact trimTrackedQueries_capped t
  | rollup now => exact ((within_own t).rollup now).capped capped
  | prune batch =>
    have fewer : Within t.keys (t.step (.prune batch)) :=
      { within_own t with samples := fun row member => (within_own t).samples row (List.mem_of_mem_filter member) }
    exact fewer.capped capped
  | setEnabled enabled => exact capped

/-- In every state that operations on targets reach, the four tables of a target hold at most `seriesQueries` distinct
query keys. -/
theorem query_keys_capped (turns : List (String × Operation)) (target : String) :
    (turns.foldl step (fun _ => Tables.empty) target).keys.length ≤ seriesQueries := by
  have capped : ∀ target, (turns.foldl step (fun _ => Tables.empty) target).keys.length ≤ seriesQueries := by
    apply foldl_invariant (fun store : String → Tables => ∀ target, (store target).keys.length ≤ seriesQueries)
    case preserved =>
      intro store turn _ _ capped target
      rw [step]
      by_cases own : target = turn.1
      · rw [own, Function.update_self]
        exact step_capped (capped turn.1) turn.2
      · rw [Function.update_of_ne own]
        exact capped target
    case meets => exact everyTurn_trivial step _ turns
    case start => exact fun _ => Nat.zero_le _
  exact capped target

end Run

end Rdst.Monitor.Tracking
