import Mathlib.Data.List.Perm.Subperm
import Rdst.Lib.Front
import Rdst.Lib.RowTable
import Rdst.Lib.Run

/-! The stored analyses of each query, of which the newest few are kept. -/

namespace Rdst.Library.AnalysisHistory

open Front Machine RowTable

/-- A row of `query_analysis` without its id. -/
structure Analysis (Stamp Payload : Type) where
  queryHash : String
  analysisId : String
  createdAt : Stamp
  target : String
  payload : Payload

variable {Stamp Payload : Type}

def Analysis.key (analysis : Analysis Stamp Payload) : String × String := (analysis.queryHash, analysis.analysisId)

abbrev Row (Stamp Payload : Type) := Nat × Analysis Stamp Payload

/-- The table, in which the query and the id of an analysis are unique. -/
structure QueryAnalysis (Stamp Payload : Type) where
  table : Table (Analysis Stamp Payload)
  unique : table.rows.Pairwise fun a b => a.2.key ≠ b.2.key

def QueryAnalysis.empty : QueryAnalysis Stamp Payload := ⟨Table.empty, List.Pairwise.nil⟩

def QueryAnalysis.find (t : QueryAnalysis Stamp Payload) (key : String × String) : Option (Row Stamp Payload) :=
  t.table.rows.find? fun row => row.2.key = key

def QueryAnalysis.delete (t : QueryAnalysis Stamp Payload) (gone : Nat → Analysis Stamp Payload → Bool) :
    QueryAnalysis Stamp Payload where
  table := t.table.delete gone
  unique := t.unique.filter _

/-- A row gets other contents under its own key. -/
def QueryAnalysis.replace (t : QueryAnalysis Stamp Payload) (id : Nat)
    (change : Analysis Stamp Payload → Analysis Stamp Payload) (same : ∀ analysis, (change analysis).key = analysis.key) :
    QueryAnalysis Stamp Payload where
  table := t.table.update fun other analysis => if other = id then change analysis else analysis
  unique := by
    apply List.pairwise_map.mpr
    apply t.unique.imp
    intro a b differ
    simp only
    split <;> split <;> simpa only [same] using differ

def ofQuery (queryHash : String) (rows : List (Row Stamp Payload)) : List (Row Stamp Payload) :=
  rows.filter fun row => row.2.queryHash = queryHash

def QueryAnalysis.count (t : QueryAnalysis Stamp Payload) (queryHash : String) : Nat :=
  (ofQuery queryHash t.table.rows).length

section Operations

variable [LinearOrder Stamp]

/-- `ORDER BY created_at DESC, id DESC`. -/
def Newer (a b : Row Stamp Payload) : Prop :=
  b.2.createdAt < a.2.createdAt ∨ a.2.createdAt = b.2.createdAt ∧ b.1 ≤ a.1

instance : DecidableRel (@Newer Stamp Payload _) := fun _ _ => inferInstanceAs (Decidable (_ ∨ _ ∧ _))

def pruneAnalysisHistory (t : QueryAnalysis Stamp Payload) (queryHash : String) (keep : Int) :
    QueryAnalysis Stamp Payload × Nat :=
  let kept := (front Newer (max keep 0).toNat (ofQuery queryHash t.table.rows)).map Prod.fst
  let left := t.delete fun id analysis => analysis.queryHash = queryHash ∧ id ∉ kept
  (left, t.table.rows.length - left.table.rows.length)

/-- The insertion of `record_analysis`, which updates the row that has the key. -/
def write (t : QueryAnalysis Stamp Payload) (analysis : Analysis Stamp Payload) : QueryAnalysis Stamp Payload :=
  match found : t.find analysis.key with
  | some row => t.replace row.1
      (fun old => { old with createdAt := analysis.createdAt, target := analysis.target, payload := analysis.payload })
      fun _ => rfl
  | none =>
    { table := t.table.insert analysis
      unique := by
        apply List.pairwise_append.mpr
        refine ⟨t.unique, List.pairwise_singleton _ _, ?_⟩
        intro row member last here
        rw [List.mem_singleton.mp here]
        simpa using List.find?_eq_none.mp found row member }

def recordAnalysis (t : QueryAnalysis Stamp Payload) (analysis : Analysis Stamp Payload) (keep : Int) :
    QueryAnalysis Stamp Payload :=
  (pruneAnalysisHistory (write t analysis) analysis.queryHash keep).1

def updateAnalysisPayload (t : QueryAnalysis Stamp Payload) (queryHash analysisId : String) (payload : Payload) :
    QueryAnalysis Stamp Payload × Bool :=
  match t.find (queryHash, analysisId) with
  | some row => (t.replace row.1 (fun old => { old with payload }) fun _ => rfl, true)
  | none => (t, false)

def deleteAnalyses (t : QueryAnalysis Stamp Payload) (queryHash : String) : QueryAnalysis Stamp Payload × Nat :=
  (t.delete fun _ analysis => analysis.queryHash = queryHash, t.count queryHash)

def pruneAnalyses (t : QueryAnalysis Stamp Payload) (keep : Int) : QueryAnalysis Stamp Payload × Nat :=
  let hashes := (t.table.rows.map (·.2.queryHash)).dedup.filter fun queryHash => (max keep 0).toNat < t.count queryHash
  hashes.foldl (fun (state : QueryAnalysis Stamp Payload × Nat) queryHash =>
    let pruned := pruneAnalysisHistory state.1 queryHash keep
    (pruned.1, state.2 + pruned.2)) (t, 0)

/-- Every stored body of a query, newest first. -/
def analysisPayloads (t : QueryAnalysis Stamp Payload) (queryHash : String) : List Payload :=
  ((ofQuery queryHash t.table.rows).insertionSort Newer).map (·.2.payload)

inductive Call (Stamp Payload : Type)
  | recordAnalysis (analysis : Analysis Stamp Payload) (keep : Int)
  | updateAnalysisPayload (queryHash analysisId : String) (payload : Payload)
  | deleteAnalyses (queryHash : String)
  | pruneAnalyses (keep : Int)

/-- The table, and the last version of every analysis that was recorded and not deleted with its query. -/
structure Ledger (Stamp Payload : Type) where
  stored : QueryAnalysis Stamp Payload
  recorded : String × String → Option (Analysis Stamp Payload)

def Ledger.new : Ledger Stamp Payload := ⟨.empty, fun _ => none⟩

def Ledger.call (l : Ledger Stamp Payload) : Call Stamp Payload → Ledger Stamp Payload
  | .recordAnalysis analysis keep =>
    ⟨recordAnalysis l.stored analysis keep, fun key => if key = analysis.key then some analysis else l.recorded key⟩
  | .updateAnalysisPayload queryHash analysisId payload =>
    let updated := updateAnalysisPayload l.stored queryHash analysisId payload
    ⟨updated.1, fun key => if updated.2 = true ∧ key = (queryHash, analysisId) then
      (l.recorded key).map ({ · with payload }) else l.recorded key⟩
  | .deleteAnalyses queryHash =>
    ⟨(deleteAnalyses l.stored queryHash).1, fun key => if key.1 = queryHash then none else l.recorded key⟩
  | .pruneAnalyses keep => ⟨(pruneAnalyses l.stored keep).1, l.recorded⟩

end Operations

section Rows

variable {t : QueryAnalysis Stamp Payload} {a b : Row Stamp Payload} {analysis : Analysis Stamp Payload}

theorem mem_ofQuery {queryHash : String} {rows : List (Row Stamp Payload)} :
    a ∈ ofQuery queryHash rows ↔ a ∈ rows ∧ a.2.queryHash = queryHash := by
  simp [ofQuery]

theorem rows_nodup (t : QueryAnalysis Stamp Payload) : t.table.rows.Nodup := t.table.rows_nodup.of_map

theorem eq_of_id (first : a ∈ t.table.rows) (second : b ∈ t.table.rows) (same : a.1 = b.1) : a = b :=
  List.inj_on_of_nodup_map t.table.rows_nodup first second same

theorem eq_of_key (first : a ∈ t.table.rows) (second : b ∈ t.table.rows) (same : a.2.key = b.2.key) : a = b := by
  have distinct : (t.table.rows.map (·.2.key)).Nodup := List.pairwise_map.mpr t.unique
  exact List.inj_on_of_nodup_map distinct first second same

theorem find_some {key : String × String} (found : t.find key = some a) : a ∈ t.table.rows ∧ a.2.key = key :=
  ⟨List.mem_of_find?_eq_some found, by simpa using List.find?_some found⟩

theorem find_none {key : String × String} (missing : t.find key = none) (member : a ∈ t.table.rows) : a.2.key ≠ key := by
  simpa using List.find?_eq_none.mp missing a member

theorem mem_replace {row : Row Stamp Payload} {change : Analysis Stamp Payload → Analysis Stamp Payload}
    {same : ∀ analysis, (change analysis).key = analysis.key} (there : row ∈ t.table.rows) :
    a ∈ (t.replace row.1 change same).table.rows ↔
      a ∈ t.table.rows ∧ a.2.key ≠ row.2.key ∨ a = (row.1, change row.2) := by
  unfold QueryAnalysis.replace Table.update
  rw [List.mem_map]
  constructor
  · rintro ⟨b, member, rfl⟩
    by_cases here : b.1 = row.1
    · right
      rw [eq_of_id member there here]
      simp
    · left
      simp only [if_neg here]
      exact ⟨member, fun equal => here (congrArg Prod.fst (eq_of_key member there equal))⟩
  · rintro (⟨member, differs⟩ | rfl)
    · have apart : a.1 ≠ row.1 := fun equal => differs (congrArg (·.2.key) (eq_of_id member there equal))
      exact ⟨a, member, by simp only [if_neg apart]⟩
    · exact ⟨row, there, by simp only [if_true]⟩

theorem count_le {later : QueryAnalysis Stamp Payload} {other : String}
    (stays : ∀ row ∈ later.table.rows, row.2.queryHash = other → row ∈ t.table.rows) : later.count other ≤ t.count other := by
  apply List.Subperm.length_le
  apply List.subperm_of_subset ((rows_nodup later).filter _)
  intro row member
  obtain ⟨there, own⟩ := mem_ofQuery.mp member
  exact mem_ofQuery.mpr ⟨stays row there own, own⟩

/-- The id under which an analysis is written. -/
def placeOf (t : QueryAnalysis Stamp Payload) (key : String × String) : Nat := (t.find key).elim t.table.nextId Prod.fst

theorem mem_write : a ∈ (write t analysis).table.rows ↔
    a ∈ t.table.rows ∧ a.2.key ≠ analysis.key ∨ a = (placeOf t analysis.key, analysis) := by
  unfold write placeOf
  split
  · rename_i row found
    obtain ⟨there, same⟩ := find_some found
    obtain ⟨hash, id⟩ := Prod.mk.inj same
    apply (mem_replace there).trans
    simp only [found, same, hash, id, Option.elim_some]
  · rename_i missing
    have place : (t.find analysis.key).elim t.table.nextId Prod.fst = t.table.nextId := by
      rw [missing]
      rfl
    rw [place]
    show a ∈ t.table.rows ++ [(t.table.nextId, analysis)] ↔ _
    rw [List.mem_append, List.mem_singleton]
    apply or_congr_left
    exact ⟨fun member => ⟨member, find_none missing member⟩, And.left⟩

end Rows

section Pruning

variable [LinearOrder Stamp] {t : QueryAnalysis Stamp Payload} {a b : Row Stamp Payload} {least : Nat}
  {queryHash : String} {keep : Int} {analysis : Analysis Stamp Payload}

instance : Std.Total (@Newer Stamp Payload _) where
  total a b := by
    rcases lt_trichotomy a.2.createdAt b.2.createdAt with less | same | more
    · exact .inr (.inl less)
    · rcases Nat.le_total b.1 a.1 with below | above
      · exact .inl (.inr ⟨same, below⟩)
      · exact .inr (.inr ⟨same.symm, above⟩)
    · exact .inl (.inl more)

instance : IsTrans (Row Stamp Payload) Newer where
  trans a b c := by
    rintro (first | ⟨same, below⟩) (second | ⟨same', below'⟩)
    · exact .inl (second.trans first)
    · exact .inl (same' ▸ first)
    · exact .inl (same ▸ second)
    · exact .inr ⟨same.trans same', Nat.le_trans below' below⟩

theorem Newer.stamp (newer : Newer a b) : b.2.createdAt ≤ a.2.createdAt := by
  rcases newer with less | ⟨same, -⟩
  · exact less.le
  · exact same.ge

/-- The rows that a query keeps. -/
def kept (t : QueryAnalysis Stamp Payload) (queryHash : String) (keep : Int) : List (Row Stamp Payload) :=
  front Newer (max keep 0).toNat (ofQuery queryHash t.table.rows)

theorem kept_rows (inside : a ∈ kept t queryHash keep) : a ∈ t.table.rows ∧ a.2.queryHash = queryHash :=
  mem_ofQuery.mp (mem_of_front inside)

theorem kept_nodup : (kept t queryHash keep).Nodup := by
  apply List.Nodup.sublist (List.take_sublist _ _)
  rw [(List.perm_insertionSort Newer _).nodup_iff]
  exact (rows_nodup t).filter _

theorem mem_pruned : a ∈ (pruneAnalysisHistory t queryHash keep).1.table.rows ↔
    a ∈ t.table.rows ∧ (a.2.queryHash = queryHash → a ∈ kept t queryHash keep) := by
  have places : a ∈ t.table.rows → (a.1 ∈ (kept t queryHash keep).map Prod.fst ↔ a ∈ kept t queryHash keep) := by
    intro member
    rw [List.mem_map]
    constructor
    · rintro ⟨b, inside, same⟩
      rwa [eq_of_id (kept_rows inside).1 member same] at inside
    · exact fun inside => ⟨a, inside, rfl⟩
  have rows : a ∈ (pruneAnalysisHistory t queryHash keep).1.table.rows ↔
      a ∈ t.table.rows ∧ ¬ (a.2.queryHash = queryHash ∧ a.1 ∉ (kept t queryHash keep).map Prod.fst) := by
    simp only [pruneAnalysisHistory, QueryAnalysis.delete, Table.delete, List.mem_filter, Bool.not_eq_true',
      decide_eq_false_iff_not, kept]
  rw [rows]
  apply and_congr_right
  intro member
  rw [places member, not_and, not_not]

theorem kept_subperm (t : QueryAnalysis Stamp Payload) (queryHash : String) (keep : Int) :
    (kept t queryHash keep).Subperm (pruneAnalysisHistory t queryHash keep).1.table.rows := by
  apply List.subperm_of_subset kept_nodup
  intro row inside
  exact mem_pruned.mpr ⟨(kept_rows inside).1, fun _ => inside⟩

/-- How many analyses of its query are stamped no earlier. -/
def noEarlier (rows : List (Row Stamp Payload)) (analysis : Analysis Stamp Payload) : Nat :=
  rows.countP fun row => row.2.queryHash = analysis.queryHash ∧ analysis.createdAt ≤ row.2.createdAt

/-- An analysis is there, or enough others of its query that are no older are. -/
def Held (least : Nat) (rows : List (Row Stamp Payload)) (analysis : Analysis Stamp Payload) : Prop :=
  (∃ id, (id, analysis) ∈ rows) ∨ least ≤ noEarlier rows analysis

theorem noEarlier_le {more : List (Row Stamp Payload)} (stays : ∀ row ∈ t.table.rows,
    row.2.queryHash = analysis.queryHash → analysis.createdAt ≤ row.2.createdAt →
      ∃ later ∈ more, later.1 = row.1 ∧ later.2.queryHash = analysis.queryHash ∧ analysis.createdAt ≤ later.2.createdAt) :
    noEarlier t.table.rows analysis ≤ noEarlier more analysis := by
  unfold noEarlier
  rw [List.countP_eq_length_filter, List.countP_eq_length_filter, ← List.length_map Prod.fst,
    ← @List.length_map _ _ (more.filter _) Prod.fst]
  apply List.Subperm.length_le
  apply List.subperm_of_subset (t.table.rows_nodup.sublist (List.filter_sublist.map Prod.fst))
  intro id place
  obtain ⟨row, member, rfl⟩ := List.mem_map.mp place
  obtain ⟨there, counts⟩ := List.mem_filter.mp member
  have both := of_decide_eq_true counts
  obtain ⟨later, inside, same, counted⟩ := stays row there both.1 both.2
  exact List.mem_map.mpr ⟨later, List.mem_filter.mpr ⟨inside, decide_eq_true counted⟩, same⟩

/-- Once a row that is no older goes, the rows that are kept are enough. -/
theorem enough_kept (bound : (least : Int) ≤ keep) (member : a ∈ t.table.rows) (own : a.2.queryHash = analysis.queryHash)
    (after : analysis.createdAt ≤ a.2.createdAt) (out : a ∉ kept t analysis.queryHash keep) :
    least ≤ noEarlier (pruneAnalysisHistory t analysis.queryHash keep).1.table.rows analysis := by
  obtain ⟨full, ahead⟩ := left_out (mem_ofQuery.mpr ⟨member, own⟩) out
  have counted : (kept t analysis.queryHash keep).countP (fun row =>
      row.2.queryHash = analysis.queryHash ∧ analysis.createdAt ≤ row.2.createdAt) = (max keep 0).toNat := by
    rw [← full]
    apply List.countP_eq_length.mpr
    intro row inside
    exact decide_eq_true ⟨(kept_rows inside).2, after.trans (ahead row inside).stamp⟩
  have more := (kept_subperm t analysis.queryHash keep).countP_le fun row =>
    row.2.queryHash = analysis.queryHash ∧ analysis.createdAt ≤ row.2.createdAt
  unfold noEarlier
  omega

theorem prune_held (bound : (least : Int) ≤ keep) (held : Held least t.table.rows analysis) :
    Held least (pruneAnalysisHistory t queryHash keep).1.table.rows analysis := by
  by_cases own : analysis.queryHash = queryHash
  · subst own
    rcases held with ⟨id, member⟩ | count
    · by_cases inside : (id, analysis) ∈ kept t analysis.queryHash keep
      · exact .inl ⟨id, mem_pruned.mpr ⟨member, fun _ => inside⟩⟩
      · exact .inr (enough_kept bound member rfl le_rfl inside)
    · right
      by_cases all : ∀ row ∈ t.table.rows, row.2.queryHash = analysis.queryHash → analysis.createdAt ≤ row.2.createdAt →
          row ∈ kept t analysis.queryHash keep
      · apply count.trans (noEarlier_le _)
        intro row member same after
        exact ⟨row, mem_pruned.mpr ⟨member, fun _ => all row member same after⟩, rfl, same, after⟩
      · push Not at all
        obtain ⟨row, member, same, after, out⟩ := all
        exact enough_kept bound member same after out
  · rcases held with ⟨id, member⟩ | count
    · exact .inl ⟨id, mem_pruned.mpr ⟨member, fun same => absurd same own⟩⟩
    · right
      apply count.trans (noEarlier_le _)
      intro row member same after
      exact ⟨row, mem_pruned.mpr ⟨member, fun here => absurd (same.symm.trans here) own⟩, rfl, same, after⟩

theorem count_pruned (t : QueryAnalysis Stamp Payload) (queryHash : String) (keep : Int) :
    (pruneAnalysisHistory t queryHash keep).1.count queryHash ≤ (max keep 0).toNat := by
  have few : (ofQuery queryHash (pruneAnalysisHistory t queryHash keep).1.table.rows).Subperm (kept t queryHash keep) := by
    apply List.subperm_of_subset ((rows_nodup _).filter _)
    intro row member
    obtain ⟨there, own⟩ := mem_ofQuery.mp member
    exact (mem_pruned.mp there).2 own
  have size : (kept t queryHash keep).length ≤ (max keep 0).toNat := by
    rw [kept, length_front]
    exact Nat.min_le_left _ _
  exact few.length_le.trans size

/-- What a pass over the queries keeps. -/
structure Pruned (least : Nat) (t later : QueryAnalysis Stamp Payload) : Prop where
  rows : ∀ row ∈ later.table.rows, row ∈ t.table.rows
  held : ∀ analysis, Held least t.table.rows analysis → Held least later.table.rows analysis

theorem pruned_step (t : QueryAnalysis Stamp Payload) (queryHash : String) (bound : (least : Int) ≤ keep) :
    Pruned least t (pruneAnalysisHistory t queryHash keep).1 where
  rows _ member := (mem_pruned.mp member).1
  held _ held := prune_held bound held

theorem pruned_pass (bound : (least : Int) ≤ keep) : Pruned least t (pruneAnalyses t keep).1 := by
  have pass : ∀ (hashes : List String) (removed : Nat) (now : QueryAnalysis Stamp Payload), Pruned least t now →
      Pruned least t (hashes.foldl (fun (state : QueryAnalysis Stamp Payload × Nat) queryHash =>
        ((pruneAnalysisHistory state.1 queryHash keep).1, state.2 + (pruneAnalysisHistory state.1 queryHash keep).2))
          (now, removed)).1 := by
    intro hashes
    induction hashes with
    | nil => exact fun _ _ pruned => pruned
    | cons queryHash hashes ih =>
      intro removed now pruned
      have step := pruned_step now queryHash bound
      apply ih
      exact ⟨fun row member => pruned.rows row (step.rows row member),
        fun analysis held => step.held analysis (pruned.held analysis held)⟩
  exact pass _ 0 t ⟨fun _ member => member, fun _ held => held⟩

end Pruning

section Runs

variable [LinearOrder Stamp] {t : QueryAnalysis Stamp Payload} {a b : Row Stamp Payload} {analysis : Analysis Stamp Payload}
  {least most : Nat} {l : Ledger Stamp Payload}

theorem write_held {old : Analysis Stamp Payload} (held : Held least t.table.rows old) (other : old.key ≠ analysis.key)
    (later : ∀ row ∈ t.table.rows, row.2.key = analysis.key → row.2.createdAt ≤ analysis.createdAt) :
    Held least (write t analysis).table.rows old := by
  rcases held with ⟨id, member⟩ | count
  · exact .inl ⟨id, mem_write.mpr (.inl ⟨member, other⟩)⟩
  · right
    apply count.trans (noEarlier_le _)
    intro row member same after
    by_cases rewritten : row.2.key = analysis.key
    · have place : placeOf t analysis.key = row.1 := by
        cases found : t.find analysis.key with
        | none => exact absurd rewritten (find_none found member)
        | some there =>
          obtain ⟨inside, equal⟩ := find_some found
          rw [placeOf, found, eq_of_key member inside (rewritten.trans equal.symm)]
          rfl
      have hash : analysis.queryHash = row.2.queryHash := (congrArg Prod.fst rewritten).symm
      exact ⟨(placeOf t analysis.key, analysis), mem_write.mpr (.inr rfl), place, hash.trans same,
        after.trans (later row member rewritten)⟩
    · exact ⟨row, mem_write.mpr (.inl ⟨member, rewritten⟩), rfl, same, after⟩

/-- What every state of a run meets. -/
structure Sound (least most : Nat) (l : Ledger Stamp Payload) : Prop where
  latest : ∀ row ∈ l.stored.table.rows, l.recorded row.2.key = some row.2
  capped : ∀ queryHash, l.stored.count queryHash ≤ most
  keyed : ∀ key analysis, l.recorded key = some analysis → analysis.key = key
  held : ∀ key analysis, l.recorded key = some analysis → Held least l.stored.table.rows analysis

/-- The limits lie between two bounds, and an analysis that is recorded again is not stamped earlier. -/
def Orderly (least most : Nat) (l : Ledger Stamp Payload) : Call Stamp Payload → Prop
  | .recordAnalysis analysis keep =>
    (least : Int) ≤ keep ∧ keep ≤ most ∧ ∀ old, l.recorded analysis.key = some old → old.createdAt ≤ analysis.createdAt
  | .pruneAnalyses keep => (least : Int) ≤ keep
  | _ => True

theorem sound_record {keep : Int} (sound : Sound least most l) (orderly : Orderly least most l (.recordAnalysis analysis keep)) :
    Sound least most (l.call (.recordAnalysis analysis keep)) := by
  obtain ⟨low, high, newer⟩ := orderly
  have step := pruned_step (write l.stored analysis) analysis.queryHash low
  constructor
  · intro row member
    show (if row.2.key = analysis.key then some analysis else l.recorded row.2.key) = some row.2
    rcases mem_write.mp (step.rows row member) with ⟨there, other⟩ | rfl
    · rw [if_neg other, sound.latest row there]
    · rw [if_pos rfl]
  · intro queryHash
    by_cases own : queryHash = analysis.queryHash
    · subst own
      have few := count_pruned (write l.stored analysis) analysis.queryHash keep
      exact few.trans (by omega)
    · apply (sound.capped queryHash).trans' (count_le _)
      intro row member same
      rcases mem_write.mp (step.rows row member) with ⟨there, -⟩ | rfl
      · exact there
      · exact absurd same.symm own
  · intro key old found
    change (if key = analysis.key then some analysis else l.recorded key) = some old at found
    split at found
    · cases found
      exact Eq.symm ‹_›
    · exact sound.keyed key old found
  · intro key old found
    change (if key = analysis.key then some analysis else l.recorded key) = some old at found
    apply step.held
    split at found
    · cases found
      exact .inl ⟨_, mem_write.mpr (.inr rfl)⟩
    · rename_i differs
      apply write_held (sound.held key old found)
      · rwa [sound.keyed key old found]
      · intro row member same
        exact newer row.2 (same ▸ sound.latest row member)

theorem sound_update {queryHash analysisId : String} {payload : Payload} (sound : Sound least most l) :
    Sound least most (l.call (.updateAnalysisPayload queryHash analysisId payload)) := by
  cases found : l.stored.find (queryHash, analysisId) with
  | none =>
    have same : l.call (.updateAnalysisPayload queryHash analysisId payload) = l := by
      simp [Ledger.call, updateAnalysisPayload, found]
    rwa [same]
  | some there =>
    obtain ⟨inside, key⟩ := find_some found
    let written : Analysis Stamp Payload := { there.2 with payload }
    have rows : ∀ row, row ∈ (l.call (.updateAnalysisPayload queryHash analysisId payload)).stored.table.rows ↔
        row ∈ l.stored.table.rows ∧ row.2.key ≠ (queryHash, analysisId) ∨ row = (there.1, written) := by
      intro row
      rw [← key]
      simp only [Ledger.call, updateAnalysisPayload, found]
      exact mem_replace inside
    have recorded : ∀ other, (l.call (.updateAnalysisPayload queryHash analysisId payload)).recorded other =
        if other = (queryHash, analysisId) then some written else l.recorded other := by
      intro other
      simp only [Ledger.call, updateAnalysisPayload, found, true_and]
      by_cases own : other = (queryHash, analysisId)
      · rw [if_pos own, if_pos own, own, ← key, sound.latest there inside]
        rfl
      · rw [if_neg own, if_neg own]
    have stays : ∀ row ∈ l.stored.table.rows, ∃ later ∈
        (l.call (.updateAnalysisPayload queryHash analysisId payload)).stored.table.rows,
          later.1 = row.1 ∧ later.2.queryHash = row.2.queryHash ∧ later.2.createdAt = row.2.createdAt := by
      intro row member
      by_cases own : row.2.key = (queryHash, analysisId)
      · rw [eq_of_key member inside (own.trans key.symm)]
        exact ⟨(there.1, written), (rows _).mpr (.inr rfl), rfl, rfl, rfl⟩
      · exact ⟨row, (rows row).mpr (.inl ⟨member, own⟩), rfl, rfl, rfl⟩
    constructor
    · intro row member
      rw [recorded]
      rcases (rows row).mp member with ⟨before, other⟩ | rfl
      · rw [if_neg other, sound.latest row before]
      · exact if_pos key
    · intro other
      apply (sound.capped other).trans' (le_of_eq _)
      unfold QueryAnalysis.count ofQuery
      simp only [Ledger.call, updateAnalysisPayload, found, QueryAnalysis.replace, Table.update, List.filter_map,
        List.length_map]
      congr 2
      funext row
      simp only [Function.comp_apply]
      split <;> rfl
    · intro other old there
      rw [recorded] at there
      split at there
      · cases there
        exact key.trans (Eq.symm ‹_›)
      · exact sound.keyed other old there
    · intro other old there
      rw [recorded] at there
      split at there
      · cases there
        exact .inl ⟨_, (rows _).mpr (.inr rfl)⟩
      · rename_i differs
        rcases sound.held other old there with ⟨id, member⟩ | count
        · exact .inl ⟨id, (rows _).mpr (.inl ⟨member, by rwa [sound.keyed other old there]⟩)⟩
        · right
          apply count.trans (noEarlier_le _)
          intro row member same after
          obtain ⟨later, there, id, hash, stamp⟩ := stays row member
          exact ⟨later, there, id, hash.trans same, stamp ▸ after⟩

theorem sound_delete {queryHash : String} (sound : Sound least most l) :
    Sound least most (l.call (.deleteAnalyses queryHash)) := by
  have rows : ∀ row, row ∈ (l.call (.deleteAnalyses queryHash)).stored.table.rows ↔
      row ∈ l.stored.table.rows ∧ row.2.queryHash ≠ queryHash := by
    intro row
    simp [Ledger.call, deleteAnalyses, QueryAnalysis.delete, Table.delete]
  have kept : ∀ key analysis, (l.call (.deleteAnalyses queryHash)).recorded key = some analysis →
      l.recorded key = some analysis ∧ key.1 ≠ queryHash := by
    intro key analysis found
    change (if key.1 = queryHash then none else l.recorded key) = some analysis at found
    split at found
    · cases found
    · exact ⟨found, ‹_›⟩
  constructor
  · intro row member
    obtain ⟨there, other⟩ := (rows row).mp member
    exact (if_neg other).trans (sound.latest row there)
  · exact fun other => (sound.capped other).trans' (count_le fun row member _ => ((rows row).mp member).1)
  · exact fun key analysis found => sound.keyed key analysis (kept key analysis found).1
  · intro key analysis found
    obtain ⟨before, other⟩ := kept key analysis found
    have apart : analysis.queryHash ≠ queryHash := by
      rwa [← sound.keyed key analysis before] at other
    rcases sound.held key analysis before with ⟨id, member⟩ | count
    · exact .inl ⟨id, (rows _).mpr ⟨member, apart⟩⟩
    · right
      apply count.trans (noEarlier_le _)
      exact fun row member same after => ⟨row, (rows row).mpr ⟨member, same ▸ apart⟩, rfl, same, after⟩

theorem sound_prune {keep : Int} (sound : Sound least most l) (low : (least : Int) ≤ keep) :
    Sound least most (l.call (.pruneAnalyses keep)) := by
  have pass : Pruned least l.stored (l.call (.pruneAnalyses keep)).stored := pruned_pass low
  constructor
  · exact fun row member => sound.latest row (pass.rows row member)
  · exact fun other => (sound.capped other).trans' (count_le fun row member _ => pass.rows row member)
  · exact sound.keyed
  · exact fun key analysis found => pass.held analysis (sound.held key analysis found)

theorem sound_call (l : Ledger Stamp Payload) (call : Call Stamp Payload) (orderly : Orderly least most l call)
    (sound : Sound least most l) : Sound least most (l.call call) := by
  cases call with
  | recordAnalysis analysis keep => exact sound_record sound orderly
  | updateAnalysisPayload queryHash analysisId payload => exact sound_update sound
  | deleteAnalyses queryHash => exact sound_delete sound
  | pruneAnalyses keep => exact sound_prune sound orderly

theorem sound_new : Sound least most (Ledger.new : Ledger Stamp Payload) where
  latest _ member := absurd member List.not_mem_nil
  capped _ := Nat.zero_le _
  keyed _ _ found := absurd found (Option.some_ne_none _).symm
  held _ _ found := absurd found (Option.some_ne_none _).symm

/-- A query's one newest analysis is the first that is read. -/
theorem Sound.first_read (sound : Sound least most l) (positive : 0 < least) {key : String × String}
    (found : l.recorded key = some analysis) (newest : ∀ other old, l.recorded other = some old → other ≠ key →
      old.queryHash = analysis.queryHash → old.createdAt < analysis.createdAt) :
    (analysisPayloads l.stored analysis.queryHash).head? = some analysis.payload := by
  have own := sound.keyed key analysis found
  have older : ∀ row ∈ l.stored.table.rows, row.2.queryHash = analysis.queryHash → analysis.createdAt ≤ row.2.createdAt →
      row.2 = analysis := by
    intro row member same after
    have latest := sound.latest row member
    by_cases equal : row.2.key = key
    · rw [equal, found] at latest
      exact Option.some.inj latest.symm
    · exact absurd (newest _ _ latest equal same) after.not_gt
  obtain ⟨row, member, is⟩ : ∃ row ∈ l.stored.table.rows, row.2 = analysis := by
    rcases sound.held key analysis found with ⟨id, member⟩ | count
    · exact ⟨_, member, rfl⟩
    · obtain ⟨row, member, counts⟩ := List.countP_pos_iff.mp (positive.trans_le count)
      have both := of_decide_eq_true counts
      exact ⟨row, member, older row member both.1 both.2⟩
  subst is
  have inside := (List.mem_insertionSort Newer).mpr (mem_ofQuery.mpr ⟨member, rfl⟩)
  have sorted := List.pairwise_insertionSort Newer (ofQuery row.2.queryHash l.stored.table.rows)
  have from_ : ∀ r ∈ (ofQuery row.2.queryHash l.stored.table.rows).insertionSort Newer,
      r ∈ l.stored.table.rows ∧ r.2.queryHash = row.2.queryHash :=
    fun r member => mem_ofQuery.mp ((List.mem_insertionSort Newer).mp member)
  unfold analysisPayloads
  generalize (ofQuery row.2.queryHash l.stored.table.rows).insertionSort Newer = read at inside sorted from_
  cases read with
  | nil => cases inside
  | cons first rest =>
    have ahead : row.2.createdAt ≤ first.2.createdAt := by
      rcases List.mem_cons.mp inside with rfl | later
      · exact le_rfl
      · exact ((List.pairwise_cons.mp sorted).1 row later).stamp
    obtain ⟨there, same⟩ := from_ first List.mem_cons_self
    simp [older first there same ahead]

/-- However analyses are recorded, edited, deleted and pruned, a query holds no more than the upper bound, each as it was
written last; one that is gone has at least the lower bound of others before it; and the newest is read first. -/
theorem newest_analyses_kept (least most : Nat) (calls : List (Call Stamp Payload))
    (orderly : EveryTurn Ledger.call (Orderly least most) Ledger.new calls) :
    (∀ queryHash, (calls.foldl Ledger.call Ledger.new).stored.count queryHash ≤ most) ∧
    (∀ row ∈ (calls.foldl Ledger.call Ledger.new).stored.table.rows,
      (calls.foldl Ledger.call Ledger.new).recorded row.2.key = some row.2) ∧
    ∀ key analysis, (calls.foldl Ledger.call Ledger.new).recorded key = some analysis →
      Held least (calls.foldl Ledger.call Ledger.new).stored.table.rows analysis ∧
      (0 < least → (∀ other old, (calls.foldl Ledger.call Ledger.new).recorded other = some old → other ≠ key →
          old.queryHash = analysis.queryHash → old.createdAt < analysis.createdAt) →
        (analysisPayloads (calls.foldl Ledger.call Ledger.new).stored analysis.queryHash).head? = some analysis.payload) := by
  have sound : Sound least most (calls.foldl Ledger.call Ledger.new) :=
    foldl_invariant (Sound least most) (fun l call _ => sound_call l call) orderly sound_new
  exact ⟨sound.capped, sound.latest, fun key analysis found =>
    ⟨sound.held key analysis found, fun positive newest => sound.first_read positive found newest⟩⟩

end Runs

/-- Three analyses of a query whose history holds two, the first recorded anew. -/
def busyQuery : List (Call Nat String) :=
  [.recordAnalysis ⟨"q", "a", 1, "db", "first"⟩ 2, .recordAnalysis ⟨"q", "b", 2, "db", "second"⟩ 2,
    .updateAnalysisPayload "q" "b" "shown", .recordAnalysis ⟨"q", "a", 3, "db", "again"⟩ 2,
    .recordAnalysis ⟨"q", "c", 4, "db", "third"⟩ 2]

theorem busyQuery_orderly : EveryTurn Ledger.call (Orderly 2 2) Ledger.new busyQuery := by
  refine ⟨⟨le_rfl, le_rfl, ?_⟩, ⟨le_rfl, le_rfl, ?_⟩, True.intro, ⟨le_rfl, le_rfl, ?_⟩, ⟨le_rfl, le_rfl, ?_⟩, True.intro⟩
  · exact fun old found => absurd found (Option.some_ne_none old).symm
  · exact fun old found => absurd found (Option.some_ne_none old).symm
  · rintro old found
    cases found
    decide
  · exact fun old found => absurd found (Option.some_ne_none old).symm

theorem newest_analyses_kept_busyQuery :
    (busyQuery.foldl Ledger.call Ledger.new).stored.count "q" ≤ 2 ∧
    analysisPayloads (busyQuery.foldl Ledger.call Ledger.new).stored "q" = ["third", "again"] :=
  ⟨(newest_analyses_kept 2 2 busyQuery busyQuery_orderly).1 "q", by decide +kernel⟩

end Rdst.Library.AnalysisHistory
