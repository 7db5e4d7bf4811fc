import Rdst.Library.Migration

namespace Rdst.Library

open Renaming Rdst.Observation

set_option linter.unusedSectionVars false

variable {Content Rank : Type} [LinearOrder Rank]

section Journal

variable {pending moves moves' : List (String × String)}

theorem outstanding_keys {key : String} (member : key ∈ keys (outstanding pending moves)) :
    key ∈ keys pending ∧ key ∉ keys moves := by
  obtain ⟨move, inside, rfl⟩ := List.mem_map.mp member
  have split := List.mem_filter.mp inside
  exact ⟨List.mem_map_of_mem split.1, by simpa using split.2⟩

theorem outstanding_grow (pending : List (String × String)) (grows : ∀ key ∈ keys moves, key ∈ keys moves') :
    outstanding pending moves' = outstanding (outstanding pending moves) moves' := by
  unfold outstanding
  rw [List.filter_filter]
  apply List.filter_congr
  intro move _
  by_cases known : move.1 ∈ keys moves
  · simp [known, grows _ known]
  · simp [known]

theorem outstanding_append (free : ∀ key ∈ keys pending, key ∉ keys moves) :
    outstanding (pending ++ moves) moves = pending := by
  unfold outstanding
  have own : moves.filter (fun move => move.1 ∉ keys moves) = [] := by
    rw [List.filter_eq_nil_iff]
    intro move inside
    simpa using mem_keys_of_mem inside
  have others : pending.filter (fun move => move.1 ∉ keys moves) = pending := by
    rw [List.filter_eq_self]
    intro move inside
    simpa using free move.1 (List.mem_map_of_mem inside)
  rw [List.filter_append, own, others, List.append_nil]

theorem journal_nodup (distinct : (keys pending).Nodup) (distinct' : (keys moves).Nodup) :
    (keys (outstanding pending moves ++ moves)).Nodup := by
  rw [keys_append, List.nodup_append]
  refine ⟨(List.filter_sublist.map _).nodup distinct, distinct', ?_⟩
  rintro key early later here rfl
  exact (outstanding_keys early).2 here

/-- The journal with this process's moves written over it is what is outstanding, then those moves. -/
theorem update_journal (distinct : (keys pending).Nodup) (distinct' : (keys moves).Nodup)
    (stored : pending = [] ∨ pending = outstanding pending moves ++ moves) :
    update pending moves = outstanding pending moves ++ moves := by
  rcases stored with rfl | stored
  · rw [update_agreeing distinct distinct' (by simp [keys])]
    simp [outstanding, keys]
  · have inside : ∀ move ∈ moves, move ∈ pending := fun move here => by
      rw [stored]
      exact List.mem_append_right _ here
    rw [update_agreeing distinct distinct' fun move here _ => inside move here, ← stored]
    have none_new : moves.filter (fun move => move.1 ∉ keys pending) = [] := by
      rw [List.filter_eq_nil_iff]
      intro move here
      simpa using mem_keys_of_mem (inside move here)
    rw [none_new, List.append_nil]

theorem update_memory (distinct : (keys pending).Nodup) (distinct' : (keys moves).Nodup)
    (stored : pending = outstanding pending moves ++ moves)
    (single : outstanding pending moves = [] ∨ moves = []) :
    update moves pending = outstanding pending moves ++ moves := by
  rcases single with none_before | rfl
  · rw [none_before, List.nil_append] at stored ⊢
    rw [stored, update_agreeing distinct' distinct' fun move here _ => here]
    have none_new : moves.filter (fun move => move.1 ∉ keys moves) = [] := by
      rw [List.filter_eq_nil_iff]
      intro move here
      simpa using mem_keys_of_mem here
    rw [none_new, List.append_nil]
  · rw [update_agreeing distinct' distinct (by simp [keys])]
    simp [outstanding, keys]

/-- A re-keying step takes what is settled to where the step takes its hash. -/
theorem settled_rekey {records : List (String × String)} {hash dest : String}
    (idle : ∀ move ∈ records, move.1 ≠ move.2 → ∀ earlier ∈ outstanding pending moves,
      earlier.1 = move.1 → earlier.2 = move.1)
    (inOrder : InOrder moves records) (distinct : (keys records).Nodup)
    (settled : Settled moves (follow (outstanding pending moves) hash) dest) :
    Settled (recordMoves moves records) (follow (outstanding pending (recordMoves moves records)) hash)
      (destination records dest) := by
  have same : follow (outstanding pending (recordMoves moves records)) hash =
      follow (outstanding pending moves) hash := by
    rw [outstanding_grow pending fun key member => keys_recordMoves.mpr (.inl member)]
    apply follow_filter_idle
    intro move inside left_out
    have listed : move.1 ∈ keys (recordMoves moves records) := by simpa using left_out
    have fresh := (outstanding_keys (List.mem_map_of_mem inside)).2
    obtain ⟨record, here, differ, -, same⟩ := (keys_recordMoves.mp listed).resolve_left fresh
    rw [idle record here differ move inside same.symm, same]
  rw [same]
  exact settled_recordMoves settled inOrder distinct

/-- Stale hashes agree with the moves where both name one hash. -/
def StaleAgrees (pending moves stale : List (String × String)) : Prop :=
  ∀ pair ∈ stale, pair.1 ≠ "" ∧ pair.2 ≠ "" ∧ (pair.1 ∈ keys moves → pair ∈ moves) ∧
    (pair.1 ∈ keys (outstanding pending moves) →
      follow (outstanding pending moves ++ moves) pair.1 = pair.2)

theorem settled_stale {stale : List (String × String)} {hash dest : String}
    (distinct : (keys pending).Nodup) (distinct' : (keys moves).Nodup) (distinct_stale : (keys stale).Nodup)
    (agrees : StaleAgrees pending moves stale) (live : dest ∉ keys stale)
    (settled : Settled moves (follow (outstanding pending moves) hash) dest) :
    Settled (update moves stale) (follow (outstanding pending (update moves stale)) hash) dest := by
  have added : update moves stale = moves ++ stale.filter fun move => move.1 ∉ keys moves :=
    update_agreeing distinct' distinct_stale fun pair inside => (agrees pair inside).2.2.1
  have stays : dest ∉ keys (stale.filter fun move => move.1 ∉ keys moves) :=
    fun inside => live (keys_filter_subset _ _ inside)
  have shrunk : outstanding pending (update moves stale) =
      (outstanding pending moves).filter fun move => move.1 ∉ keys (stale.filter fun move => move.1 ∉ keys moves) := by
    have grows : ∀ key ∈ keys moves, key ∈ keys (update moves stale) := fun key member => by
      rw [added, keys_append]
      exact List.mem_append_left _ member
    rw [outstanding_grow pending grows]
    unfold outstanding
    rw [List.filter_filter, List.filter_filter]
    apply List.filter_congr
    intro move _
    rw [added, keys_append]
    by_cases known : move.1 ∈ keys moves <;> simp [known]
  have part : (keys (outstanding pending moves)).Nodup := (List.filter_sublist.map _).nodup distinct
  rw [shrunk, added]
  rcases follow_without part (keys (stale.filter fun move => move.1 ∉ keys moves)) hash with
    same | ⟨name, listed, stops, inside, joins⟩
  · rw [same]
    exact settled.append stays
  · -- The hash stops at a stale one, which the update takes the rest of the way.
    rw [stops]
    obtain ⟨pair, here, rfl⟩ := List.mem_map.mp listed
    have pair_in := List.mem_filter.mp here
    have value : pair.2 = dest := by
      rw [← (agrees pair pair_in.1).2.2.2 inside, follow_append, joins, settled.follow_eq]
    obtain ⟨before, after, split⟩ := List.append_of_mem here
    have unique : (keys (stale.filter fun move => move.1 ∉ keys moves)).Nodup :=
      (List.filter_sublist.map _).nodup distinct_stale
    rw [split] at stays unique ⊢
    rw [keys_append, keys_cons, List.nodup_append] at unique
    rw [keys_append, keys_cons] at stays
    refine .inr ⟨moves ++ before, after, ?_, ?_, ?_⟩
    · rw [← value, List.append_assoc]
    · rw [keys_append, List.mem_append, not_or]
      exact ⟨(outstanding_keys inside).2, fun early => unique.2.2 _ early _ (by simp) rfl⟩
    · simp only [List.mem_append, List.mem_cons, not_or] at stays
      exact stays.2.2

/-- Dropping the moves onto pruned hashes leaves alone what is settled elsewhere. -/
theorem settled_prune {pruned : List String} {hash dest : String}
    (stored : pending = [] ∨ pending = outstanding pending moves ++ moves) (live : dest ∉ pruned)
    (settled : Settled moves (follow (outstanding pending moves) hash) dest) :
    Settled (moves.filter fun move => move.2 ∉ pruned)
      (follow (outstanding pending (moves.filter fun move => move.2 ∉ pruned)) hash) dest := by
  have same : follow (outstanding pending (moves.filter fun move => move.2 ∉ pruned)) hash =
      follow (outstanding pending moves) hash := by
    rcases stored with rfl | stored
    · rfl
    · have split : outstanding pending (moves.filter fun move => move.2 ∉ pruned) =
          outstanding pending moves ++ moves.filter fun move =>
            move.1 ∉ keys (moves.filter fun move => move.2 ∉ pruned) := by
        conv_lhs => rw [stored]
        unfold outstanding
        rw [List.filter_append, List.filter_filter]
        congr 1
        apply List.filter_congr
        intro move _
        by_cases known : move.1 ∈ keys moves
        · simp [known]
        · have out : move.1 ∉ keys (moves.filter fun move => move.2 ∉ pruned) :=
            fun inside => known (keys_filter_subset _ _ inside)
          rw [decide_eq_true out, decide_eq_true known, Bool.and_self]
      rw [split, follow_append]
      apply follow_absent
      intro dropped
      obtain ⟨move, inside, at_end⟩ := List.mem_map.mp dropped
      have gone := List.mem_filter.mp inside
      have entry := settled.entry (at_end ▸ mem_keys_of_mem gone.1)
      have survives : follow (outstanding pending moves) hash ∈ keys (moves.filter fun move => move.2 ∉ pruned) :=
        mem_keys_of_mem (List.mem_filter.mpr ⟨entry, by simpa using live⟩)
      have out : move.1 ∉ keys (moves.filter fun move => move.2 ∉ pruned) := by simpa using gone.2
      exact out (at_end ▸ survives)
  rw [same]
  exact settled.filter (by simpa using live)

end Journal

section Stale

variable (legacy : Identity Content → List String) (rows : List (Identity Content))

theorem keys_filterMap_sublist {pick : String → Option (String × String)} (names : List String)
    (own : ∀ old pair, pick old = some pair → pair.1 = old) : (keys (names.filterMap pick)).Sublist names := by
  induction names with
  | nil => exact .slnil
  | cons old rest ih =>
    cases found : pick old with
    | none =>
      rw [List.filterMap_cons_none found]
      exact ih.cons old
    | some pair =>
      rw [List.filterMap_cons_some found, keys_cons, own old pair found]
      exact ih.cons_cons old

theorem staleIdentityHashes_distinct : (keys (staleIdentityHashes legacy rows)).Nodup := by
  refine (keys_filterMap_sublist _ ?_).nodup (List.nodup_reverse.mpr (List.nodup_dedup _))
  intro old pair found
  by_cases live : old ∈ rows.map Identity.hash
  · rw [if_pos live] at found
    cases found
  · rw [if_neg live] at found
    split at found
    · cases found
      rfl
    · cases found

theorem staleIdentityHashes_spec {pair : String × String} (member : pair ∈ staleIdentityHashes legacy rows) :
    pair.1 ∉ rows.map Identity.hash := by
  obtain ⟨old, -, found⟩ := List.mem_filterMap.mp member
  by_cases live : old ∈ rows.map Identity.hash
  · rw [if_pos live] at found
    cases found
  · rw [if_neg live] at found
    split at found
    · cases found
      exact live
    · cases found

end Stale

section Analyses

theorem importAnalysisToml_spec (results : List (String × List AnalysisBody)) (analyses : List Analysis) :
    (∀ stored ∈ analyses, stored ∈ importAnalysisToml results analyses) ∧
      ∀ stored ∈ importAnalysisToml results analyses, stored ∈ analyses ∨
        stored.queryHash = stored.origin ∧ ∃ query ∈ results, query.1 = stored.origin := by
  have one : ∀ (queryHash : String) (bodies : List AnalysisBody) (analyses : List Analysis),
      (∀ stored ∈ analyses, stored ∈ bodies.foldl (insertAnalysis queryHash) analyses) ∧
        ∀ stored ∈ bodies.foldl (insertAnalysis queryHash) analyses, stored ∈ analyses ∨
          stored.queryHash = stored.origin ∧ queryHash = stored.origin := by
    intro queryHash bodies
    induction bodies with
    | nil => exact fun analyses => ⟨fun _ here => here, fun _ here => .inl here⟩
    | cons body rest ih =>
      intro analyses
      obtain ⟨stays, from_rest⟩ := ih (insertAnalysis queryHash analyses body)
      simp only [List.foldl_cons]
      unfold insertAnalysis at stays from_rest ⊢
      split at stays
      · rename_i stands
        rw [if_pos stands] at from_rest ⊢
        exact ⟨stays, from_rest⟩
      · rename_i stands
        rw [if_neg stands] at from_rest ⊢
        refine ⟨fun stored here => stays stored (List.mem_append_left _ here), fun stored here => ?_⟩
        rcases from_rest stored here with inside | new
        · rcases List.mem_append.mp inside with old | last
          · exact .inl old
          · rw [List.mem_singleton.mp last]
            exact .inr ⟨rfl, rfl⟩
        · exact .inr new
  unfold importAnalysisToml
  induction results generalizing analyses with
  | nil => exact ⟨fun _ here => here, fun _ here => .inl here⟩
  | cons query rest ih =>
    obtain ⟨stays, from_rest⟩ := ih ((importable query.2).foldl (insertAnalysis query.1) analyses)
    obtain ⟨stays', from_one⟩ := one query.1 (importable query.2) analyses
    refine ⟨fun stored here => stays stored (stays' stored here), fun stored here => ?_⟩
    rcases from_rest stored here with inside | ⟨same, other, listed, keyed⟩
    · rcases from_one stored inside with old | ⟨same, keyed⟩
      · exact .inl old
      · exact .inr ⟨same, query, by simp, keyed⟩
    · exact .inr ⟨same, other, by simp [listed], keyed⟩

/-- No two analyses with one id end under one hash, so that no update is ignored. -/
def Apart (moves : List (String × String)) (analyses : List Analysis) : Prop :=
  ∀ a ∈ analyses, ∀ b ∈ analyses, a.analysisId = b.analysisId →
    follow moves a.queryHash = follow moves b.queryHash → a.queryHash = b.queryHash

theorem renameAnalyses_eq {analyses : List Analysis} {move : String × String} {rest : List (String × String)}
    (differ : move.1 ≠ move.2) (apart : Apart (move :: rest) analyses) :
    renameAnalyses analyses move.1 move.2 = analyses.map fun stored =>
      { stored with queryHash := if stored.queryHash = move.1 then move.2 else stored.queryHash } := by
  apply List.map_congr_left
  intro stored inside
  by_cases here : stored.queryHash = move.1
  · have alone : ¬ ∃ other ∈ analyses, other.queryHash = move.2 ∧ other.analysisId = stored.analysisId := by
      rintro ⟨other, present, at_new, same_id⟩
      have away : other.queryHash ≠ move.1 := fun same => differ (same.symm.trans at_new)
      have collide := apart stored inside other present same_id.symm (by
        rw [follow_cons, follow_cons, if_pos here, if_neg away, at_new])
      exact away (collide.symm.trans here)
    rw [if_pos ⟨here, alone⟩, if_pos here]
  · rw [if_neg fun both => here both.1, if_neg here]

/-- Where no two analyses collide, the updates take each one where following the moves takes its hash. -/
theorem renameAll_eq {analyses : List Analysis} {moves : List (String × String)}
    (differ : ∀ move ∈ moves, move.1 ≠ move.2) (apart : Apart moves analyses) :
    renameAll moves analyses = analyses.map fun stored =>
      { stored with queryHash := follow moves stored.queryHash } := by
  induction moves generalizing analyses with
  | nil =>
    conv_lhs => rw [← List.map_id analyses]
    rfl
  | cons move rest ih =>
    show renameAll rest (renameAnalyses analyses move.1 move.2) = _
    rw [renameAnalyses_eq (differ move (by simp)) apart,
      ih fun other inside => differ other (List.mem_cons_of_mem _ inside), List.map_map]
    · rfl
    · intro a ha b hb same_id ends
      obtain ⟨first, inside, rfl⟩ := List.mem_map.mp ha
      obtain ⟨second, inside', rfl⟩ := List.mem_map.mp hb
      have same := apart first inside second inside' same_id ends
      simp only [same]

theorem follow_eq_destination {moves : List (String × String)}
    (ahead : moves.Pairwise fun first later => first.2 ≠ later.1) (hash : String) :
    follow moves hash = destination moves hash := by
  induction moves with
  | nil => rfl
  | cons move rest ih =>
    obtain ⟨first, later⟩ := List.pairwise_cons.mp ahead
    rw [follow_cons, destination_cons]
    by_cases here : hash = move.1
    · rw [if_pos here, if_pos here]
      refine follow_absent fun inside => ?_
      obtain ⟨other, listed, same⟩ := List.mem_map.mp inside
      exact first other listed same.symm
    · rw [if_neg here, if_neg here, ih later]

/-- The order of the scan and the order of the groups list the same moves. -/
theorem destination_scanMoves {found : List (Mover Content)} (distinct : (keys (scanMoves found)).Nodup)
    (distinct' : (keys (recordsOf found)).Nodup) (hash : String) :
    destination (scanMoves found) hash = destination (recordsOf found) hash := by
  have listed : ∀ key, key ∈ keys (scanMoves found) ↔ key ∈ keys (recordsOf found) := by
    intro key
    rw [(recordsOf_keys found).mem_iff]
    unfold keys scanMoves
    rw [List.map_map]
    rfl
  by_cases known : hash ∈ keys (scanMoves found)
  · obtain ⟨move, inside, rfl⟩ := List.mem_map.mp known
    obtain ⟨mover, present, rfl⟩ := List.mem_map.mp inside
    have scanned := destination_of_mem distinct inside
    have recorded := destination_of_mem distinct' (recordsOf_mem present)
    exact scanned.trans recorded.symm
  · rw [destination_absent known, destination_absent fun inside => known ((listed hash).mpr inside)]

end Analyses

end Rdst.Library
