import Rdst.Library.Followed

namespace Rdst.Library

open Renaming Rdst.Observation

set_option linter.unusedSectionVars false

variable {Content Rank : Type} [LinearOrder Rank]

/-- Each row holds identities of the start, and each of these is in a row unless it was pruned. -/
structure Traced (start rows : List (Identity Content)) (gone : List String) : Prop where
  hashes : (rows.map Identity.hash).Nodup
  ids : (rows.map Identity.id).Nodup
  origins : ∀ row ∈ rows, ∀ hash ∈ row.carries, ∃ old ∈ start, hash ∈ old.carries
  covered : ∀ old ∈ start, ∀ hash ∈ old.carries, hash ∈ gone ∨ ∃ row ∈ rows, hash ∈ row.carries

/-- The journal leads from where `place` has an observation to the hash of its identity. -/
structure Routed (place : String → String) (store : Store Content) : Prop where
  moveKeys : (keys store.catalog.moves).Nodup
  pendingKeys : (keys store.pending).Nodup
  blankless : ∀ move ∈ store.journal, move.1 ≠ "" ∧ move.2 ≠ ""
  single : 16 ≤ store.version → outstanding store.pending store.catalog.moves = [] ∨ store.catalog.moves = []
  settled : store.version < 13 → ∀ row ∈ store.catalog.rows, ∀ hash ∈ row.carries,
    Settled store.catalog.moves (follow (outstanding store.pending store.catalog.moves) (place hash)) row.hash
  followed : store.cacheExists = true ∨ store.version < 16 → ∀ row ∈ store.catalog.rows,
    ∀ hash ∈ row.carries, follow store.journal (place hash) = row.hash

/-- Every analysis is keyed by the hash of the identity that it was stored for. -/
structure Analysed (start : List Analysis) (store : Store Content) : Prop where
  early : store.version < 13 → store.analyses = []
  keyed : ∀ stored ∈ store.analyses, ∀ row ∈ store.catalog.rows, stored.origin ∈ row.carries →
    stored.queryHash = row.hash
  kept : ∀ stored ∈ start, ∃ later ∈ store.analyses,
    later.origin = stored.origin ∧ later.analysisId = stored.analysisId ∧ later.payload = stored.payload

structure Observed (start : History) (place : String → String) (store : Store Content) : Prop where
  tracks : store.history.Tracks place
  untouched : store.version < schemaVersion → place = id
  named : ∀ hash, hash ≠ "" → place hash ≠ ""
  kept : start.Keeps store.history

/-- Between two steps the journal in library.db holds all moves, save in a first import. -/
structure Stored (store : Store Content) : Prop where
  importing : store.fresh = true → store.version < schemaVersion → store.pending = []
  committed : ¬ (store.fresh = true ∧ store.version < schemaVersion) → store.pending = store.journal

structure Sound (start : Store Content) (place : String → String) (store : Store Content) : Prop where
  traced : Traced start.catalog.rows store.catalog.rows store.gone
  routed : Routed place store
  analysed : Analysed start.analyses store
  observed : Observed start.history place store

section Rows

variable {start rows next : List (Identity Content)} {gone : List String}

theorem Traced.rekeyed {records : List (String × String)} (traced : Traced start rows gone)
    (rekeyed : Rekeyed rows records next) : Traced start next gone := by
  refine ⟨rekeyed.hashes, rekeyed.ids, ?_, ?_⟩
  · intro row member hash carried
    obtain ⟨old, inside, here, -⟩ := rekeyed.traced row member hash carried
    exact traced.origins old inside hash here
  · intro old member hash carried
    rcases traced.covered old member hash carried with out | ⟨row, inside, here⟩
    · exact .inl out
    · exact .inr (rekeyed.kept row inside hash here)

theorem Traced.prune (traced : Traced start rows gone) (drop : Identity Content → Bool) :
    Traced start (rows.filter fun row => !drop row) (gone ++ (rows.filter drop).flatMap Identity.carries) := by
  have part : (rows.filter fun row => !drop row).Sublist rows := List.filter_sublist
  refine ⟨(part.map _).nodup traced.hashes, (part.map _).nodup traced.ids, ?_, ?_⟩
  · exact fun row member => traced.origins row (part.subset member)
  · intro old member hash carried
    rcases traced.covered old member hash carried with out | ⟨row, inside, here⟩
    · exact .inl (List.mem_append_left _ out)
    · cases dropped : drop row with
      | true =>
        exact .inl (List.mem_append_right _
          (List.mem_flatMap.mpr ⟨row, List.mem_filter.mpr ⟨inside, dropped⟩, here⟩))
      | false => exact .inr ⟨row, List.mem_filter.mpr ⟨inside, by simp [dropped]⟩, here⟩

end Rows

section Commit

variable {place : String → String} {store : Store Content}

theorem journaled_outstanding (store : Store Content) :
    outstanding store.journaled.pending store.journaled.catalog.moves =
      outstanding store.pending store.catalog.moves := by
  unfold Store.journaled
  split
  · rfl
  · exact outstanding_append fun key member => (outstanding_keys member).2

theorem journaled_fields (store : Store Content) : store.journaled.version = store.version ∧
    store.journaled.fresh = store.fresh ∧ store.journaled.cacheExists = store.cacheExists ∧
    store.journaled.catalog = store.catalog ∧ store.journaled.analyses = store.analyses ∧
    store.journaled.history = store.history ∧ store.journaled.gone = store.gone := by
  unfold Store.journaled
  split <;> exact ⟨rfl, rfl, rfl, rfl, rfl, rfl, rfl⟩

theorem Routed.journaled (routed : Routed place store) : Routed place store.journaled := by
  obtain ⟨version, -, cache, catalog, -⟩ := journaled_fields store
  have same := journaled_outstanding store
  have journal : store.journaled.journal = store.journal := by
    unfold Store.journal
    rw [same, catalog]
  refine ⟨?_, ?_, ?_, ?_, ?_, ?_⟩
  · rw [catalog]
    exact routed.moveKeys
  · unfold Store.journaled
    split
    · exact routed.pendingKeys
    · exact journal_nodup routed.pendingKeys routed.moveKeys
  · rw [journal]
    exact routed.blankless
  · rw [version, same, catalog]
    exact routed.single
  · rw [version, same, catalog]
    exact routed.settled
  · rw [version, cache, journal, catalog]
    exact routed.followed

theorem Sound.journaled {start : Store Content} (sound : Sound start place store) :
    Sound start place store.journaled := by
  obtain ⟨version, -, -, catalog, analyses, history, gone⟩ := journaled_fields store
  refine ⟨?_, sound.routed.journaled, ?_, ?_⟩
  · rw [catalog, gone]
    exact sound.traced
  · refine ⟨?_, ?_, ?_⟩
    · rw [version, analyses]
      exact sound.analysed.early
    · rw [analyses, catalog]
      exact sound.analysed.keyed
    · rw [analyses]
      exact sound.analysed.kept
  · refine ⟨?_, ?_, sound.observed.named, ?_⟩
    · rw [history]
      exact sound.observed.tracks
    · rw [version]
      exact sound.observed.untouched
    · rw [history]
      exact sound.observed.kept

theorem stored_journaled
    (importing : store.fresh = true → store.version < schemaVersion → store.pending = []) :
    Stored store.journaled := by
  have same := journaled_outstanding store
  unfold Store.journaled at same ⊢
  by_cases unfinished : store.fresh = true ∧ store.version < schemaVersion
  · rw [if_pos unfinished]
    exact ⟨importing, fun finished => absurd unfinished finished⟩
  · rw [if_neg unfinished] at same ⊢
    refine ⟨fun first early => absurd ⟨first, early⟩ unfinished, fun _ => ?_⟩
    show store.journal = outstanding store.journal store.catalog.moves ++ store.catalog.moves
    rw [show outstanding store.journal store.catalog.moves = _ from same]
    rfl

theorem Stored.cases (stored : Stored store) : store.pending = [] ∨ store.pending = store.journal := by
  by_cases unfinished : store.fresh = true ∧ store.version < schemaVersion
  · exact .inl (stored.importing unfinished.1 unfinished.2)
  · exact .inr (stored.committed unfinished)

end Commit

section Steps

variable {place : String → String} {store : Store Content} {moves : List (String × String)}

theorem outstanding_sub {pending moves' : List (String × String)} (grows : ∀ key ∈ keys moves, key ∈ keys moves')
    {move : String × String} (member : move ∈ outstanding pending moves') : move ∈ outstanding pending moves := by
  rw [outstanding_grow pending grows] at member
  exact (List.mem_filter.mp member).1

theorem mem_record {old new : String} {move : String × String} (member : move ∈ record moves old new) :
    (move.1 = old ∨ ∃ first ∈ moves, move.1 = first.1) ∧ (move.2 = new ∨ ∃ first ∈ moves, move.2 = first.2) := by
  unfold record setItem at member
  have redirected : ∀ move ∈ redirect old new moves,
      (∃ first ∈ moves, move.1 = first.1) ∧ (move.2 = new ∨ ∃ first ∈ moves, move.2 = first.2) := by
    intro move inside
    obtain ⟨first, here, rfl⟩ := List.mem_map.mp inside
    by_cases points : first.2 = old
    · rw [if_pos points]
      exact ⟨⟨first, here, rfl⟩, .inl rfl⟩
    · rw [if_neg points]
      exact ⟨⟨first, here, rfl⟩, .inr ⟨first, here, rfl⟩⟩
  split at member
  · obtain ⟨first, inside, rfl⟩ := List.mem_map.mp member
    by_cases here : first.1 = old
    · rw [if_pos here]
      exact ⟨.inl rfl, .inl rfl⟩
    · rw [if_neg here]
      exact ⟨.inr (redirected first inside).1, (redirected first inside).2⟩
  · rcases List.mem_append.mp member with inside | last
    · exact ⟨.inr (redirected move inside).1, (redirected move inside).2⟩
    · rw [List.mem_singleton.mp last]
      exact ⟨.inl rfl, .inl rfl⟩

theorem recordMoves_blankless {records : List (String × String)}
    (blankless : ∀ move ∈ moves, move.1 ≠ "" ∧ move.2 ≠ "")
    (targets : ∀ move ∈ records, move.1 ≠ move.2 → move.2 ≠ "") :
    ∀ move ∈ recordMoves moves records, move.1 ≠ "" ∧ move.2 ≠ "" := by
  induction records generalizing moves with
  | nil => exact blankless
  | cons first rest ih =>
    refine ih ?_ fun move later => targets move (List.mem_cons_of_mem _ later)
    show ∀ move ∈ recordIdentityMove moves first.1 first.2, _
    unfold recordIdentityMove
    by_cases skipped : first.1 = "" ∨ first.1 = first.2
    · rwa [if_pos skipped]
    · rw [if_neg skipped]
      rw [not_or] at skipped
      have target := targets first (by simp) skipped.2
      intro move member
      obtain ⟨source, goal⟩ := mem_record member
      constructor
      · rcases source with same | ⟨other, inside, same⟩
        · rw [same]
          exact skipped.1
        · rw [same]
          exact (blankless other inside).1
      · rcases goal with same | ⟨other, inside, same⟩
        · rw [same]
          exact target
        · rw [same]
          exact (blankless other inside).2

/-- The moves that a step derives from the rows fit what is recorded already. -/
def RekeysInOrder (store : Store Content) (derive : Identity Content → Option (Content × String)) : Prop :=
  InOrder store.catalog.moves (recordsOf (movers derive store.catalog.rows)) ∧
    ∀ move ∈ recordsOf (movers derive store.catalog.rows), move.1 ≠ move.2 →
      ∀ earlier ∈ outstanding store.pending store.catalog.moves, earlier.1 = move.1 → earlier.2 = move.1

theorem Routed.rekeyed (routed : Routed place store) (hashes : (store.catalog.rows.map Identity.hash).Nodup)
    {derive : Identity Content → Option (Content × String)} (orderly : RekeysInOrder store derive)
    {rows : List (Identity Content)} {version : Nat} (before : store.version < 13) (after : version < 13)
    (rekeyed : Rekeyed store.catalog.rows (recordsOf (movers derive store.catalog.rows)) rows) :
    Routed place { store with
      version := version
      catalog := ⟨rows, recordMoves store.catalog.moves (recordsOf (movers derive store.catalog.rows))⟩ } := by
  have settled : ∀ row ∈ rows, ∀ hash ∈ row.carries,
      Settled (recordMoves store.catalog.moves (recordsOf (movers derive store.catalog.rows)))
        (follow (outstanding store.pending
          (recordMoves store.catalog.moves (recordsOf (movers derive store.catalog.rows)))) (place hash))
        row.hash := by
    intro row member hash carried
    obtain ⟨old, inside, here, dest⟩ := rekeyed.traced row member hash carried
    rw [dest]
    exact settled_rekey orderly.2 orderly.1 (recordsOf_distinct hashes) (routed.settled before old inside hash here)
  refine ⟨keys_recordMoves_nodup routed.moveKeys _, routed.pendingKeys, ?_, ?_, fun _ => settled, ?_⟩
  · intro move member
    rcases List.mem_append.mp member with early | recorded
    · exact routed.blankless move (List.mem_append_left _
        (outstanding_sub (fun key member => keys_recordMoves.mpr (.inl member)) early))
    · refine recordMoves_blankless (fun move inside => routed.blankless move (List.mem_append_right _ inside))
        (fun move inside differ => orderly.1.target_ne inside differ) move recorded
  · exact fun late => absurd late (by show ¬ 16 ≤ version; omega)
  · intro _ row member hash carried
    show follow (_ ++ _) _ = _
    rw [follow_append]
    exact (settled row member hash carried).follow_eq

theorem Routed.stale (routed : Routed place store) {stale : List (String × String)} (early : store.version < 13)
    (distinct : (keys stale).Nodup) (agrees : StaleAgrees store.pending store.catalog.moves stale)
    (unborn : ∀ row ∈ store.catalog.rows, row.hash ∉ keys stale) :
    Routed place { store with catalog := { store.catalog with moves := update store.catalog.moves stale } } := by
  have added : update store.catalog.moves stale =
      store.catalog.moves ++ stale.filter fun move => move.1 ∉ keys store.catalog.moves :=
    update_agreeing routed.moveKeys distinct fun pair inside => (agrees pair inside).2.2.1
  have settled : ∀ row ∈ store.catalog.rows, ∀ hash ∈ row.carries,
      Settled (update store.catalog.moves stale)
        (follow (outstanding store.pending (update store.catalog.moves stale)) (place hash)) row.hash :=
    fun row member hash carried => settled_stale routed.pendingKeys routed.moveKeys distinct agrees
      (unborn row member) (routed.settled early row member hash carried)
  refine ⟨?_, routed.pendingKeys, ?_, ?_, fun _ => settled, ?_⟩
  · show (keys (update store.catalog.moves stale)).Nodup
    rw [added, keys_append, List.nodup_append]
    refine ⟨routed.moveKeys, (List.filter_sublist.map _).nodup distinct, ?_⟩
    rintro key old new here rfl
    obtain ⟨pair, inside, rfl⟩ := List.mem_map.mp here
    have fresh := (List.mem_filter.mp inside).2
    simp only [decide_eq_true_eq] at fresh
    exact fresh old
  · intro move member
    rcases List.mem_append.mp member with outside | recorded
    · refine routed.blankless move (List.mem_append_left _ (outstanding_sub (fun key member => ?_) outside))
      show key ∈ keys (update store.catalog.moves stale)
      rw [added, keys_append]
      exact List.mem_append_left _ member
    · rw [show ({ store.catalog with moves := update store.catalog.moves stale } : Catalog Content).moves =
        _ from added] at recorded
      rcases List.mem_append.mp recorded with old | new
      · exact routed.blankless move (List.mem_append_right _ old)
      · have pair := agrees move (List.mem_filter.mp new).1
        exact ⟨pair.1, pair.2.1⟩
  · exact fun late => absurd late (by show ¬ 16 ≤ store.version; omega)
  · intro _ row member hash carried
    show follow (_ ++ _) _ = _
    rw [follow_append]
    exact (settled row member hash carried).follow_eq

/-- Rows that go leave the routes of the others; dropping the moves onto them does too. -/
theorem Routed.prune (routed : Routed place store) (stored : Stored store)
    (hashes : (store.catalog.rows.map Identity.hash).Nodup) (drop : Identity Content → Bool) {version : Nat}
    (before : store.version < 13) (after : version < 13) :
    Routed place { prune drop store with version := version } := by
  have settled : ∀ row ∈ store.catalog.rows.filter fun row => !drop row, ∀ hash ∈ row.carries,
      Settled (store.catalog.moves.filter fun move => move.2 ∉ (store.catalog.rows.filter drop).map Identity.hash)
        (follow (outstanding store.pending (store.catalog.moves.filter fun move =>
          move.2 ∉ (store.catalog.rows.filter drop).map Identity.hash)) (place hash)) row.hash := by
    intro row member hash carried
    obtain ⟨inside, stays⟩ := List.mem_filter.mp member
    refine settled_prune stored.cases ?_ (routed.settled before row inside hash carried)
    intro gone
    obtain ⟨other, listed, same⟩ := List.mem_map.mp gone
    obtain ⟨present, dropped⟩ := List.mem_filter.mp listed
    rw [eq_of_nodup_map hashes present inside same] at dropped
    simp [dropped] at stays
  refine ⟨(List.filter_sublist.map _).nodup routed.moveKeys, routed.pendingKeys, ?_, ?_, fun _ => settled, ?_⟩
  · intro move member
    have inside : move ∈ store.pending ∨ move ∈ store.catalog.moves := by
      rcases List.mem_append.mp member with outside | kept
      · exact .inl (List.mem_filter.mp outside).1
      · exact .inr (List.mem_filter.mp kept).1
    rcases inside with pending | recorded
    · rcases stored.cases with none_stored | all
      · rw [none_stored] at pending
        cases pending
      · exact routed.blankless move (all ▸ pending)
    · exact routed.blankless move (List.mem_append_right _ recorded)
  · exact fun late => absurd late (by show ¬ 16 ≤ version; omega)
  · intro _ row member hash carried
    show follow (_ ++ _) _ = _
    rw [follow_append]
    exact (settled row member hash carried).follow_eq

/-- A step that leaves moves and journal alone and loses no row it needs. -/
theorem Routed.mono (routed : Routed place store) {next : Store Content} (pending : next.pending = store.pending)
    (moves : next.catalog.moves = store.catalog.moves) (rows : ∀ row ∈ next.catalog.rows, row ∈ store.catalog.rows)
    (later : store.version ≤ next.version) (early : next.version < 16) : Routed place next := by
  have journal : next.journal = store.journal := by
    unfold Store.journal
    rw [pending, moves]
  refine ⟨by rw [moves]; exact routed.moveKeys, by rw [pending]; exact routed.pendingKeys,
    by rw [journal]; exact routed.blankless, fun late => by omega, ?_, ?_⟩
  · intro before row member
    rw [pending, moves]
    exact routed.settled (by omega) row (rows row member)
  · intro _ row member
    rw [journal]
    exact routed.followed (.inr (by omega)) row (rows row member)

theorem rederive_fields (curation : Curation Content Rank) (derive : Identity Content → Option String)
    (store : Store Content) :
    (rederiveIdentityHashes curation derive store).catalog.moves =
        (if store.cacheExists then recordMoves (update store.pending store.catalog.moves)
          (recordsOf (movers (elsewhere derive) store.catalog.rows)) else []) ∧
      (rederiveIdentityHashes curation derive store).pending = if store.cacheExists then store.pending else [] := by
  refine ⟨?_, rfl⟩
  unfold rederiveIdentityHashes
  simp only [applyIdentityMoves_moves]

theorem outstanding_update {pending records : List (String × String)} :
    outstanding pending (recordMoves (outstanding pending moves ++ moves) records) = [] := by
  unfold outstanding
  rw [List.filter_eq_nil_iff]
  intro move inside
  have listed : move.1 ∈ keys (pending.filter (fun move => move.1 ∉ keys moves) ++ moves) := by
    rw [keys_append, List.mem_append]
    by_cases known : move.1 ∈ keys moves
    · exact .inr known
    · exact .inl (mem_keys_of_mem (List.mem_filter.mpr ⟨inside, by simpa using known⟩))
  simpa using keys_recordMoves.mpr (.inl listed)

theorem Routed.rederived (curation : Curation Content Rank) (routed : Routed place store) (stored : Stored store)
    (hashes : (store.catalog.rows.map Identity.hash).Nodup) (ids : (store.catalog.rows.map Identity.id).Nodup)
    {derive : Identity Content → Option String} {version : Nat} (late : 16 ≤ version)
    (inOrder : InOrder (update store.pending store.catalog.moves)
      (recordsOf (movers (elsewhere derive) store.catalog.rows))) :
    Routed place { rederiveIdentityHashes curation derive store with version := version } := by
  have rekeyed := applyIdentityMoves_rekeyed curation
    { store.catalog with moves := update store.pending store.catalog.moves } (elsewhere derive) hashes ids inOrder
  have joined := journal_nodup routed.pendingKeys routed.moveKeys
  obtain ⟨moves, pending⟩ := rederive_fields curation derive store
  rw [update_journal routed.pendingKeys routed.moveKeys stored.cases] at moves inOrder
  cases cache : store.cacheExists with
  | false =>
    rw [cache] at moves pending
    have journal : ({ rederiveIdentityHashes curation derive store with version := version } :
        Store Content).journal = [] := by
      unfold Store.journal
      simp only [moves, pending]
      rfl
    refine ⟨?_, ?_, ?_, fun _ => .inr moves, fun early => absurd early (Nat.not_lt.mpr (Nat.le_trans (by decide) late)),
      ?_⟩
    · show (keys (rederiveIdentityHashes curation derive store).catalog.moves).Nodup
      rw [moves]
      exact List.nodup_nil
    · show (keys (rederiveIdentityHashes curation derive store).pending).Nodup
      rw [pending]
      exact List.nodup_nil
    · rw [journal]
      simp
    · rintro (exists_cache | early)
      · have absent : store.cacheExists = true := exists_cache
        rw [cache] at absent
        cases absent
      · exact absurd early (Nat.not_lt.mpr late)
  | true =>
    rw [cache] at moves pending
    simp only [if_true] at moves pending
    have none_left : outstanding (rederiveIdentityHashes curation derive store).pending
        (rederiveIdentityHashes curation derive store).catalog.moves = [] := by
      rw [moves, pending]
      exact outstanding_update
    have journal : ({ rederiveIdentityHashes curation derive store with version := version } :
        Store Content).journal = recordMoves store.journal
          (recordsOf (movers (elsewhere derive) store.catalog.rows)) := by
      unfold Store.journal
      rw [none_left, moves]
      rfl
    refine ⟨?_, ?_, ?_, fun _ => .inl none_left,
      fun early => absurd early (Nat.not_lt.mpr (Nat.le_trans (by decide) late)), ?_⟩
    · show (keys (rederiveIdentityHashes curation derive store).catalog.moves).Nodup
      rw [moves]
      exact keys_recordMoves_nodup joined _
    · show (keys (rederiveIdentityHashes curation derive store).pending).Nodup
      rw [pending]
      exact routed.pendingKeys
    · rw [journal]
      exact recordMoves_blankless routed.blankless fun move inside differ => inOrder.target_ne inside differ
    · intro _ row member hash carried
      obtain ⟨old, inside, here, dest⟩ := rekeyed.traced row member hash carried
      rw [journal, dest, ← routed.followed (.inl cache) old inside hash here]
      exact follow_recordMoves (place hash) inOrder (recordsOf_distinct hashes)

/-- A process that begins anew finds its predecessor's moves in the journal. -/
theorem Routed.restarted (routed : Routed place store) (stored : store.pending = store.journal) :
    Routed place { store with catalog := { store.catalog with moves := [] } } := by
  have all : outstanding store.pending [] = store.pending := by
    unfold outstanding
    rw [List.filter_eq_self]
    simp [keys]
  have journal : ({ store with catalog := { store.catalog with moves := [] } } : Store Content).journal =
      store.journal := by
    show outstanding store.pending [] ++ [] = store.journal
    rw [all, List.append_nil, stored]
  refine ⟨List.nodup_nil, routed.pendingKeys, by rw [journal]; exact routed.blankless, fun _ => .inr rfl, ?_, ?_⟩
  · intro early row member hash carried
    left
    refine ⟨by simp [keys], ?_⟩
    show row.hash = follow (outstanding store.pending []) (place hash)
    rw [all, stored]
    exact (routed.followed (.inr (by show store.version < 16; exact Nat.lt_trans early (by decide)))
      row member hash carried).symm
  · rw [journal]
    exact routed.followed

end Steps

end Rdst.Library
