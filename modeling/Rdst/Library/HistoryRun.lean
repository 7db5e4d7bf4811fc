import Rdst.Library.History

namespace Rdst.Library

open Renaming Rdst.Observation

set_option linter.unusedSectionVars false

variable {Content Rank : Type} [LinearOrder Rank]

/-- What a migration needs of the library that it finds, so that no history goes astray in it. -/
def OrderlyMigration (curation : Curation Content Rank) (store : Store Content) : Migration Content → Prop
  | .pruneSystemOnlyEntries .. | .pruneSelfTraffic _ | .pruneSystemStatements _ => True
  | .canonicalizePlaceholderHashes derive => RekeysInOrder store (elsewhere derive)
  | .repairPlaceholderArtifacts derive => RekeysInOrder store derive
  | .repairV9Residue derive legacy =>
    RekeysInOrder store derive ∧
      StaleAgrees store.pending (recordMoves store.catalog.moves (recordsOf (movers derive store.catalog.rows)))
        (staleIdentityHashes legacy
          (applyIdentityMoves curation store.catalog (movers derive store.catalog.rows)).rows)
  -- The file still names a query by the hash that it had before the moves.
  | .importAnalysisToml results =>
    ∀ row ∈ store.catalog.rows, ∀ query ∈ results, follow store.journal query.1 = row.hash → query.1 = row.hash
  | .rederiveIdentityHashes _ derive =>
    InOrder (update store.pending store.catalog.moves)
        (recordsOf (movers (elsewhere derive) store.catalog.rows)) ∧
      (scanMoves (movers (elsewhere derive) store.catalog.rows)).Pairwise (fun first later => first.2 ≠ later.1) ∧
      Apart (scanMoves (movers (elsewhere derive) store.catalog.rows)) store.analyses

def Orderly (curation : Curation Content Rank) (store : Store Content) : Action Content → Prop
  | .migrate migration => store.version < migration.version → OrderlyMigration curation store migration
  -- The next process replays the journal onto rows that have moved already.
  | .rekeyHistory .uncleared => store.cacheExists = true →
      ∀ row ∈ store.catalog.rows, follow store.journal row.hash = row.hash
  | _ => True

/-- A library as some version of the program left it. An identity was known by the hashes that the journal
    of an interrupted upgrade leads to its own. -/
structure Store.Initial (store : Store Content) : Prop where
  hashes : (store.catalog.rows.map Identity.hash).Nodup
  ids : (store.catalog.rows.map Identity.id).Nodup
  no_moves : store.catalog.moves = []
  pendingKeys : (keys store.pending).Nodup
  blankless : ∀ move ∈ store.pending, move.1 ≠ "" ∧ move.2 ≠ ""
  importing : store.fresh = true → store.pending = []
  carried : ∀ row ∈ store.catalog.rows, ∀ hash ∈ row.carries, hash ≠ "" ∧ follow store.pending hash = row.hash
  early : store.version < 13 → store.analyses = []
  keyed : ∀ stored ∈ store.analyses, ∀ row ∈ store.catalog.rows, stored.origin ∈ row.carries →
    stored.queryHash = row.hash
  observed : store.history.Tracks id

theorem Store.Initial.sound {store : Store Content} (initial : store.Initial) :
    Sound store id store ∧ Stored store := by
  have all : outstanding store.pending store.catalog.moves = store.pending := by
    unfold outstanding
    rw [initial.no_moves, List.filter_eq_self]
    simp [keys]
  have journal : store.journal = store.pending := by
    unfold Store.journal
    rw [all, initial.no_moves, List.append_nil]
  refine ⟨⟨?_, ?_, ?_, ?_⟩, ⟨fun first _ => initial.importing first, fun _ => journal.symm⟩⟩
  · refine ⟨initial.hashes, initial.ids, ?_, ?_⟩
    · exact fun row member hash carried => ⟨row, member, carried⟩
    · exact fun row member hash carried => .inr ⟨row, member, carried⟩
  · refine ⟨by rw [initial.no_moves]; exact List.nodup_nil, initial.pendingKeys,
      by rw [journal]; exact initial.blankless, fun _ => .inr initial.no_moves, ?_, ?_⟩
    · intro _ row member hash carried
      rw [initial.no_moves]
      rw [initial.no_moves] at all
      left
      refine ⟨by simp [keys], ?_⟩
      rw [all]
      exact (initial.carried row member hash carried).2.symm
    · intro _ row member hash carried
      rw [journal]
      exact (initial.carried row member hash carried).2
  · exact ⟨initial.early, initial.keyed, fun stored member => ⟨stored, member, rfl, rfl, rfl⟩⟩
  · exact ⟨initial.observed, fun _ => rfl, fun _ named => named,
      ⟨fun _ _ held => held, fun _ _ held => held, fun _ _ held => held⟩⟩

section Migrate

variable {start store : Store Content} {place : String → String}

/-- The steps before the import of the analyses find none. -/
theorem Analysed.early_step (analysed : Analysed start.analyses store) {next : Store Content}
    (same : next.analyses = store.analyses) (before : store.version < 13) : Analysed start.analyses next := by
  have none_yet := analysed.early before
  refine ⟨fun _ => same.trans none_yet, ?_, ?_⟩
  · intro stored member
    rw [same, none_yet] at member
    cases member
  · rw [same]
    exact analysed.kept

theorem Observed.step (observed : Observed start.history place store) {next : Store Content}
    (same : next.history = store.history) (later : store.version ≤ next.version) :
    Observed start.history place next := by
  refine ⟨by rw [same]; exact observed.tracks, fun early => observed.untouched (Nat.lt_of_le_of_lt later early),
    observed.named, by rw [same]; exact observed.kept⟩

theorem elsewhere_ne {derive : Identity Content → Option String} {rows : List (Identity Content)}
    {mover : Mover Content} (member : mover ∈ movers (elsewhere derive) rows) : mover.row.hash ≠ mover.target := by
  obtain ⟨row, -, found⟩ := List.mem_filterMap.mp member
  obtain ⟨result, derived, rfl⟩ := Option.map_eq_some_iff.mp found
  obtain ⟨target, -, moved⟩ := Option.bind_eq_some_iff.mp derived
  by_cases same : target = row.hash
  · rw [if_pos same] at moved
    cases moved
  · rw [if_neg same] at moved
    cases moved
    exact fun equal => same equal.symm

theorem Sound.repaired (curation : Curation Content Rank) (sound : Sound start place store)
    {derive : Identity Content → Option (Content × String)} {version : Nat} (orderly : RekeysInOrder store derive)
    (before : store.version < version) (after : version < 13) :
    Sound start place { store with
      version := version
      catalog := applyIdentityMoves curation store.catalog (movers derive store.catalog.rows) } := by
  have rekeyed := applyIdentityMoves_rekeyed curation store.catalog derive sound.traced.hashes sound.traced.ids
    orderly.1
  have routed := sound.routed.rekeyed sound.traced.hashes orderly (Nat.lt_trans before after) after rekeyed
  rw [← applyIdentityMoves_moves curation] at routed
  exact ⟨sound.traced.rekeyed rekeyed, routed, sound.analysed.early_step rfl (Nat.lt_trans before after),
    sound.observed.step rfl (Nat.le_of_lt before)⟩

theorem Sound.canonicalized (curation : Curation Content Rank) (sound : Sound start place store)
    {derive : Identity Content → Option String} (orderly : RekeysInOrder store (elsewhere derive))
    (before : store.version < 8) :
    Sound start place { store with
      version := 8
      catalog := canonicalizePlaceholderHashes curation store.catalog
        (movers (elsewhere derive) store.catalog.rows) } := by
  have rekeyed := canonicalize_rekeyed curation store.catalog (elsewhere derive)
    (fun mover member => elsewhere_ne member) sound.traced.hashes sound.traced.ids orderly.1
  have routed := sound.routed.rekeyed sound.traced.hashes orderly (Nat.lt_trans before (by decide))
    (by decide : 8 < 13) rekeyed
  rw [← canonicalize_moves curation] at routed
  exact ⟨sound.traced.rekeyed rekeyed, routed, sound.analysed.early_step rfl (Nat.lt_trans before (by decide)),
    sound.observed.step rfl (Nat.le_of_lt before)⟩

theorem Sound.pruned (sound : Sound start place store) (stored : Stored store)
    (drop : Identity Content → Bool) {version : Nat} (before : store.version < version) (after : version < 13) :
    Sound start place { prune drop store with version := version } :=
  ⟨sound.traced.prune drop,
    sound.routed.prune stored sound.traced.hashes drop (Nat.lt_trans before after) after,
    sound.analysed.early_step rfl (Nat.lt_trans before after), sound.observed.step rfl (Nat.le_of_lt before)⟩

theorem Sound.imported (sound : Sound start place store) {results : List (String × List AnalysisBody)}
    (before : store.version < 13)
    (orderly : ∀ row ∈ store.catalog.rows, ∀ query ∈ results,
      follow store.journal query.1 = row.hash → query.1 = row.hash) :
    Sound start place { store with version := 13, analyses := importAnalysisToml results store.analyses } := by
  obtain ⟨stays, origin⟩ := importAnalysisToml_spec results store.analyses
  refine ⟨sound.traced, sound.routed.mono rfl rfl (fun _ member => member) (Nat.le_of_lt before)
      (show 13 < 16 by decide), ?_,
    sound.observed.step rfl (Nat.le_of_lt before)⟩
  refine ⟨fun early => absurd early (Nat.lt_irrefl 13), ?_, ?_⟩
  · intro stored member row inside carried
    rcases origin stored member with old | ⟨own, query, listed, same⟩
    · exact sound.analysed.keyed stored old row inside carried
    · have placed := sound.observed.untouched (Nat.lt_trans before (by decide))
      have leads := sound.routed.followed (.inr (Nat.lt_trans before (by decide))) row inside stored.origin carried
      rw [placed, ← same] at leads
      rw [own, ← same]
      exact orderly row inside query listed leads
  · intro stored member
    obtain ⟨later, inside, same⟩ := sound.analysed.kept stored member
    exact ⟨later, stays later inside, same⟩

theorem scanMoves_distinct {derive : Identity Content → Option (Content × String)} {rows : List (Identity Content)}
    (hashes : (rows.map Identity.hash).Nodup) : (keys (scanMoves (movers derive rows))).Nodup := by
  have part := ((movers_sublist derive rows).map Identity.hash).nodup hashes
  unfold keys scanMoves
  rw [List.map_map] at part ⊢
  exact part

theorem Sound.rederived (curation : Curation Content Rank) (sound : Sound start place store)
    (stored : Stored store) {derive : Identity Content → Option String} {version : Nat} (late : 16 ≤ version)
    (before : store.version < version)
    (inOrder : InOrder (update store.pending store.catalog.moves)
      (recordsOf (movers (elsewhere derive) store.catalog.rows)))
    (ahead : (scanMoves (movers (elsewhere derive) store.catalog.rows)).Pairwise
      (fun first later => first.2 ≠ later.1))
    (apart : Apart (scanMoves (movers (elsewhere derive) store.catalog.rows)) store.analyses) :
    Sound start place { rederiveIdentityHashes curation derive store with version := version } := by
  have rekeyed := applyIdentityMoves_rekeyed curation
    { store.catalog with moves := update store.pending store.catalog.moves } (elsewhere derive)
    sound.traced.hashes sound.traced.ids inOrder
  have moved : renameAll (scanMoves (movers (elsewhere derive) store.catalog.rows)) store.analyses =
      store.analyses.map fun stored => { stored with
        queryHash := follow (scanMoves (movers (elsewhere derive) store.catalog.rows)) stored.queryHash } := by
    refine renameAll_eq ?_ apart
    intro move member
    obtain ⟨mover, inside, rfl⟩ := List.mem_map.mp member
    exact elsewhere_ne inside
  refine ⟨sound.traced.rekeyed rekeyed,
    sound.routed.rederived curation stored sound.traced.hashes sound.traced.ids late inOrder, ?_,
    sound.observed.step rfl (Nat.le_of_lt before)⟩
  refine ⟨fun early => absurd early (Nat.not_lt.mpr (Nat.le_trans (by decide) late)), ?_, ?_⟩
  · intro later member row inside carried
    have listed : later ∈ renameAll (scanMoves (movers (elsewhere derive) store.catalog.rows)) store.analyses := member
    rw [moved] at listed
    obtain ⟨first, present, rfl⟩ := List.mem_map.mp listed
    obtain ⟨old, known, here, dest⟩ := rekeyed.traced row inside first.origin carried
    have keyed := sound.analysed.keyed first present old known here
    show follow _ first.queryHash = row.hash
    rw [follow_eq_destination ahead, destination_scanMoves (scanMoves_distinct sound.traced.hashes)
      (recordsOf_distinct sound.traced.hashes), keyed, dest]
  · intro analysis member
    obtain ⟨later, inside, same⟩ := sound.analysed.kept analysis member
    refine ⟨{ later with
      queryHash := follow (scanMoves (movers (elsewhere derive) store.catalog.rows)) later.queryHash }, ?_, same⟩
    show _ ∈ renameAll (scanMoves (movers (elsewhere derive) store.catalog.rows)) store.analyses
    rw [moved]
    exact List.mem_map_of_mem inside

theorem Sound.residue (curation : Curation Content Rank) (sound : Sound start place store)
    {derive : Identity Content → Option (Content × String)} {legacy : Identity Content → List String}
    (orderly : RekeysInOrder store derive)
    (agrees : StaleAgrees store.pending
      (recordMoves store.catalog.moves (recordsOf (movers derive store.catalog.rows)))
      (staleIdentityHashes legacy
        (applyIdentityMoves curation store.catalog (movers derive store.catalog.rows)).rows))
    (before : store.version < 10) :
    Sound start place { runMigration curation store (.repairV9Residue derive legacy) with version := 10 } := by
  have repaired := sound.repaired curation orderly before (by decide)
  have distinct := staleIdentityHashes_distinct legacy
    (applyIdentityMoves curation store.catalog (movers derive store.catalog.rows)).rows
  rw [← applyIdentityMoves_moves curation] at agrees
  have routed := repaired.routed.stale (show 10 < 13 by decide) distinct agrees ?_
  · exact ⟨repaired.traced, routed, repaired.analysed.early_step rfl (show 10 < 13 by decide),
      repaired.observed.step rfl (Nat.le_refl _)⟩
  · intro row inside listed
    obtain ⟨pair, member, same⟩ := List.mem_map.mp listed
    exact staleIdentityHashes_spec legacy _ member (same ▸ List.mem_map_of_mem inside)

/-- One migration of an orderly run keeps every history on its identity. -/
theorem migrate_sound (curation : Curation Content Rank) (migration : Migration Content)
    (sound : Sound start place store) (stored : Stored store) (before : store.version < migration.version)
    (orderly : OrderlyMigration curation store migration) :
    Sound start place { runMigration curation store migration with version := migration.version } := by
  cases migration with
  | pruneSystemOnlyEntries pass drop =>
    have small : (pass : Nat) + 2 < 13 := by omega
    exact ⟨sound.traced.prune drop,
      sound.routed.mono rfl rfl (fun row member => (List.mem_filter.mp member).1) (Nat.le_of_lt before)
        (Nat.lt_trans small (by decide)),
      sound.analysed.early_step rfl (Nat.lt_trans before small), sound.observed.step rfl (Nat.le_of_lt before)⟩
  | canonicalizePlaceholderHashes derive => exact sound.canonicalized curation orderly before
  | repairPlaceholderArtifacts derive => exact sound.repaired curation orderly before (show 9 < 13 by decide)
  | repairV9Residue derive legacy => exact sound.residue curation orderly.1 orderly.2 before
  | pruneSelfTraffic drop => exact sound.pruned stored drop before (show 11 < 13 by decide)
  | pruneSystemStatements drop => exact sound.pruned stored drop before (show 12 < 13 by decide)
  | importAnalysisToml results => exact sound.imported before orderly
  | rederiveIdentityHashes again derive =>
    have late : 16 ≤ if again then 18 else 16 := by cases again <;> decide
    exact sound.rederived curation stored late before orderly.1 orderly.2.1 orderly.2.2

theorem runMigration_fields (curation : Curation Content Rank) (store : Store Content)
    (migration : Migration Content) : (runMigration curation store migration).fresh = store.fresh ∧
      (store.pending = [] → (runMigration curation store migration).pending = []) := by
  cases migration with
  | rederiveIdentityHashes again derive =>
    refine ⟨rfl, fun none_stored => ?_⟩
    rw [runMigration, (rederive_fields curation derive store).2, none_stored]
    split <;> rfl
  | _ => exact ⟨rfl, fun none_stored => none_stored⟩

end Migrate

section Rekey

variable {start store : Store Content} {place : String → String}

theorem Sound.restarted (sound : Sound start place store) (stored : store.pending = store.journal) :
    Sound start place { store with catalog := { store.catalog with moves := [] } } :=
  ⟨sound.traced, sound.routed.restarted stored, ⟨sound.analysed.early, sound.analysed.keyed, sound.analysed.kept⟩,
    ⟨sound.observed.tracks, sound.observed.untouched, sound.observed.named, sound.observed.kept⟩⟩

theorem restarted_journal (stored : store.pending = store.journal) :
    ({ store with catalog := { store.catalog with moves := [] } } : Store Content).journal = store.journal := by
  have all : outstanding store.pending [] = store.pending := by
    unfold outstanding
    rw [List.filter_eq_self]
    simp [keys]
  show outstanding store.pending [] ++ [] = store.journal
  rw [all, List.append_nil, stored]

/-- The observations go where the journal leads from where they are. -/
theorem Observed.rekeyed (observed : Observed start.history place store) {moves : List (String × String)}
    (named : ∀ move ∈ moves, move.2 ≠ "") {next : Store Content} (late : schemaVersion ≤ next.version)
    (history : next.history = (rekeyIdentities store.history moves).1) :
    Observed start.history (fun hash => follow (effectivePairs moves) (place hash)) next := by
  obtain ⟨tracks, keeps⟩ := rekeyIdentities_follows observed.tracks moves
  refine ⟨by rw [history]; exact tracks, fun early => absurd early (Nat.not_lt.mpr late), ?_,
    by rw [history]; exact observed.kept.trans keeps⟩
  intro hash known
  exact follow_ne (fun move member => named move (List.mem_filter.mp member).1) (observed.named hash known)

theorem Sound.rekeyHistory (sound : Sound start place store) (stored : Stored store)
    (known : ∀ old ∈ start.catalog.rows, ∀ hash ∈ old.carries, hash ≠ "")
    (current : store.version = schemaVersion) (ends : CacheWrite)
    (orderly : ends = .uncleared → store.cacheExists = true →
      ∀ row ∈ store.catalog.rows, follow store.journal row.hash = row.hash) :
    ∃ place', Sound start place' (rekeyHistory store ends) ∧ Stored (rekeyHistory store ends) ∧
      (ends = .done → store.cacheExists = true → (rekeyHistory store ends).journal = []) := by
  have finished : ¬ (store.fresh = true ∧ store.version < schemaVersion) := fun both => by
    rw [current] at both
    exact absurd both.2 (Nat.lt_irrefl _)
  have journal := stored.committed finished
  have fresh := restarted_journal journal
  have idle := sound.restarted journal
  have idle_stored : Stored { store with catalog := { store.catalog with moves := [] } } :=
    ⟨stored.importing, fun _ => journal.trans fresh.symm⟩
  have merged : update store.catalog.moves store.pending = store.journal :=
    update_memory sound.routed.pendingKeys sound.routed.moveKeys journal
      (sound.routed.single (by rw [current]; decide))
  have named : ∀ move ∈ store.journal, move.2 ≠ "" := fun move member => (sound.routed.blankless move member).2
  unfold Library.rekeyHistory
  rw [merged]
  by_cases cache : store.cacheExists = true
  · rw [if_pos cache]
    -- Where the cache has been rewritten, every observation stands at the hash of its identity.
    have lands : ∀ row ∈ store.catalog.rows, ∀ hash ∈ row.carries,
        follow (effectivePairs store.journal) (place hash) = row.hash := by
      intro row member hash carried
      obtain ⟨old, inside, here⟩ := sound.traced.origins row member hash carried
      rw [follow_effectivePairs named (sound.observed.named hash (known old inside hash here))]
      exact sound.routed.followed (.inl cache) row member hash carried
    have late : ¬ store.version < 13 := by
      rw [current]
      decide
    have analysed : Analysed start.analyses store :=
      ⟨sound.analysed.early, sound.analysed.keyed, sound.analysed.kept⟩
    cases ends with
    | failed => exact ⟨place, idle, idle_stored, fun never => nomatch never⟩
    | uncleared =>
      refine ⟨_, ⟨sound.traced, ?_, ⟨analysed.early, analysed.keyed, analysed.kept⟩,
        sound.observed.rekeyed named (Nat.le_of_eq current.symm) rfl⟩,
        ⟨idle_stored.importing, idle_stored.committed⟩, fun never => nomatch never⟩
      refine ⟨idle.routed.moveKeys, idle.routed.pendingKeys, idle.routed.blankless, idle.routed.single,
        fun early => absurd early late, fun _ row member hash carried => ?_⟩
      show follow ({ store with catalog := { store.catalog with moves := [] } } : Store Content).journal _ = _
      rw [fresh, lands row member hash carried]
      exact orderly rfl cache row member
    | done =>
      have cleared : store.pending.filter (fun move => move ∉ store.journal) = [] := by
        rw [List.filter_eq_nil_iff]
        intro move inside
        rw [journal] at inside
        simpa using inside
      rw [cleared]
      refine ⟨_, ⟨sound.traced, ?_, ⟨analysed.early, analysed.keyed, analysed.kept⟩,
        sound.observed.rekeyed named (Nat.le_of_eq current.symm) rfl⟩,
        ⟨fun _ _ => rfl, fun _ => rfl⟩, fun _ _ => rfl⟩
      refine ⟨List.nodup_nil, List.nodup_nil, nofun, fun _ => .inr rfl,
        fun early => absurd early late, fun _ row member hash carried => ?_⟩
      exact lands row member hash carried
  · rw [if_neg cache]
    exact ⟨place, idle, idle_stored, fun _ exists_cache => absurd exists_cache cache⟩

theorem step_sound (curation : Curation Content Rank) (initial : start.Initial) (action : Action Content)
    (sound : ∃ place, Sound start place store ∧ Stored store) (orderly : Orderly curation store action) :
    ∃ place, Sound start place (step curation store action) ∧ Stored (step curation store action) := by
  obtain ⟨place, sound, stored⟩ := sound
  cases action with
  | migrate migration =>
    by_cases before : store.version < migration.version
    · have after := migrate_sound curation migration sound stored before (orderly before)
      obtain ⟨fresh, pending⟩ := runMigration_fields curation store migration
      simp only [step, if_pos before]
      refine ⟨place, after.journaled, stored_journaled fun first early => pending (stored.importing ?_ ?_)⟩
      · rw [← fresh]
        exact first
      · exact Nat.lt_trans before early
    · simp only [step, if_neg before]
      exact ⟨place, sound, stored⟩
  | restart =>
    by_cases unfinished : store.fresh = true ∧ store.version < schemaVersion
    · simp only [step, if_pos unfinished]
      exact ⟨place, sound, stored⟩
    · simp only [step, if_neg unfinished]
      have journal := stored.committed unfinished
      exact ⟨place, sound.restarted journal,
        ⟨fun first early => absurd ⟨first, early⟩ unfinished, fun _ => journal.trans (restarted_journal journal).symm⟩⟩
  | rekeyHistory ends =>
    by_cases current : store.version = schemaVersion
    · simp only [step, if_pos current]
      have known : ∀ old ∈ start.catalog.rows, ∀ hash ∈ old.carries, hash ≠ "" :=
        fun old member hash carried => (initial.carried old member hash carried).1
      obtain ⟨place', after, kept, -⟩ := sound.rekeyHistory stored known current ends (by
        rintro rfl cache
        exact orderly cache)
      exact ⟨place', after, kept⟩
    · simp only [step, if_neg current]
      exact ⟨place, sound, stored⟩

end Rekey

/-- Each analysis is keyed by the hash of its identity, or of the survivor that this one merged into. -/
def Store.AnalysesFollow (store : Store Content) : Prop :=
  ∀ row ∈ store.catalog.rows, ∀ stored ∈ store.analyses, stored.origin ∈ row.carries → stored.queryHash = row.hash

/-- The same for a table of observations. -/
def TableFollows {Slot Body : Type} (rows : List (Identity Content)) (table : List (Keyed Slot Body)) : Prop :=
  ∀ row ∈ rows, ∀ kept ∈ table, ∀ source ∈ kept.sources, source ∈ row.carries → kept.hash = row.hash

def Store.ObservationsFollow (store : Store Content) : Prop :=
  TableFollows store.catalog.rows store.history.aliases ∧ TableFollows store.catalog.rows store.history.windows ∧
    TableFollows store.catalog.rows store.history.executions

/-- Nothing stored at the start is lost, and every identity of the start has a row or was pruned. -/
def NothingLost (start store : Store Content) : Prop :=
  start.history.Keeps store.history ∧
    (∀ stored ∈ start.analyses, ∃ later ∈ store.analyses,
      later.origin = stored.origin ∧ later.analysisId = stored.analysisId ∧ later.payload = stored.payload) ∧
    ∀ old ∈ start.catalog.rows, ∀ hash ∈ old.carries,
      hash ∈ store.gone ∨ ∃ row ∈ store.catalog.rows, hash ∈ row.carries

def transition (curation : Curation Content Rank) (store : Store Content) (action : Action Content) :
    Store Content × List Unit := (step curation store action, [])

theorem run_sound (curation : Curation Content Rank) {start : Store Content} (initial : start.Initial)
    (actions : List (Action Content))
    (orderly : Machine.EveryStep (transition curation) (Orderly curation) start actions) :
    ∃ place, Sound start place (Machine.exec (transition curation) start actions).1 ∧
      Stored (Machine.exec (transition curation) start actions).1 := by
  refine Machine.exec_invariant (fun store _ => ∃ place, Sound start place store ∧ Stored store)
    (Orderly curation) ?_ start actions orderly ⟨id, initial.sound⟩
  exact fun store _ action meets sound => step_sound curation initial action sound meets

theorem Sound.nothing_lost {start store : Store Content} {place : String → String}
    (sound : Sound start place store) : NothingLost start store :=
  ⟨sound.observed.kept, sound.analysed.kept, sound.traced.covered⟩

theorem Sound.table_follows {start store : Store Content} {place : String → String}
    (sound : Sound start place store) (journal : store.journal = []) (cache : store.cacheExists = true)
    {Slot Body : Type} {table : List (Keyed Slot Body)} (tracks : Tracks place table) :
    TableFollows store.catalog.rows table := by
  intro row member kept inside source listed carried
  have leads := sound.routed.followed (.inl cache) row member source carried
  rw [journal] at leads
  exact (tracks kept inside source listed).trans leads

/-- In an orderly run of migrations, crashes and replays, every stored analysis follows its own query, and
    so does every observation once cache.db has been re-keyed. -/
theorem history_follows_identity (curation : Curation Content Rank) (start : Store Content)
    (initial : start.Initial) (actions : List (Action Content))
    (orderly : Machine.EveryStep (transition curation) (Orderly curation) start actions) :
    let final := (Machine.exec (transition curation) start actions).1
    final.AnalysesFollow ∧ NothingLost start final ∧
      (final.version = schemaVersion → final.cacheExists = true →
        (rekeyHistory final .done).ObservationsFollow ∧ NothingLost start (rekeyHistory final .done)) := by
  obtain ⟨place, sound, stored⟩ := run_sound curation initial actions orderly
  refine ⟨fun row member analysis inside carried => sound.analysed.keyed analysis inside row member carried,
    sound.nothing_lost, ?_⟩
  intro current cache
  have known : ∀ old ∈ start.catalog.rows, ∀ hash ∈ old.carries, hash ≠ "" :=
    fun old member hash carried => (initial.carried old member hash carried).1
  obtain ⟨place', after, -, cleared⟩ := sound.rekeyHistory stored known current .done nofun
  have journal := cleared rfl cache
  have still : (rekeyHistory (Machine.exec (transition curation) start actions).1 .done).cacheExists = true := by
    unfold rekeyHistory
    rw [if_pos cache]
    exact cache
  have tracks := after.observed.tracks
  exact ⟨⟨after.table_follows journal still tracks.1, after.table_follows journal still tracks.2.1,
    after.table_follows journal still tracks.2.2⟩, after.nothing_lost⟩

section Sample

def sampleCuration : Curation Unit Nat := ⟨fun _ => 0, fun content _ => content, id⟩

/-- A library of schema 7 with one query, under the hash `a`. -/
def sampleStore : Store Unit where
  version := 7
  fresh := false
  cacheExists := true
  catalog := ⟨[⟨1, "a", (), ["a"]⟩], []⟩
  pending := []
  analyses := []
  history := ⟨[⟨("prod", "key", "epoch"), "a", (), ["a"]⟩], [], []⟩
  gone := []

/-- The v8 migration re-keys the query, v13 imports an analysis from the file, v18 re-keys it again. -/
def sampleRun (keyInFile : String) : List (Action Unit) :=
  [.migrate (.canonicalizePlaceholderHashes fun _ => some "b"),
    .migrate (.importAnalysisToml [(keyInFile, [⟨"run", "2025-01-01", "prod", ""⟩])]),
    .restart,
    .migrate (.rederiveIdentityHashes true fun _ => some "c")]

theorem sampleStore_initial : sampleStore.Initial := by
  refine ⟨by decide, by decide, rfl, by decide, nofun, nofun, ?_, fun _ => rfl, nofun, ?_, nofun, nofun⟩
  · intro row member hash carried
    cases List.mem_singleton.mp member
    cases List.mem_singleton.mp carried
    decide
  · intro kept member source listed
    cases List.mem_singleton.mp member
    cases List.mem_singleton.mp listed
    rfl

theorem history_follows_identity_sample :
    let final := (Machine.exec (transition sampleCuration) sampleStore (sampleRun "b")).1
    final.AnalysesFollow ∧ NothingLost sampleStore final ∧
      (final.version = schemaVersion → final.cacheExists = true →
        (rekeyHistory final .done).ObservationsFollow ∧ NothingLost sampleStore (rekeyHistory final .done)) := by
  refine history_follows_identity sampleCuration sampleStore sampleStore_initial (sampleRun "b") ⟨?_, ?_, ?_, ?_, ?_⟩
  · exact fun _ => ⟨by decide, by decide⟩
  · intro _ row member query listed leads
    cases List.mem_singleton.mp listed
    have stays : follow (step sampleCuration sampleStore
        (.migrate (.canonicalizePlaceholderHashes fun _ => some "b"))).journal "b" = "b" := by decide
    exact stays.symm.trans leads
  · exact True.intro
  · exact fun _ => ⟨by decide, by decide, by unfold Apart; decide⟩
  · exact True.intro

/-- The file names the query by the hash that v8 took from it, and the import does not ask where it went. -/
theorem imported_under_old_hash :
    sampleStore.Initial ∧
      ¬ (Machine.exec (transition sampleCuration) sampleStore (sampleRun "a")).1.AnalysesFollow := by
  refine ⟨sampleStore_initial, fun follows => ?_⟩
  have keyed := follows ⟨1, "c", (), ["a"]⟩ (List.mem_singleton.mpr rfl)
    ⟨"a", "run", "2025-01-01", "prod", "", "a"⟩ (by decide) (by decide)
  exact absurd keyed (by decide)

end Sample

end Rdst.Library
