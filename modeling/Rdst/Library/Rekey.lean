import Rdst.Library.Identity

namespace Rdst.Library

open Renaming

set_option linter.unusedSectionVars false

variable {Content Rank : Type} [LinearOrder Rank]

/-- Every identity stands where the recorded moves take it, and none is lost. -/
structure Rekeyed (rows : List (Identity Content)) (records : List (String × String))
    (next : List (Identity Content)) : Prop where
  traced : ∀ row ∈ next, ∀ h ∈ row.carries,
    ∃ old ∈ rows, h ∈ old.carries ∧ row.hash = destination records old.hash
  kept : ∀ old ∈ rows, ∀ h ∈ old.carries, ∃ row ∈ next, h ∈ row.carries
  hashes : (next.map Identity.hash).Nodup
  ids : (next.map Identity.id).Nodup

/-- The rows while some groups are still to be settled; `inPlace` says whether their movers are still
    among the rows. -/
structure Progress (rows : List (Identity Content)) (records : List (String × String)) (inPlace : Prop)
    (current : List (Identity Content)) (groups : List (String × List (Mover Content))) : Prop where
  traced : ∀ row ∈ current,
    (∀ h ∈ row.carries, ∃ old ∈ rows, h ∈ old.carries ∧ row.hash = destination records old.hash) ∨
      inPlace ∧ ∃ group ∈ groups, ∃ mover ∈ group.2, mover.row = row
  kept : ∀ old ∈ rows, ∀ h ∈ old.carries,
    (∃ row ∈ current, h ∈ row.carries) ∨ ∃ group ∈ groups, ∃ mover ∈ group.2, mover.row = old
  present : inPlace → ∀ group ∈ groups, ∀ mover ∈ group.2, mover.row ∈ current
  hashes : (current.map Identity.hash).Nodup
  ids : (current.map Identity.id).Nodup

/-- What the groups still to be settled must be. -/
structure Pending (rows : List (Identity Content)) (records : List (String × String)) (inPlace : Prop)
    (groups : List (String × List (Mover Content))) : Prop where
  movers : ∀ group ∈ groups, group.2 ≠ [] ∧
    ∀ mover ∈ group.2, mover.row ∈ rows ∧ destination records mover.row.hash = group.1
  elsewhere : inPlace → ∀ group ∈ groups, ∀ mover ∈ group.2, mover.row.hash ≠ group.1
  ahead : inPlace → groups.Pairwise fun first later =>
    ∀ mover ∈ later.2, mover.row.hash ≠ first.1 ∧ ∀ earlier ∈ first.2, mover.row.id ≠ earlier.row.id

theorem Progress.group {rows current next : List (Identity Content)} {records : List (String × String)}
    {inPlace : Prop} {group : String × List (Mover Content)} {groups : List (String × List (Mover Content))}
    {removed : List Nat} (progress : Progress rows records inPlace current (group :: groups))
    (pending : Pending rows records inPlace (group :: groups))
    (taken : ∀ id ∈ removed, inPlace ∧ ∃ mover ∈ group.2, mover.row.id = id)
    (all : inPlace → ∀ mover ∈ group.2, mover.row.id ∈ removed)
    (regroup : Regroup current group.1 (group.2.map Mover.row) removed next) :
    Progress rows records inPlace next groups := by
  have members := (pending.movers group (by simp)).2
  have none_stands : ∀ row ∈ current, row.hash = group.1 →
      ∀ h ∈ row.carries, ∃ old ∈ rows, h ∈ old.carries ∧ row.hash = destination records old.hash := by
    intro row inside at_hash
    refine (progress.traced row inside).resolve_right ?_
    rintro ⟨in_place, other, listed, mover, here, rfl⟩
    rcases List.mem_cons.mp listed with rfl | later
    · exact pending.elsewhere in_place other (by simp) mover here at_hash
    · exact ((List.pairwise_cons.mp (pending.ahead in_place)).1 other later mover here).1 at_hash
  refine ⟨?_, ?_, ?_, regroup.hashes, regroup.ids⟩
  · intro row member
    rcases regroup.traced row member with ⟨at_hash, carried⟩ | ⟨inside, other, untaken⟩
    · left
      intro h here
      rcases carried h here with ⟨moved, listed, carries⟩ | ⟨old, inside, old_hash, carries⟩
      · obtain ⟨mover, in_group, rfl⟩ := List.mem_map.mp listed
        exact ⟨mover.row, (members mover in_group).1, carries,
          at_hash.trans (members mover in_group).2.symm⟩
      · obtain ⟨origin, known, same, dest⟩ := none_stands old inside old_hash h carries
        exact ⟨origin, known, same, at_hash.trans (old_hash.symm.trans dest)⟩
    · rcases progress.traced row inside with traced | ⟨in_place, group', listed, mover, here, same⟩
      · exact .inl traced
      · rcases List.mem_cons.mp listed with rfl | later
        · exact absurd (same ▸ all in_place mover here) untaken
        · exact .inr ⟨in_place, group', later, mover, here, same⟩
  · intro old known h carries
    rcases progress.kept old known h carries with ⟨row, inside, here⟩ | ⟨group', listed, mover, here, same⟩
    · left
      by_cases at_hash : row.hash = group.1
      · exact regroup.absorbed row inside at_hash h here
      by_cases out : row.id ∈ removed
      · obtain ⟨in_place, mover, in_group, same⟩ := taken _ out
        have present := progress.present in_place group (by simp) mover in_group
        have equal := eq_of_nodup_map progress.ids present inside same
        exact regroup.joined mover.row (List.mem_map_of_mem in_group) h (equal ▸ here)
      · exact ⟨row, regroup.stayed row inside at_hash out, here⟩
    · rcases List.mem_cons.mp listed with rfl | later
      · exact .inl (regroup.joined mover.row (List.mem_map_of_mem here) h (same ▸ carries))
      · exact .inr ⟨group', later, mover, here, same⟩
  · intro in_place group' later mover here
    have apart := (List.pairwise_cons.mp (pending.ahead in_place)).1 group' later mover here
    refine regroup.stayed _ (progress.present in_place group' (List.mem_cons_of_mem _ later) mover here)
      apart.1 ?_
    intro out
    obtain ⟨-, other, in_group, same⟩ := taken _ out
    exact apart.2 other in_group same.symm

theorem Pending.tail {rows : List (Identity Content)} {records : List (String × String)} {inPlace : Prop}
    {group : String × List (Mover Content)} {groups : List (String × List (Mover Content))}
    (pending : Pending rows records inPlace (group :: groups)) : Pending rows records inPlace groups :=
  ⟨fun other listed => pending.movers other (List.mem_cons_of_mem _ listed),
    fun in_place other listed => pending.elsewhere in_place other (List.mem_cons_of_mem _ listed),
    fun in_place => (List.pairwise_cons.mp (pending.ahead in_place)).2⟩

theorem applied_rekeyed (curation : Curation Content Rank) {rows : List (Identity Content)}
    {records : List (String × String)} (groups : List (String × List (Mover Content)))
    (catalog : Catalog Content) (progress : Progress rows records False catalog.rows groups)
    (pending : Pending rows records False groups) :
    Rekeyed rows records (groups.foldl (settleGroup curation) catalog).rows := by
  induction groups generalizing catalog with
  | nil =>
    refine ⟨fun row member => (progress.traced row member).resolve_right (fun both => both.1), ?_,
      progress.hashes, progress.ids⟩
    intro old known h carries
    exact (progress.kept old known h carries).resolve_right (by simp)
  | cons group rest ih =>
    have regroup := settleGroup_regroup curation catalog group progress.hashes progress.ids
      (pending.movers group (by simp)).1
    exact ih _ (progress.group pending (by simp) False.elim regroup) pending.tail

theorem canonicalized_rekeyed (curation : Curation Content Rank) {rows : List (Identity Content)}
    {records : List (String × String)} (groups : List (String × List (Mover Content)))
    (catalog : Catalog Content) (progress : Progress rows records True catalog.rows groups)
    (pending : Pending rows records True groups) :
    Rekeyed rows records (groups.foldl (canonicalizeGroup curation) catalog).rows := by
  induction groups generalizing catalog with
  | nil =>
    refine ⟨fun row member => (progress.traced row member).resolve_right ?_, ?_, progress.hashes,
      progress.ids⟩
    · rintro ⟨-, group, listed, -⟩
      cases listed
    · intro old known h carries
      exact (progress.kept old known h carries).resolve_right (by simp)
  | cons group rest ih =>
    have regroup := canonicalizeGroup_regroup curation catalog group progress.hashes progress.ids
      (pending.movers group (by simp)).1 (progress.present trivial group (by simp))
    refine ih _ (progress.group pending ?_ ?_ regroup) pending.tail
    · intro id removed
      obtain ⟨mover, listed, same⟩ := List.mem_map.mp removed
      exact ⟨trivial, mover, listed, same⟩
    · exact fun _ mover listed => List.mem_map_of_mem listed

section Movers

variable {derive : Identity Content → Option (Content × String)} {rows : List (Identity Content)}

theorem movers_row {mover : Mover Content} (member : mover ∈ movers derive rows) : mover.row ∈ rows := by
  obtain ⟨row, inside, found⟩ := List.mem_filterMap.mp member
  obtain ⟨result, -, rfl⟩ := Option.map_eq_some_iff.mp found
  exact inside

theorem movers_sublist (derive : Identity Content → Option (Content × String)) (rows : List (Identity Content)) :
    ((movers derive rows).map Mover.row).Sublist rows := by
  induction rows with
  | nil => exact .slnil
  | cons row rest ih =>
    unfold movers at ih ⊢
    cases found : derive row with
    | none =>
      rw [List.filterMap_cons_none (by simp [found])]
      exact ih.cons row
    | some result =>
      rw [List.filterMap_cons_some (by simp [found]; rfl)]
      exact ih.cons_cons row

theorem recordsOf_distinct (hashes : (rows.map Identity.hash).Nodup) :
    (keys (recordsOf (movers derive rows))).Nodup := by
  refine (recordsOf_keys _).nodup_iff.mpr ?_
  have part := (movers_sublist derive rows).map Identity.hash
  rw [List.map_map] at part
  exact part.nodup hashes

/-- The groups that a scan of the rows makes are fit to be settled. -/
theorem pending_groups (hashes : (rows.map Identity.hash).Nodup) (ids : (rows.map Identity.id).Nodup)
    {inPlace : Prop} (elsewhere : inPlace → ∀ mover ∈ movers derive rows, mover.row.hash ≠ mover.target)
    {moves : List (String × String)}
    (inOrder : InOrder moves (recordsOf (movers derive rows))) :
    Pending rows (recordsOf (movers derive rows)) inPlace (groupByTarget (movers derive rows)) := by
  obtain ⟨sound, perm⟩ := groupByTarget_spec (movers derive rows)
  have listed : ∀ group ∈ groupByTarget (movers derive rows), ∀ mover ∈ group.2,
      mover ∈ movers derive rows :=
    fun group inside mover here => perm.mem_iff.mp (List.mem_flatMap.mpr ⟨group, inside, here⟩)
  refine ⟨?_, ?_, ?_⟩
  · intro group inside
    refine ⟨(sound group inside).1, fun mover here => ⟨movers_row (listed group inside mover here), ?_⟩⟩
    rw [← (sound group inside).2 mover here]
    exact destination_of_mem (recordsOf_distinct hashes) (recordsOf_mem (listed group inside mover here))
  · intro in_place group inside mover here
    rw [← (sound group inside).2 mover here]
    exact elsewhere in_place mover (listed group inside mover here)
  · intro in_place
    have ordered := inOrder.pairwise
    unfold recordsOf at ordered
    rw [List.pairwise_flatMap] at ordered
    have distinct_rows : ((groupByTarget (movers derive rows)).flatMap Prod.snd).Pairwise
        fun a b => a.row.id ≠ b.row.id := by
      refine perm.symm.pairwise ?_ fun differ => Ne.symm differ
      have part := ((movers_sublist derive rows).map Identity.id).nodup ids
      rw [List.map_map, List.nodup_iff_pairwise_ne, List.pairwise_map] at part
      exact part
    rw [List.pairwise_flatMap] at distinct_rows
    refine (ordered.2.and distinct_rows.2).imp_of_mem ?_
    intro first later first_in later_in both mover here
    refine ⟨?_, fun earlier there => (both.2 earlier there mover here).symm⟩
    obtain ⟨witness, some_mover⟩ := List.exists_mem_of_ne_nil _ (sound first first_in).1
    have first_target := (sound first first_in).2 witness some_mover
    have later_target := (sound later later_in).2 mover here
    have moved := elsewhere in_place witness (listed first first_in witness some_mover)
    have moved' := elsewhere in_place mover (listed later later_in mover here)
    rw [first_target] at moved
    rw [later_target] at moved'
    exact (both.1 (witness.row.hash, first.1) (List.mem_map.mpr ⟨witness, some_mover, rfl⟩)
      (mover.row.hash, later.1) (List.mem_map.mpr ⟨mover, here, rfl⟩) moved moved').symm

theorem destination_idle (hashes : (rows.map Identity.hash).Nodup) {row : Identity Content}
    (member : row ∈ rows) (idle : ∀ mover ∈ movers derive rows, mover.row ≠ row) :
    destination (recordsOf (movers derive rows)) row.hash = row.hash := by
  refine destination_absent fun listed => ?_
  obtain ⟨mover, here, same⟩ := List.mem_map.mp ((recordsOf_keys _).mem_iff.mp listed)
  exact idle mover here (eq_of_nodup_map hashes (movers_row here) member same)

theorem mover_group {mover : Mover Content} (member : mover ∈ movers derive rows) :
    ∃ group ∈ groupByTarget (movers derive rows), mover ∈ group.2 :=
  List.mem_flatMap.mp ((groupByTarget_spec _).2.mem_iff.mpr member)

end Movers

/-- `_apply_identity_moves` moves every identity at once, chains and swaps included. -/
theorem applyIdentityMoves_rekeyed (curation : Curation Content Rank) (catalog : Catalog Content)
    (derive : Identity Content → Option (Content × String))
    (hashes : (catalog.rows.map Identity.hash).Nodup) (ids : (catalog.rows.map Identity.id).Nodup)
    (inOrder : InOrder catalog.moves (recordsOf (movers derive catalog.rows))) :
    Rekeyed catalog.rows (recordsOf (movers derive catalog.rows))
      (applyIdentityMoves curation catalog (movers derive catalog.rows)).rows := by
  refine applied_rekeyed curation _ _ ?_ (pending_groups hashes ids False.elim inOrder)
  have part : (catalog.rows.filter fun row => ∀ mover ∈ movers derive catalog.rows,
      row.id ≠ mover.row.id).Sublist catalog.rows := List.filter_sublist
  refine ⟨?_, ?_, False.elim, (part.map _).nodup hashes, (part.map _).nodup ids⟩
  · intro row member
    rw [List.mem_filter, decide_eq_true_eq] at member
    refine .inl fun h carries => ⟨row, member.1, carries, ?_⟩
    refine (destination_idle hashes member.1 fun mover here same => ?_).symm
    exact member.2 mover here (by rw [same])
  · intro old known h carries
    by_cases moves : ∃ mover ∈ movers derive catalog.rows, old.id = mover.row.id
    · obtain ⟨mover, here, same⟩ := moves
      obtain ⟨group, listed, inside⟩ := mover_group here
      exact .inr ⟨group, listed, mover, inside, eq_of_nodup_map ids (movers_row here) known same.symm⟩
    · refine .inl ⟨old, List.mem_filter.mpr ⟨known, ?_⟩, carries⟩
      simp only [decide_eq_true_eq]
      exact fun mover here same => moves ⟨mover, here, same⟩

/-- The first canonicalization settles one group after another, which is the same when no group lands on
    the hash of a later mover. -/
theorem canonicalize_rekeyed (curation : Curation Content Rank) (catalog : Catalog Content)
    (derive : Identity Content → Option (Content × String))
    (elsewhere : ∀ mover ∈ movers derive catalog.rows, mover.row.hash ≠ mover.target)
    (hashes : (catalog.rows.map Identity.hash).Nodup) (ids : (catalog.rows.map Identity.id).Nodup)
    (inOrder : InOrder catalog.moves (recordsOf (movers derive catalog.rows))) :
    Rekeyed catalog.rows (recordsOf (movers derive catalog.rows))
      (canonicalizePlaceholderHashes curation catalog (movers derive catalog.rows)).rows := by
  refine canonicalized_rekeyed curation _ _ ?_ (pending_groups hashes ids (fun _ => elsewhere) inOrder)
  refine ⟨?_, fun old known h carries => .inl ⟨old, known, carries⟩, ?_, hashes, ids⟩
  · intro row member
    by_cases moves : ∃ mover ∈ movers derive catalog.rows, mover.row = row
    · obtain ⟨mover, here, same⟩ := moves
      obtain ⟨group, listed, inside⟩ := mover_group here
      exact .inr ⟨trivial, group, listed, mover, inside, same⟩
    · refine .inl fun h carries => ⟨row, member, carries, ?_⟩
      exact (destination_idle hashes member fun mover here same => moves ⟨mover, here, same⟩).symm
  · intro _ group listed mover inside
    exact movers_row ((groupByTarget_spec _).2.mem_iff.mp (List.mem_flatMap.mpr ⟨group, listed, inside⟩))

theorem applyIdentityMoves_moves (curation : Curation Content Rank) (catalog : Catalog Content)
    (movers : List (Mover Content)) :
    (applyIdentityMoves curation catalog movers).moves = recordMoves catalog.moves (recordsOf movers) :=
  foldl_moves _ (settleGroup_moves curation) _ _

theorem canonicalize_moves (curation : Curation Content Rank) (catalog : Catalog Content)
    (movers : List (Mover Content)) :
    (canonicalizePlaceholderHashes curation catalog movers).moves =
      recordMoves catalog.moves (recordsOf movers) :=
  foldl_moves _ (canonicalizeGroup_moves curation) _ _

end Rdst.Library
