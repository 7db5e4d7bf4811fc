import Mathlib.Order.Basic
import Mathlib.Order.Lattice
import Rdst.Lib.Renaming

namespace Rdst.Library

open Renaming

set_option linter.unusedSectionVars false

variable {Content Rank : Type} [LinearOrder Rank]

/-- A row of `query_identity` with its lifecycle rows. `carries` are the hashes under which the
    identities that it now holds were known when the migrations began. -/
structure Identity (Content : Type) where
  id : Nat
  hash : String
  content : Content
  carries : List String

/-- What the merge reads and writes of an entry. -/
structure Curation (Content Rank : Type) where
  curationRank : Content → Rank
  mergeIdentity : Content → Content → Content
  dropUnnamedParameters : Content → Content

/-- A row that a migration re-keys or repairs, with the entry that it prepared for it. -/
structure Mover (Content : Type) where
  row : Identity Content
  content : Content
  target : String

def Mover.entry (mover : Mover Content) : Identity Content := { mover.row with content := mover.content }

/-- The stored identities and `_identity_moves`. -/
structure Catalog (Content : Type) where
  rows : List (Identity Content)
  moves : List (String × String)

def recordIdentityMove (moves : List (String × String)) (oldHash newHash : String) :
    List (String × String) :=
  if oldHash = "" ∨ oldHash = newHash then moves else record moves oldHash newHash

/-- The rows for which a migration derives another hash or another entry, in the order of the scan. -/
def movers (derive : Identity Content → Option (Content × String)) (rows : List (Identity Content)) :
    List (Mover Content) :=
  rows.filterMap fun row => (derive row).map fun found => ⟨row, found.1, found.2⟩

def addToGroup (groups : List (String × List (Mover Content))) (mover : Mover Content) :
    List (String × List (Mover Content)) :=
  if mover.target ∈ groups.map Prod.fst then
    groups.map fun group => if group.1 = mover.target then (group.1, group.2 ++ [mover]) else group
  else groups ++ [(mover.target, [mover])]

def groupByTarget (movers : List (Mover Content)) : List (String × List (Mover Content)) :=
  movers.foldl addToGroup []

/-- The member with the richest curation, and among equals the one with the lowest id. -/
def survivorOf (curation : Curation Content Rank) : List (Identity Content) → Option (Identity Content)
  | [] => none
  | first :: rest =>
    some (rest.foldl (fun best member =>
      if curation.curationRank best.content < curation.curationRank member.content ∨
          curation.curationRank best.content = curation.curationRank member.content ∧ member.id < best.id
      then member else best) first)

def mergeMembers (curation : Curation Content Rank) (members : List (Identity Content)) : Option Content :=
  (survivorOf curation members).map fun survivor =>
    (members.filter fun member => member.id ≠ survivor.id).foldl
      (fun merged member => curation.mergeIdentity merged member.content) survivor.content

def nextId (rows : List (Identity Content)) : Nat := (rows.map Identity.id).foldl max 0 + 1

/-- Insert the entry that a group of members becomes. -/
def insertMerged (curation : Curation Content Rank) (rows : List (Identity Content)) (canonical : String)
    (members : List (Identity Content)) : List (Identity Content) :=
  match mergeMembers curation members with
  | none => rows
  | some content => rows ++ [⟨nextId rows, canonical, content, members.flatMap Identity.carries⟩]

def recordMembers (moves : List (String × String)) (members : List (Identity Content)) (canonical : String) :
    List (String × String) :=
  members.foldl (fun moves member => recordIdentityMove moves member.hash canonical) moves

/-- One group of `_apply_identity_moves`: whatever stands on the target hash joins it. -/
def settleGroup (curation : Curation Content Rank) (catalog : Catalog Content)
    (group : String × List (Mover Content)) : Catalog Content :=
  let occupant := catalog.rows.find? fun row => row.hash = group.1
  let cleaned := occupant.map fun row =>
    { row with content := curation.dropUnnamedParameters row.content }
  let members := group.2.map Mover.entry ++ cleaned.toList
  let vacant := catalog.rows.filter fun row => ∀ taken ∈ occupant, row.id ≠ taken.id
  { rows := insertMerged curation vacant group.1 members
    moves := recordMembers catalog.moves members group.1 }

def applyIdentityMoves (curation : Curation Content Rank) (catalog : Catalog Content)
    (movers : List (Mover Content)) : Catalog Content :=
  let vacated := catalog.rows.filter fun row => ∀ mover ∈ movers, row.id ≠ mover.row.id
  (groupByTarget movers).foldl (settleGroup curation) { catalog with rows := vacated }

/-- One group of `_canonicalize_placeholder_hashes`, which leaves the movers of later groups in place. -/
def canonicalizeGroup (curation : Curation Content Rank) (catalog : Catalog Content)
    (group : String × List (Mover Content)) : Catalog Content :=
  let existing := catalog.rows.find? fun row => row.hash = group.1
  let members := group.2.map Mover.row ++ existing.toList
  let moves := recordMembers catalog.moves members group.1
  match members with
  | [only] =>
    { rows := catalog.rows.map fun row => if row.id = only.id then { row with hash := group.1 } else row
      moves := moves }
  | _ =>
    let kept := catalog.rows.filter fun row => ∀ member ∈ members, row.id ≠ member.id
    { rows := insertMerged curation kept group.1 members, moves := moves }

def canonicalizePlaceholderHashes (curation : Curation Content Rank) (catalog : Catalog Content)
    (movers : List (Mover Content)) : Catalog Content :=
  (groupByTarget movers).foldl (canonicalizeGroup curation) catalog

/-- What re-keying one group does to the rows: the members and what stood on the target hash become one
    row there, and every other row stays unless its id is taken out. -/
structure Regroup (current : List (Identity Content)) (canonical : String)
    (members : List (Identity Content)) (removed : List Nat) (next : List (Identity Content)) : Prop where
  traced : ∀ row ∈ next,
    (row.hash = canonical ∧ ∀ h ∈ row.carries, (∃ member ∈ members, h ∈ member.carries) ∨
      ∃ old ∈ current, old.hash = canonical ∧ h ∈ old.carries) ∨
    row ∈ current ∧ row.hash ≠ canonical ∧ row.id ∉ removed
  joined : ∀ member ∈ members, ∀ h ∈ member.carries, ∃ row ∈ next, h ∈ row.carries
  absorbed : ∀ old ∈ current, old.hash = canonical → ∀ h ∈ old.carries, ∃ row ∈ next, h ∈ row.carries
  stayed : ∀ old ∈ current, old.hash ≠ canonical → old.id ∉ removed → old ∈ next
  hashes : (next.map Identity.hash).Nodup
  ids : (next.map Identity.id).Nodup

theorem lt_nextId {rows : List (Identity Content)} {row : Identity Content} (member : row ∈ rows) :
    row.id < nextId rows := by
  have grows : ∀ (xs : List Nat) (start : Nat), start ≤ xs.foldl max start ∧ ∀ x ∈ xs, x ≤ xs.foldl max start := by
    intro xs
    induction xs with
    | nil => intro start; simp
    | cons x rest ih =>
      intro start
      have above := ih (max start x)
      simp only [List.foldl_cons, List.mem_cons]
      refine ⟨by omega, ?_⟩
      rintro y (rfl | later)
      · omega
      · exact above.2 y later
  have := (grows (rows.map Identity.id) 0).2 row.id (List.mem_map_of_mem member)
  unfold nextId
  omega

theorem mergeMembers_isSome (curation : Curation Content Rank) {members : List (Identity Content)}
    (some_member : members ≠ []) : ∃ content, mergeMembers curation members = some content := by
  cases members with
  | nil => exact absurd rfl some_member
  | cons first rest => exact ⟨_, rfl⟩

/-- Rows at other hashes, with the members merged into one row at the end, regroup the old rows. -/
theorem insertMerged_regroup (curation : Curation Content Rank) {current kept : List (Identity Content)}
    {canonical : String} {members all : List (Identity Content)} {removed : List Nat}
    (part : kept.Sublist current)
    (hashes : (current.map Identity.hash).Nodup) (ids : (current.map Identity.id).Nodup)
    (some_member : all ≠ []) (joins : ∀ member ∈ members, ∃ one ∈ all, one.carries = member.carries)
    (from_all : ∀ one ∈ all, (∃ member ∈ members, member.carries = one.carries) ∨
      ∃ old ∈ current, old.hash = canonical ∧ old.carries = one.carries)
    (occupants : ∀ old ∈ current, old.hash = canonical → ∃ one ∈ all, one.carries = old.carries)
    (kept_iff : ∀ old ∈ current, old ∈ kept ↔ old.hash ≠ canonical ∧ old.id ∉ removed) :
    Regroup current canonical members removed (insertMerged curation kept canonical all) := by
  obtain ⟨content, merged⟩ := mergeMembers_isSome curation some_member
  simp only [insertMerged, merged]
  have new_row : ∀ one ∈ all, ∀ h ∈ one.carries, ∃ row ∈ kept ++
      [⟨nextId kept, canonical, content, all.flatMap Identity.carries⟩], h ∈ row.carries := by
    intro one member h carried
    exact ⟨⟨nextId kept, canonical, content, all.flatMap Identity.carries⟩, by simp,
      List.mem_flatMap.mpr ⟨one, member, carried⟩⟩
  refine ⟨?_, ?_, ?_, ?_, ?_, ?_⟩
  · intro row member
    rcases List.mem_append.mp member with old | new
    · have inside := part.subset old
      exact .inr ⟨inside, (kept_iff row inside).mp old⟩
    · rw [List.mem_singleton.mp new]
      refine .inl ⟨rfl, ?_⟩
      intro h carried
      obtain ⟨one, present, here⟩ := List.mem_flatMap.mp carried
      rcases from_all one present with ⟨first, listed, same⟩ | ⟨old, inside, at_hash, same⟩
      · exact .inl ⟨first, listed, same ▸ here⟩
      · exact .inr ⟨old, inside, at_hash, same ▸ here⟩
  · intro member listed h carried
    obtain ⟨one, present, same⟩ := joins member listed
    exact new_row one present h (same ▸ carried)
  · intro old inside at_hash h carried
    obtain ⟨one, present, same⟩ := occupants old inside at_hash
    exact new_row one present h (same ▸ carried)
  · intro old inside other unlisted
    exact List.mem_append_left _ ((kept_iff old inside).mpr ⟨other, unlisted⟩)
  · rw [List.map_append, List.nodup_append]
    refine ⟨(part.map _).nodup hashes, by simp, ?_⟩
    intro hash old canonical' new same
    obtain ⟨row, member, rfl⟩ := List.mem_map.mp old
    simp only [List.map_cons, List.map_nil, List.mem_singleton] at new
    have other := ((kept_iff row (part.subset member)).mp member).1
    exact other (same.trans new)
  · rw [List.map_append, List.nodup_append]
    refine ⟨(part.map _).nodup ids, by simp, ?_⟩
    intro id old new_id new same
    obtain ⟨row, member, rfl⟩ := List.mem_map.mp old
    simp only [List.map_cons, List.map_nil, List.mem_singleton] at new
    have := lt_nextId member
    omega

theorem eq_of_nodup_map {α β : Type} {f : α → β} {xs : List α} (nodup : (xs.map f).Nodup) {a b : α}
    (ha : a ∈ xs) (hb : b ∈ xs) (same : f a = f b) : a = b :=
  List.inj_on_of_nodup_map nodup ha hb same

theorem find_hash {rows : List (Identity Content)} (hashes : (rows.map Identity.hash).Nodup)
    {canonical : String} {old : Identity Content} (member : old ∈ rows) (at_hash : old.hash = canonical) :
    rows.find? (fun row => row.hash = canonical) = some old := by
  cases found : rows.find? fun row => row.hash = canonical with
  | none =>
    have := List.find?_eq_none.mp found old member
    simp [at_hash] at this
  | some other =>
    have here := List.find?_some found
    simp only [decide_eq_true_eq] at here
    rw [eq_of_nodup_map hashes (List.mem_of_find?_eq_some found) member (here.trans at_hash.symm)]

theorem settleGroup_regroup (curation : Curation Content Rank) (catalog : Catalog Content)
    (group : String × List (Mover Content)) (hashes : (catalog.rows.map Identity.hash).Nodup)
    (ids : (catalog.rows.map Identity.id).Nodup) (some_mover : group.2 ≠ []) :
    Regroup catalog.rows group.1 (group.2.map Mover.row) [] (settleGroup curation catalog group).rows := by
  unfold settleGroup
  refine insertMerged_regroup curation List.filter_sublist hashes ids (by simp [some_mover]) ?_ ?_ ?_ ?_
  · intro member listed
    obtain ⟨mover, inside, rfl⟩ := List.mem_map.mp listed
    exact ⟨mover.entry, List.mem_append_left _ (List.mem_map_of_mem inside), rfl⟩
  · intro one listed
    rcases List.mem_append.mp listed with moved | stood
    · obtain ⟨mover, inside, rfl⟩ := List.mem_map.mp moved
      exact .inl ⟨mover.row, List.mem_map_of_mem inside, rfl⟩
    · simp only [Option.mem_toList, Option.map_eq_some_iff] at stood
      obtain ⟨old, found, rfl⟩ := stood
      have at_hash := List.find?_some found
      simp only [decide_eq_true_eq] at at_hash
      exact .inr ⟨old, List.mem_of_find?_eq_some found, at_hash, rfl⟩
  · intro old inside at_hash
    have found := find_hash hashes inside at_hash
    refine ⟨{ old with content := curation.dropUnnamedParameters old.content }, ?_, rfl⟩
    rw [found]
    simp
  · intro old inside
    simp only [List.mem_filter, inside, true_and, decide_eq_true_eq, List.not_mem_nil, not_false_eq_true,
      and_true]
    constructor
    · intro other at_hash
      exact other old (find_hash hashes inside at_hash) rfl
    · intro other taken found same
      have at_hash := List.find?_some found
      simp only [decide_eq_true_eq] at at_hash
      rw [eq_of_nodup_map ids inside (List.mem_of_find?_eq_some found) same] at other
      exact other at_hash

theorem canonicalizeGroup_regroup (curation : Curation Content Rank) (catalog : Catalog Content)
    (group : String × List (Mover Content)) (hashes : (catalog.rows.map Identity.hash).Nodup)
    (ids : (catalog.rows.map Identity.id).Nodup) (some_mover : group.2 ≠ [])
    (present : ∀ mover ∈ group.2, mover.row ∈ catalog.rows) :
    Regroup catalog.rows group.1 (group.2.map Mover.row) (group.2.map fun mover => mover.row.id)
      (canonicalizeGroup curation catalog group).rows := by
  have whole : Regroup catalog.rows group.1 (group.2.map Mover.row) (group.2.map fun mover => mover.row.id)
      (insertMerged curation
        (catalog.rows.filter fun row => ∀ member ∈ group.2.map Mover.row ++
          (catalog.rows.find? fun row => row.hash = group.1).toList, row.id ≠ member.id)
        group.1 (group.2.map Mover.row ++ (catalog.rows.find? fun row => row.hash = group.1).toList)) := by
    refine insertMerged_regroup curation List.filter_sublist hashes ids (by simp [some_mover]) ?_ ?_ ?_ ?_
    · exact fun member listed => ⟨member, List.mem_append_left _ listed, rfl⟩
    · intro one listed
      rcases List.mem_append.mp listed with moved | stood
      · exact .inl ⟨one, moved, rfl⟩
      · simp only [Option.mem_toList] at stood
        have at_hash := List.find?_some stood
        simp only [decide_eq_true_eq] at at_hash
        exact .inr ⟨one, List.mem_of_find?_eq_some stood, at_hash, rfl⟩
    · intro old inside at_hash
      exact ⟨old, List.mem_append_right _ (by simp [find_hash hashes inside at_hash]), rfl⟩
    · intro old inside
      simp only [List.mem_filter, inside, true_and, decide_eq_true_eq, List.mem_map, not_exists, not_and]
      constructor
      · intro other
        refine ⟨fun at_hash => ?_, fun mover listed same => ?_⟩
        · exact other old (List.mem_append_right _ (by simp [find_hash hashes inside at_hash])) rfl
        · exact other mover.row (List.mem_append_left _ (List.mem_map_of_mem listed)) same.symm
      · rintro ⟨at_other, unlisted⟩ member listed same
        rcases List.mem_append.mp listed with moved | stood
        · obtain ⟨mover, here, rfl⟩ := List.mem_map.mp moved
          exact unlisted mover here same.symm
        · simp only [Option.mem_toList] at stood
          have at_hash := List.find?_some stood
          simp only [decide_eq_true_eq] at at_hash
          rw [eq_of_nodup_map ids inside (List.mem_of_find?_eq_some stood) same] at at_other
          exact at_other at_hash
  simp only [canonicalizeGroup]
  split
  swap
  · exact whole
  -- A single mover onto a free hash keeps its row and id.
  rename_i only alone
  obtain ⟨mover, group_one⟩ : ∃ mover, group.2 = [mover] := by
    cases movers_eq : group.2 with
    | nil => exact absurd movers_eq some_mover
    | cons mover rest =>
      rw [movers_eq] at alone
      simp only [List.map_cons, List.cons_append, List.cons.injEq, List.append_eq_nil_iff,
        List.map_eq_nil_iff] at alone
      exact ⟨mover, by rw [alone.2.1]⟩
  rw [group_one] at alone present ⊢
  simp only [List.map_cons, List.map_nil, List.cons_append, List.nil_append, List.cons.injEq] at alone
  obtain ⟨rfl, free⟩ := alone
  have here := present mover (by simp)
  have vacant : ∀ row ∈ catalog.rows, row.hash ≠ group.1 := by
    intro row inside at_hash
    rw [find_hash hashes inside at_hash] at free
    cases free
  have same_row : ∀ row ∈ catalog.rows, row.id = mover.row.id → row = mover.row :=
    fun row inside same => eq_of_nodup_map ids inside here same
  refine ⟨?_, ?_, ?_, ?_, ?_, ?_⟩
  · intro row member
    obtain ⟨old, inside, rfl⟩ := List.mem_map.mp member
    by_cases taken : old.id = mover.row.id
    · rw [if_pos taken]
      refine .inl ⟨rfl, fun h carried => .inl ⟨mover.row, by simp, ?_⟩⟩
      rw [← same_row old inside taken]
      exact carried
    · rw [if_neg taken]
      exact .inr ⟨inside, vacant old inside, by simpa using taken⟩
  · intro member listed h carried
    simp only [List.map_cons, List.map_nil, List.mem_singleton] at listed
    subst listed
    exact ⟨_, List.mem_map_of_mem here, by simpa using carried⟩
  · exact fun old inside at_hash => absurd at_hash (vacant old inside)
  · intro old inside _ untaken
    refine List.mem_map.mpr ⟨old, inside, ?_⟩
    rw [if_neg (by simpa using untaken)]
  · rw [List.nodup_iff_pairwise_ne, List.pairwise_map, List.pairwise_map] at *
    refine (hashes.and ids).imp_of_mem ?_
    intro a b ha hb differ
    by_cases first : a.id = mover.row.id <;> by_cases second : b.id = mover.row.id
    · exact absurd (first.trans second.symm) differ.2
    · rw [if_pos first, if_neg second]
      exact (vacant b hb).symm
    · rw [if_neg first, if_pos second]
      exact vacant a ha
    · rw [if_neg first, if_neg second]
      exact differ.1
  · have unchanged : (catalog.rows.map fun row =>
        if row.id = mover.row.id then { row with hash := group.1 } else row).map Identity.id =
        catalog.rows.map Identity.id := by
      rw [List.map_map]
      apply List.map_congr_left
      intro row _
      by_cases taken : row.id = mover.row.id <;> simp [taken]
    rw [unchanged]
    exact ids

/-- The calls of `_record_identity_move` that re-key something, in their order. -/
def recordsOf (movers : List (Mover Content)) : List (String × String) :=
  (groupByTarget movers).flatMap fun group => group.2.map fun mover => (mover.row.hash, group.1)

def recordMoves (moves records : List (String × String)) : List (String × String) :=
  records.foldl (fun moves move => recordIdentityMove moves move.1 move.2) moves

/-- No move lands on a hash whose own move is recorded after it, none starts from a hash that an earlier
    move vacated, and none carries an earlier one onto a hash recorded as vacated since. -/
def InOrder : List (String × String) → List (String × String) → Prop
  | _, [] => True
  | moves, move :: rest =>
    (move.1 ≠ move.2 → move.1 ≠ "" ∧ move.2 ≠ "" ∧ (∀ earlier ∈ moves, earlier.1 = move.1 → earlier.2 = move.1) ∧
      Onward move.1 move.2 moves ∧ ∀ later ∈ rest, later.1 ≠ later.2 → move.2 ≠ later.1) ∧
      InOrder (recordIdentityMove moves move.1 move.2) rest

instance decidableInOrder : (moves records : List (String × String)) → Decidable (InOrder moves records)
  | _, [] => isTrue trivial
  | moves, move :: rest =>
    have := decidableInOrder (recordIdentityMove moves move.1 move.2) rest
    inferInstanceAs (Decidable ((_ → _) ∧ InOrder (recordIdentityMove moves move.1 move.2) rest))

section Moves

theorem InOrder.pairwise {moves records : List (String × String)} (inOrder : InOrder moves records) :
    records.Pairwise fun a b => a.1 ≠ a.2 → b.1 ≠ b.2 → a.2 ≠ b.1 := by
  induction records generalizing moves with
  | nil => exact .nil
  | cons move rest ih =>
    refine .cons (fun later member differ differ' => ?_) (ih inOrder.2)
    exact (inOrder.1 differ).2.2.2.2 later member differ'

theorem InOrder.target_ne {moves records : List (String × String)} (inOrder : InOrder moves records)
    {move : String × String} (member : move ∈ records) (differ : move.1 ≠ move.2) : move.2 ≠ "" := by
  induction records generalizing moves with
  | nil => cases member
  | cons first rest ih =>
    rcases List.mem_cons.mp member with rfl | later
    · exact (inOrder.1 differ).2.1
    · exact ih inOrder.2 later

/-- What one recorded move takes along to its target, a step's moves take to where the step takes it. -/
theorem InOrder.carry (At : List (String × String) → String → Prop)
    (one : ∀ moves dest old new, old ≠ new → (∀ move ∈ moves, move.1 = old → move.2 = old) →
      Onward old new moves → At moves dest → At (record moves old new) (if dest = old then new else dest))
    {moves records : List (String × String)} {dest : String} (inOrder : InOrder moves records)
    (distinct : (keys records).Nodup) (here : At moves dest) :
    At (recordMoves moves records) (destination records dest) := by
  induction records generalizing moves dest with
  | nil => exact here
  | cons move rest ih =>
    obtain ⟨first, later⟩ := inOrder
    rw [keys_cons, List.nodup_cons] at distinct
    show At (recordMoves (recordIdentityMove moves move.1 move.2) rest) _
    rw [destination_cons]
    by_cases trivial_move : move.1 = move.2
    · have same : recordIdentityMove moves move.1 move.2 = moves := by
        unfold recordIdentityMove
        rw [if_pos (.inr trivial_move)]
      rw [same] at later ⊢
      have next := ih later distinct.2 here
      by_cases at_move : dest = move.1
      · rw [if_pos at_move]
        rw [at_move, destination_absent distinct.1] at next
        rwa [← trivial_move]
      · rwa [if_neg at_move]
    · obtain ⟨blank, -, idle, onward, ahead⟩ := first trivial_move
      have same : recordIdentityMove moves move.1 move.2 = record moves move.1 move.2 := by
        unfold recordIdentityMove
        rw [if_neg (by simp [blank, trivial_move])]
      rw [same] at later ⊢
      have next := ih later distinct.2 (one moves dest move.1 move.2 trivial_move idle onward here)
      by_cases at_move : dest = move.1
      · rw [if_pos at_move] at next ⊢
        -- The hash that it lands on does not move any more in this step.
        have stays : destination rest move.2 = move.2 := by
          by_cases moved : move.2 ∈ keys rest
          · obtain ⟨again, member, equal⟩ := List.mem_map.mp moved
            have idle_move : again.1 = again.2 := by
              by_contra differ
              exact ahead again member differ equal.symm
            rw [← equal, destination_of_mem distinct.2 member, ← idle_move]
          · exact destination_absent moved
        rwa [stays] at next
      · rwa [if_neg at_move] at next ⊢

theorem settled_recordMoves {moves records : List (String × String)} {key dest : String}
    (settled : Settled moves key dest) (inOrder : InOrder moves records) (distinct : (keys records).Nodup) :
    Settled (recordMoves moves records) key (destination records dest) :=
  InOrder.carry (fun moves dest => Settled moves key dest)
    (fun _ _ _ _ differ idle onward here => here.record differ idle onward) inOrder distinct settled

theorem follow_recordMoves {moves records : List (String × String)} (key : String)
    (inOrder : InOrder moves records) (distinct : (keys records).Nodup) :
    follow (recordMoves moves records) key = destination records (follow moves key) := by
  refine InOrder.carry (fun moves dest => follow moves key = dest) ?_ inOrder distinct rfl
  intro moves dest old new differ idle onward here
  rw [follow_record differ idle onward, here]

theorem keys_recordMoves {moves records : List (String × String)} {key : String} :
    key ∈ keys (recordMoves moves records) ↔
      key ∈ keys moves ∨ ∃ move ∈ records, move.1 ≠ move.2 ∧ move.1 ≠ "" ∧ move.1 = key := by
  induction records generalizing moves with
  | nil => simp [recordMoves]
  | cons move rest ih =>
    show key ∈ keys (recordMoves (recordIdentityMove moves move.1 move.2) rest) ↔ _
    rw [ih]
    unfold recordIdentityMove
    by_cases skipped : move.1 = "" ∨ move.1 = move.2
    · have unlisted : ¬ (move.1 ≠ move.2 ∧ move.1 ≠ "" ∧ move.1 = key) := by
        rintro ⟨differ, blank, -⟩
        exact skipped.elim blank differ
      simp [skipped, unlisted]
    · rw [if_neg skipped, mem_keys_record]
      rw [not_or] at skipped
      simp only [List.mem_cons, exists_eq_or_imp, ne_eq, skipped.1, skipped.2, not_false_eq_true, true_and, or_assoc]
      rw [eq_comm]

theorem keys_recordMoves_nodup {moves : List (String × String)} (distinct : (keys moves).Nodup)
    (records : List (String × String)) : (keys (recordMoves moves records)).Nodup := by
  induction records generalizing moves with
  | nil => exact distinct
  | cons move rest ih =>
    refine ih ?_
    show (keys (recordIdentityMove moves move.1 move.2)).Nodup
    unfold recordIdentityMove
    split
    · exact distinct
    · exact keys_record_nodup distinct _ _

theorem recordMembers_append (moves : List (String × String)) (members : List (Identity Content))
    (canonical : String) (occupant : Option (Identity Content))
    (stands : ∀ row ∈ occupant, row.hash = canonical) :
    recordMembers moves (members ++ occupant.toList) canonical =
      recordMoves moves (members.map fun member => (member.hash, canonical)) := by
  have direct : recordMoves moves (members.map fun member => (member.hash, canonical)) =
      recordMembers moves members canonical := by
    unfold recordMoves recordMembers
    rw [List.foldl_map]
  rw [direct, recordMembers, List.foldl_append]
  cases occupant with
  | none => rfl
  | some row =>
    have same := stands row rfl
    show recordIdentityMove _ row.hash canonical = _
    unfold recordIdentityMove
    rw [if_pos (.inr same)]
    rfl

theorem settleGroup_moves (curation : Curation Content Rank) (catalog : Catalog Content)
    (group : String × List (Mover Content)) :
    (settleGroup curation catalog group).moves =
      recordMoves catalog.moves (group.2.map fun mover => (mover.row.hash, group.1)) := by
  simp only [settleGroup]
  rw [recordMembers_append, List.map_map]
  · rfl
  · intro row member
    simp only [Option.mem_def, Option.map_eq_some_iff] at member
    obtain ⟨old, found, rfl⟩ := member
    simpa using List.find?_some found

theorem canonicalizeGroup_moves (curation : Curation Content Rank) (catalog : Catalog Content)
    (group : String × List (Mover Content)) :
    (canonicalizeGroup curation catalog group).moves =
      recordMoves catalog.moves (group.2.map fun mover => (mover.row.hash, group.1)) := by
  have recorded : recordMembers catalog.moves (group.2.map Mover.row ++
      (catalog.rows.find? fun row => row.hash = group.1).toList) group.1 =
      recordMoves catalog.moves (group.2.map fun mover => (mover.row.hash, group.1)) := by
    rw [recordMembers_append, List.map_map]
    · rfl
    · intro row member
      simpa using List.find?_some member
  simp only [canonicalizeGroup]
  split <;> exact recorded

theorem foldl_moves (step : Catalog Content → String × List (Mover Content) → Catalog Content)
    (records : ∀ catalog group, (step catalog group).moves =
      recordMoves catalog.moves (group.2.map fun mover => (mover.row.hash, group.1)))
    (groups : List (String × List (Mover Content))) (catalog : Catalog Content) :
    (groups.foldl step catalog).moves = recordMoves catalog.moves
      (groups.flatMap fun group => group.2.map fun mover => (mover.row.hash, group.1)) := by
  induction groups generalizing catalog with
  | nil => rfl
  | cons group rest ih =>
    rw [List.foldl_cons, ih, records, List.flatMap_cons]
    exact (List.foldl_append ..).symm

end Moves

section Groups

theorem addToGroup_spec (groups : List (String × List (Mover Content))) (mover : Mover Content)
    (sound : ∀ group ∈ groups, group.2 ≠ [] ∧ ∀ one ∈ group.2, one.target = group.1)
    (distinct : (groups.map Prod.fst).Nodup) :
    (∀ group ∈ addToGroup groups mover, group.2 ≠ [] ∧ ∀ one ∈ group.2, one.target = group.1) ∧
      ((addToGroup groups mover).map Prod.fst).Nodup ∧
      ((addToGroup groups mover).flatMap Prod.snd).Perm (groups.flatMap Prod.snd ++ [mover]) := by
  unfold addToGroup
  by_cases known : mover.target ∈ groups.map Prod.fst
  · rw [if_pos known]
    refine ⟨?_, ?_, ?_⟩
    · intro group member
      obtain ⟨old, inside, rfl⟩ := List.mem_map.mp member
      by_cases here : old.1 = mover.target
      · rw [if_pos here]
        refine ⟨by simp, ?_⟩
        intro one listed
        rcases List.mem_append.mp listed with early | last
        · exact (sound old inside).2 one early
        · rw [List.mem_singleton.mp last]
          exact here.symm
      · rw [if_neg here]
        exact sound old inside
    · have same : (groups.map fun group =>
          if group.1 = mover.target then (group.1, group.2 ++ [mover]) else group).map Prod.fst =
          groups.map Prod.fst := by
        rw [List.map_map]
        apply List.map_congr_left
        intro group _
        by_cases here : group.1 = mover.target <;> simp [here]
      rw [same]
      exact distinct
    · obtain ⟨group, member, here⟩ := List.mem_map.mp known
      obtain ⟨before, after, rfl⟩ := List.append_of_mem member
      have apart : ∀ other ∈ before ++ after, other.1 ≠ mover.target := by
        rw [List.map_append, List.map_cons, List.nodup_append, List.nodup_cons] at distinct
        intro other inside equal
        rcases List.mem_append.mp inside with left | right
        · exact distinct.2.2 _ (List.mem_map_of_mem left) group.1 (by simp) (equal.trans here.symm)
        · refine distinct.2.1.1 ?_
          rw [here, ← equal]
          exact List.mem_map_of_mem right
      have keep : ∀ xs : List (String × List (Mover Content)), (∀ other ∈ xs, other.1 ≠ mover.target) →
          (xs.map fun group => if group.1 = mover.target then (group.1, group.2 ++ [mover]) else group) = xs := by
        intro xs others
        conv_rhs => rw [← List.map_id xs]
        apply List.map_congr_left
        intro other inside
        simp [others other inside]
      rw [List.map_append, List.map_cons, keep before fun other inside => apart other (by simp [inside]),
        keep after fun other inside => apart other (by simp [inside]), if_pos here]
      simp only [List.flatMap_append, List.flatMap_cons, List.append_assoc]
      refine List.Perm.append_left _ (List.Perm.append_left _ ?_)
      exact List.perm_append_comm
  · rw [if_neg known]
    refine ⟨?_, ?_, ?_⟩
    · intro group member
      rcases List.mem_append.mp member with old | new
      · exact sound group old
      · rw [List.mem_singleton.mp new]
        simp
    · rw [List.map_append, List.nodup_append]
      refine ⟨distinct, by simp, ?_⟩
      intro key old other new equal
      rw [List.map_cons, List.map_nil, List.mem_singleton] at new
      rw [equal, new] at old
      exact known old
    · rw [List.flatMap_append]
      simp

/-- Grouping sorts the movers by target and loses none. -/
theorem groupByTarget_spec (movers : List (Mover Content)) :
    (∀ group ∈ groupByTarget movers, group.2 ≠ [] ∧ ∀ one ∈ group.2, one.target = group.1) ∧
      ((groupByTarget movers).flatMap Prod.snd).Perm movers := by
  have run : ∀ (rest : List (Mover Content)) (groups : List (String × List (Mover Content))),
      (∀ group ∈ groups, group.2 ≠ [] ∧ ∀ one ∈ group.2, one.target = group.1) →
      (groups.map Prod.fst).Nodup →
      (∀ group ∈ rest.foldl addToGroup groups, group.2 ≠ [] ∧ ∀ one ∈ group.2, one.target = group.1) ∧
        ((rest.foldl addToGroup groups).flatMap Prod.snd).Perm (groups.flatMap Prod.snd ++ rest) := by
    intro rest
    induction rest with
    | nil => intro groups sound _; exact ⟨sound, by simp⟩
    | cons mover rest ih =>
      intro groups sound distinct
      obtain ⟨sound', distinct', perm⟩ := addToGroup_spec groups mover sound distinct
      obtain ⟨sound'', perm'⟩ := ih _ sound' distinct'
      refine ⟨sound'', perm'.trans ?_⟩
      have step := perm.append_right rest
      rwa [List.append_assoc] at step
  simpa [groupByTarget] using run movers [] (by simp) (by simp)

theorem recordsOf_keys (movers : List (Mover Content)) :
    (keys (recordsOf movers)).Perm (movers.map fun mover => mover.row.hash) := by
  have flat : keys (recordsOf movers) =
      ((groupByTarget movers).flatMap Prod.snd).map fun mover => mover.row.hash := by
    unfold recordsOf keys
    rw [List.map_flatMap, List.map_flatMap]
    congr 1
    funext group
    rw [List.map_map]
    rfl
  rw [flat]
  exact (groupByTarget_spec movers).2.map _

theorem recordsOf_mem {movers : List (Mover Content)} {mover : Mover Content} (member : mover ∈ movers) :
    (mover.row.hash, mover.target) ∈ recordsOf movers := by
  obtain ⟨sound, perm⟩ := groupByTarget_spec movers
  obtain ⟨group, listed, inside⟩ := List.mem_flatMap.mp (perm.mem_iff.mpr member)
  refine List.mem_flatMap.mpr ⟨group, listed, List.mem_map.mpr ⟨mover, inside, ?_⟩⟩
  rw [(sound group listed).2 mover inside]

end Groups

end Rdst.Library
