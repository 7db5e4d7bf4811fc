import Rdst.Lib.Fusing
import Rdst.Observation.Rekey

namespace Rdst.Observation.RekeyEvidence

open Renaming Fusing

set_option linter.unusedSectionVars false

/-- `exec_count` of an execution that a lane reports; a Python bool is an int too. -/
inductive Count
  | flag (value : Bool)
  | number (value : Int)

structure Report where
  sql : Option String
  execCount : Option Count

/-- A row of `_execution_evidence_rows`. -/
structure EvidenceRow where
  targetId : String
  normalizedHash : String
  lane : String
  runId : String
  startedAt : ℚ
  endedAt : Option ℚ
  execCount : Option Int
deriving DecidableEq

/-- The count that a report has for the rows, where it is worth one. -/
def evidenceCount : Option Count → Option (Option Int)
  | none => some none
  | some (.flag _) => none
  | some (.number count) => if count ≤ 0 then none else some (some count)

/-- `merged[normalized_hash] = count`, after the count that stands there. -/
def mergeCount (merged : List (String × Option Int)) (normalizedHash : String) (count : Option Int) :
    List (String × Option Int) :=
  if normalizedHash ∈ merged.map Prod.fst then
    merged.map fun entry =>
      if entry.1 = normalizedHash then (entry.1, Option.map₂ (· + ·) entry.2 count) else entry
  else merged ++ [(normalizedHash, count)]

def mergeReport (hashSql : String → String) (merged : List (String × Option Int)) (report : Report) :
    List (String × Option Int) :=
  match report.sql with
  | none => merged
  | some sql =>
    if sql = "" then merged
    else match evidenceCount report.execCount with
      | none => merged
      | some count => mergeCount merged (hashSql sql) count

def executionEvidenceRows (hashSql : String → String) (targetId : Option String) (reports : List Report)
    (lane runId : String) (startedAt : ℚ) (endedAt : Option ℚ) : List EvidenceRow :=
  if targetId.getD "" = "" then []
  else
    ((reports.foldl (mergeReport hashSql) []).filter fun entry => entry.2.all fun count => decide (0 < count)).map
      fun entry => ⟨targetId.getD "", entry.1, lane, runId, startedAt, endedAt, entry.2⟩

variable {Slot Body : Type} [DecidableEq Slot]

/-- The table's primary key. -/
def Unique (table : List (Keyed Slot Body)) : Prop := (table.map fun row => (row.slot, row.hash)).Nodup

instance (table : List (Keyed Slot Body)) : Decidable (Unique table) :=
  inferInstanceAs (Decidable (List.Nodup (table.map fun row => (row.slot, row.hash))))

/-- The rows that a row of the re-keyed table is made of. -/
def partsOf (place : String → String) (stored : List (Keyed Slot Body)) (slot : Slot) (hash : String) :
    List (Keyed Slot Body) :=
  stored.filter fun part => part.slot = slot ∧ place part.hash = hash

/-- Two rows that the mapping brings to one key. -/
def Collide (pairs : List (String × String)) (first second : Keyed Slot Body) : Prop :=
  first.slot = second.slot ∧ first.hash ≠ second.hash ∧ follow pairs first.hash = follow pairs second.hash

instance (pairs : List (String × String)) (first second : Keyed Slot Body) :
    Decidable (Collide pairs first second) :=
  inferInstanceAs (Decidable (_ ∧ _ ∧ _))

/-- Every stored row is in the one row of its new key, and each row there keeps what it is made of. -/
def Preserved (kept : Keyed Slot Body → List (Keyed Slot Body) → Prop) (pairs : List (String × String))
    (stored rekeyed : List (Keyed Slot Body)) : Prop :=
  Unique rekeyed ∧
    (∀ part ∈ stored, ∃ row ∈ rekeyed, row.slot = part.slot ∧ row.hash = follow pairs part.hash) ∧
    ∀ row ∈ rekeyed, kept row (partsOf (follow pairs) stored row.slot row.hash)

def WindowKept (row : Keyed (String × ℚ) Window) (parts : List (Keyed (String × ℚ) Window)) : Prop :=
  row.body.callsDelta = knownTotal (parts.map fun part => part.body.callsDelta) ∧
    row.body.execTimeDelta = knownTotal (parts.map fun part => part.body.execTimeDelta)

/-- The counts as reports of one statement, which has the row's hash. -/
def ReportsOf (hashSql : String → String) (hash : String) (counts : List (Option Int)) (reports : List Report) :
    Prop :=
  (reports.map Report.execCount = counts.map fun count => count.map Count.number) ∧
    ∀ report ∈ reports, ∃ sql, report.sql = some sql ∧ sql ≠ "" ∧ hashSql sql = hash

def ExecutionKept (hashSql : String → String) (row : Keyed (String × String) Execution)
    (parts : List (Keyed (String × String) Execution)) : Prop :=
  row.body.execCount = knownTotal (parts.map fun part => part.body.execCount) ∧
    (row.body.endedAt = none ↔ ∃ part ∈ parts, part.body.endedAt = none) ∧
    ∀ reports, ReportsOf hashSql row.hash (parts.map fun part => part.body.execCount) reports →
      (∀ part ∈ parts, ∀ count, part.body.execCount = some count → 0 < count) → row.slot.1 ≠ "" →
      executionEvidenceRows hashSql (some row.slot.1) reports row.body.lane row.slot.2 row.body.startedAt
        row.body.endedAt =
        [⟨row.slot.1, row.hash, row.body.lane, row.slot.2, row.body.startedAt, row.body.endedAt, row.body.execCount⟩]

/-- Each row is made of the stored rows that `place` brings to its key. -/
structure Formed (absorb : Body → Body → Body) (place : String → String) (stored table : List (Keyed Slot Body)) :
    Prop where
  unique : Unique table
  made : ∀ row ∈ table, ∃ parts, Made absorb parts row.body ∧
    parts.Perm ((partsOf place stored row.slot row.hash).map Keyed.body)
  covered : ∀ part ∈ stored, ∃ row ∈ table, row.slot = part.slot ∧ row.hash = place part.hash

theorem unique_eq {table : List (Keyed Slot Body)} (unique : Unique table) {first second : Keyed Slot Body}
    (here : first ∈ table) (there : second ∈ table) (slot : first.slot = second.slot)
    (hash : first.hash = second.hash) : first = second := by
  have same : (first.slot, first.hash) = (second.slot, second.hash) := by rw [slot, hash]
  exact List.inj_on_of_nodup_map unique here there same

theorem insertOrAbsorb_unique (absorb : Body → Body → Body) (new : String) {table : List (Keyed Slot Body)}
    (unique : Unique table) (row : Keyed Slot Body) : Unique (insertOrAbsorb absorb new table row) := by
  unfold insertOrAbsorb
  split
  · have keys : ((table.map fun stored => if stored.slot = row.slot ∧ stored.hash = new then
        { stored with body := absorb stored.body row.body, sources := stored.sources ++ row.sources }
        else stored).map fun stored => (stored.slot, stored.hash)) = table.map fun stored => (stored.slot, stored.hash) := by
      rw [List.map_map]
      apply List.map_congr_left
      intro stored _
      simp only [Function.comp_apply]
      split <;> rfl
    rw [Unique, keys]
    exact unique
  · rename_i absent
    rw [Unique, List.map_append, List.nodup_append]
    refine ⟨unique, by simp, ?_⟩
    intro key listed other last
    obtain ⟨stored, member, rfl⟩ := List.mem_map.mp listed
    simp only [List.map_cons, List.map_nil, List.mem_singleton] at last
    subst last
    intro same
    exact absent ⟨stored, member, congrArg Prod.fst same, congrArg Prod.snd same⟩

/-- The row that a stored one becomes when it takes in one that moves. -/
def absorbing (absorb : Body → Body → Body) (stored moving : Keyed Slot Body) : Keyed Slot Body :=
  { stored with body := absorb stored.body moving.body, sources := stored.sources ++ moving.sources }

theorem mem_insertOrAbsorb (absorb : Body → Body → Body) {new : String} {table : List (Keyed Slot Body)}
    {moving row : Keyed Slot Body} (member : row ∈ insertOrAbsorb absorb new table moving) :
    (row ∈ table ∧ (row.hash = new → row.slot ≠ moving.slot)) ∨
      (∃ stored ∈ table, stored.slot = moving.slot ∧ stored.hash = new ∧ row = absorbing absorb stored moving) ∨
      ((∀ stored ∈ table, stored.slot = moving.slot → stored.hash ≠ new) ∧ row = { moving with hash := new }) := by
  unfold insertOrAbsorb at member
  split at member
  · obtain ⟨stored, inside, rfl⟩ := List.mem_map.mp member
    by_cases same : stored.slot = moving.slot ∧ stored.hash = new
    · rw [if_pos same]
      exact .inr (.inl ⟨stored, inside, same.1, same.2, rfl⟩)
    · rw [if_neg same]
      exact .inl ⟨inside, fun hash slot => same ⟨slot, hash⟩⟩
  · rename_i absent
    have none_stands : ∀ stored ∈ table, stored.slot = moving.slot → stored.hash ≠ new :=
      fun stored inside slot hash => absent ⟨stored, inside, slot, hash⟩
    rcases List.mem_append.mp member with inside | last
    · exact .inl ⟨inside, fun hash slot => none_stands row inside slot hash⟩
    · exact .inr (.inr ⟨none_stands, List.mem_singleton.mp last⟩)

/-- What a row is after rows of distinct slots have moved to a hash: left alone, one that took in the moving
    row of its slot, or a moving row that found none there. -/
theorem mem_moved (absorb : Body → Body → Body) {new : String} {moving table : List (Keyed Slot Body)}
    (distinct : (moving.map Keyed.slot).Nodup) {row : Keyed Slot Body}
    (member : row ∈ moving.foldl (insertOrAbsorb absorb new) table) :
    (row ∈ table ∧ (row.hash = new → ∀ other ∈ moving, row.slot ≠ other.slot)) ∨
      (∃ stored ∈ table, ∃ other ∈ moving, stored.slot = other.slot ∧ stored.hash = new ∧
        row = absorbing absorb stored other) ∨
      ∃ other ∈ moving, (∀ stored ∈ table, stored.slot = other.slot → stored.hash ≠ new) ∧
        row = { other with hash := new } := by
  induction moving generalizing table with
  | nil => exact .inl ⟨member, by simp⟩
  | cons first rest ih =>
    rw [List.map_cons, List.nodup_cons] at distinct
    have elsewhere : ∀ other ∈ rest, other.slot ≠ first.slot := by
      intro other later same
      exact distinct.1 (List.mem_map.mpr ⟨other, later, same⟩)
    rcases ih distinct.2 member with ⟨inside, apart⟩ | ⟨stored, inside, other, later, slot, hash, made⟩ |
      ⟨other, later, absent, made⟩
    · rcases mem_insertOrAbsorb absorb inside with ⟨before, free⟩ | ⟨stored, before, slot, hash, made⟩ |
        ⟨absent, made⟩
      · refine .inl ⟨before, fun at_new other listed => ?_⟩
        rcases List.mem_cons.mp listed with rfl | later
        · exact free at_new
        · exact apart at_new other later
      · exact .inr (.inl ⟨stored, before, first, by simp, slot, hash, made⟩)
      · exact .inr (.inr ⟨first, by simp, absent, made⟩)
    · rcases mem_insertOrAbsorb absorb inside with ⟨before, _⟩ | ⟨under, _, at_first, _, rfl⟩ | ⟨_, rfl⟩
      · exact .inr (.inl ⟨stored, before, other, List.mem_cons_of_mem _ later, slot, hash, made⟩)
      · exact absurd (slot.symm.trans at_first) (elsewhere other later)
      · exact absurd slot.symm (elsewhere other later)
    · refine .inr (.inr ⟨other, List.mem_cons_of_mem _ later, ?_, made⟩)
      intro stored before slot
      obtain ⟨next, inside, next_slot, next_hash, _⟩ := insertOrAbsorb_grows absorb new table first stored before
      rw [← next_hash]
      exact absent next inside (next_slot.trans slot)

theorem foldl_unique (absorb : Body → Body → Body) (new : String) (moving : List (Keyed Slot Body))
    {table : List (Keyed Slot Body)} (unique : Unique table) :
    Unique (moving.foldl (insertOrAbsorb absorb new) table) := by
  induction moving generalizing table with
  | nil => exact unique
  | cons first rest ih => exact ih (insertOrAbsorb_unique absorb new unique first)

theorem filter_or_perm {Entry : Type} (p q : Entry → Prop) [DecidablePred p] [DecidablePred q]
    (apart : ∀ entry, p entry → ¬ q entry) (entries : List Entry) :
    (entries.filter (fun entry => p entry) ++ entries.filter fun entry => q entry).Perm
      (entries.filter fun entry => p entry ∨ q entry) := by
  have split := List.filter_append_perm (fun entry => decide (p entry))
    (entries.filter fun entry => p entry ∨ q entry)
  rw [List.filter_filter, List.filter_filter] at split
  have left : entries.filter (fun entry => decide (p entry) && decide (p entry ∨ q entry)) =
      entries.filter fun entry => p entry := by
    apply List.filter_congr
    intro entry _
    by_cases test : p entry <;> simp [test]
  have right : entries.filter (fun entry => (!decide (p entry)) && decide (p entry ∨ q entry)) =
      entries.filter fun entry => q entry := by
    apply List.filter_congr
    intro entry _
    by_cases test : p entry
    · simp [test, apart entry test]
    · simp [test]
  rw [left, right] at split
  exact split

section Moves

variable {absorb : Body → Body → Body} {place : String → String} {stored table : List (Keyed Slot Body)}
  {old new : String}

theorem Formed.start (absorb : Body → Body → Body) (unique : Unique stored) : Formed absorb id stored stored := by
  refine ⟨unique, ?_, fun part member => ⟨part, member, rfl, rfl⟩⟩
  intro row member
  have alone : (partsOf id stored row.slot row.hash).Perm [row] := by
    apply (List.perm_ext_iff_of_nodup ((List.Nodup.of_map _ unique).filter _) (List.nodup_singleton row)).mpr
    intro part
    rw [List.mem_filter, List.mem_singleton, decide_eq_true_eq]
    constructor
    · intro here
      exact unique_eq unique here.1 member here.2.1 here.2.2
    · intro same
      subst same
      exact ⟨member, rfl, rfl⟩
  exact ⟨[row.body], .alone row.body, (alone.map Keyed.body).symm⟩

/-- No row stands at the key, so none came from a stored one there. -/
theorem Formed.parts_nil (formed : Formed absorb place stored table) {slot : Slot} {hash : String}
    (absent : ∀ row ∈ table, row.slot = slot → row.hash ≠ hash) : partsOf place stored slot hash = [] := by
  apply List.filter_eq_nil_iff.mpr
  intro part member
  obtain ⟨row, inside, at_slot, at_hash⟩ := formed.covered part member
  have free := absent row inside
  simp only [decide_eq_true_eq, not_and]
  intro slot_eq hash_eq
  exact free (at_slot.trans slot_eq) (at_hash.trans hash_eq)

theorem partsOf_renamed (place : String → String) (stored : List (Keyed Slot Body)) (differ : old ≠ new)
    (slot : Slot) :
    ((partsOf place stored slot new) ++ partsOf place stored slot old).Perm
      (partsOf (fun hash => renamed old new (place hash)) stored slot new) := by
  have both := filter_or_perm (fun part : Keyed Slot Body => part.slot = slot ∧ place part.hash = new)
    (fun part => part.slot = slot ∧ place part.hash = old)
    (fun part at_new at_old => differ (at_old.2.symm.trans at_new.2)) stored
  have same : stored.filter (fun part => (part.slot = slot ∧ place part.hash = new) ∨
      part.slot = slot ∧ place part.hash = old) =
      partsOf (fun hash => renamed old new (place hash)) stored slot new := by
    apply List.filter_congr
    intro part _
    simp only [renamed]
    by_cases moves : place part.hash = old
    · simp [moves, differ]
    · simp [moves]
  rw [same] at both
  exact both

theorem partsOf_other {hash : String} (not_old : hash ≠ old) (not_new : hash ≠ new) (slot : Slot) :
    partsOf (fun hash => renamed old new (place hash)) stored slot hash = partsOf place stored slot hash := by
  apply List.filter_congr
  intro part _
  simp only [renamed]
  by_cases moves : place part.hash = old
  · simp [moves, not_old.symm, not_new.symm]
  · simp [moves]

theorem Formed.move (formed : Formed absorb place stored table) (differ : old ≠ new) :
    Formed absorb (fun hash => renamed old new (place hash)) stored (moveRows absorb old new table).1 := by
  have moving_old : ∀ row ∈ table.filter (fun row => row.hash = old), row ∈ table ∧ row.hash = old := by
    intro row listed
    simpa using List.mem_filter.mp listed
  have distinct : ((table.filter fun row => row.hash = old).map Keyed.slot).Nodup := by
    apply List.Nodup.map_on
    · intro first here second there slot
      have one := moving_old first here
      have two := moving_old second there
      exact unique_eq formed.unique one.1 two.1 slot (one.2.trans two.2.symm)
    · exact (List.Nodup.of_map _ formed.unique).filter _
  refine ⟨?_, ?_, ?_⟩
  · have whole := foldl_unique absorb new (table.filter fun row => row.hash = old) formed.unique
    exact List.Nodup.sublist (List.filter_sublist.map _) whole
  · intro row member
    rw [moveRows, List.mem_filter, decide_eq_true_eq] at member
    obtain ⟨moved, not_old⟩ := member
    rcases mem_moved absorb distinct moved with ⟨inside, apart⟩ | ⟨first, inside, other, listed, slot, hash, rfl⟩ |
      ⟨other, listed, absent, rfl⟩
    · obtain ⟨parts, made, perm⟩ := formed.made row inside
      refine ⟨parts, made, ?_⟩
      by_cases at_new : row.hash = new
      · have gone : partsOf place stored row.slot old = [] := by
          apply formed.parts_nil
          intro other here slot hash
          exact apart at_new other (List.mem_filter.mpr ⟨here, by simpa using hash⟩) slot.symm
        have joined := partsOf_renamed place stored differ row.slot
        rw [gone, List.append_nil] at joined
        rw [at_new] at perm ⊢
        exact perm.trans (joined.map _)
      · rw [partsOf_other not_old at_new]
        exact perm
    · obtain ⟨other_in, other_old⟩ := moving_old other listed
      obtain ⟨left, left_made, left_perm⟩ := formed.made first inside
      obtain ⟨right, right_made, right_perm⟩ := formed.made other other_in
      refine ⟨left ++ right, left_made.both right_made, ?_⟩
      rw [hash] at left_perm
      rw [other_old, ← slot] at right_perm
      have joined := (partsOf_renamed place stored differ first.slot).map Keyed.body
      rw [List.map_append] at joined
      show (left ++ right).Perm ((partsOf _ stored first.slot first.hash).map Keyed.body)
      rw [hash]
      exact (left_perm.append right_perm).trans joined
    · obtain ⟨other_in, other_old⟩ := moving_old other listed
      obtain ⟨parts, made, perm⟩ := formed.made other other_in
      refine ⟨parts, made, ?_⟩
      have joined := (partsOf_renamed place stored differ other.slot).map Keyed.body
      rw [formed.parts_nil absent, List.nil_append] at joined
      rw [other_old] at perm
      exact perm.trans joined
  · intro part member
    obtain ⟨row, inside, slot, hash⟩ := formed.covered part member
    by_cases moves : row.hash = old
    · obtain ⟨next, here, next_slot, next_hash, _⟩ := foldl_takes absorb new
        (table.filter fun row => row.hash = old) table row (List.mem_filter.mpr ⟨inside, by simpa using moves⟩)
      refine ⟨next, List.mem_filter.mpr ⟨here, by simpa [next_hash] using differ.symm⟩, next_slot.trans slot, ?_⟩
      rw [next_hash, ← hash, renamed, if_pos moves]
    · obtain ⟨next, here, next_slot, next_hash, _⟩ := foldl_grows absorb new
        (table.filter fun row => row.hash = old) table row inside
      refine ⟨next, List.mem_filter.mpr ⟨here, by simpa [next_hash] using moves⟩, next_slot.trans slot, ?_⟩
      rw [next_hash, ← hash, renamed, if_neg moves]

/-- One pair after another. -/
theorem Formed.moves (pairs : List (String × String)) (differ : ∀ move ∈ pairs, move.1 ≠ move.2)
    (formed : Formed absorb place stored table) :
    Formed absorb (fun hash => follow pairs (place hash)) stored
      (pairs.foldl (fun table move => (moveRows absorb move.1 move.2 table).1) table) := by
  induction pairs generalizing table place with
  | nil => exact formed
  | cons move rest ih =>
    exact ih (fun other later => differ other (List.mem_cons_of_mem _ later))
      (formed.move (differ move (by simp)))

end Moves

theorem rekeyIdentities_windows (history : History) (mapping : List (String × String)) :
    (rekeyIdentities history mapping).1.windows = (effectivePairs mapping).foldl
      (fun table move => (moveRows Window.absorb move.1 move.2 table).1) history.windows := by
  unfold rekeyIdentities
  generalize effectivePairs mapping = pairs
  generalize 0 = moved
  induction pairs generalizing history moved with
  | nil => rfl
  | cons move rest ih => exact ih _ _

theorem rekeyIdentities_executions (history : History) (mapping : List (String × String)) :
    (rekeyIdentities history mapping).1.executions = (effectivePairs mapping).foldl
      (fun table move => (moveRows Execution.absorb move.1 move.2 table).1) history.executions := by
  unfold rekeyIdentities
  generalize effectivePairs mapping = pairs
  generalize 0 = moved
  induction pairs generalizing history moved with
  | nil => rfl
  | cons move rest ih => exact ih _ _

theorem effectivePairs_differ {mapping : List (String × String)} :
    ∀ move ∈ effectivePairs mapping, move.1 ≠ move.2 := by
  intro move listed
  have test := (List.mem_filter.mp listed).2
  rw [decide_eq_true_eq] at test
  exact test.2.2

/-- In every group of rows that come to one key, the ones that do not come alone have the property. -/
theorem several_iff {pairs : List (String × String)} {stored : List (Keyed Slot Body)} (unique : Unique stored)
    {table : List (Keyed Slot Body)}
    (covered : ∀ part ∈ stored, ∃ row ∈ table, row.slot = part.slot ∧ row.hash = follow pairs part.hash)
    (good : Keyed Slot Body → Prop) :
    (∀ row ∈ table, 1 < (partsOf (follow pairs) stored row.slot row.hash).length →
        ∀ part ∈ partsOf (follow pairs) stored row.slot row.hash, good part) ↔
      ∀ first ∈ stored, ∀ second ∈ stored, Collide pairs first second → good first := by
  constructor
  · intro several first here second there collide
    obtain ⟨slot, differ, same⟩ := collide
    obtain ⟨row, inside, row_slot, row_hash⟩ := covered first here
    have one : first ∈ partsOf (follow pairs) stored row.slot row.hash := by
      simp [partsOf, here, row_slot, row_hash]
    have two : second ∈ partsOf (follow pairs) stored row.slot row.hash := by
      simp [partsOf, there, row_slot, row_hash, slot, same]
    apply several row inside _ first one
    by_contra short
    have unequal : first ≠ second := fun equal => differ (congrArg Keyed.hash equal)
    match listed : partsOf (follow pairs) stored row.slot row.hash with
    | [] => simp [listed] at one
    | [only] =>
      rw [listed, List.mem_singleton] at one two
      exact unequal (one.trans two.symm)
    | _ :: _ :: _ => simp [listed] at short
  · intro collide row _ several part listed
    have distinct : (partsOf (follow pairs) stored row.slot row.hash).Nodup :=
      (List.Nodup.of_map _ unique).filter _
    obtain ⟨other, also, unequal⟩ : ∃ other ∈ partsOf (follow pairs) stored row.slot row.hash, other ≠ part := by
      by_contra alone
      push Not at alone
      have all_same := List.eq_replicate_of_mem alone
      rw [all_same, List.nodup_replicate] at distinct
      omega
    simp only [partsOf, List.mem_filter, decide_eq_true_eq] at listed also
    apply collide part listed.1 other also.1
    refine ⟨listed.2.1.trans also.2.1.symm, ?_, listed.2.2.trans also.2.2.symm⟩
    intro hash
    exact unequal (unique_eq unique also.1 listed.1 (also.2.1.trans listed.2.1.symm) hash.symm)

/-- A row keeps the total of its parts' counts just when it has one part or each of them is known. -/
theorem Formed.total_iff {M : Type} [AddCommMonoid M] {absorb : Body → Body → Body} {count : Body → Option M}
    (adds : Adds absorb count) {place : String → String} {stored table : List (Keyed Slot Body)}
    (formed : Formed absorb place stored table) {row : Keyed Slot Body} (member : row ∈ table) :
    count row.body = knownTotal ((partsOf place stored row.slot row.hash).map fun part => count part.body) ↔
      1 < (partsOf place stored row.slot row.hash).length →
        ∀ part ∈ partsOf place stored row.slot row.hash, (count part.body).isSome := by
  obtain ⟨parts, made, perm⟩ := formed.made row member
  have total := made.total_iff adds
  rw [knownTotal_perm (perm.map count), perm.length_eq, List.map_map, List.length_map] at total
  have known : (∀ part ∈ parts, (count part).isSome) ↔
      ∀ part ∈ partsOf place stored row.slot row.hash, (count part.body).isSome := by
    simp [perm.mem_iff]
  rw [known] at total
  exact total

theorem Formed.missing_iff {Value : Type} {absorb : Body → Body → Body} {value : Body → Option Value}
    (fills : ∀ first second, (value (absorb first second)).isSome) {place : String → String}
    {stored table : List (Keyed Slot Body)} (formed : Formed absorb place stored table)
    {row : Keyed Slot Body} (member : row ∈ table) :
    (value row.body = none ↔ ∃ part ∈ partsOf place stored row.slot row.hash, value part.body = none) ↔
      1 < (partsOf place stored row.slot row.hash).length →
        ∀ part ∈ partsOf place stored row.slot row.hash, (value part.body).isSome := by
  obtain ⟨parts, made, perm⟩ := formed.made row member
  have missing := made.missing_iff fills
  rw [perm.length_eq, List.length_map] at missing
  have left_out : (∃ part ∈ parts, value part = none) ↔
      ∃ part ∈ partsOf place stored row.slot row.hash, value part.body = none := by
    simp [perm.mem_iff]
  have present : (∀ part ∈ parts, (value part).isSome) ↔
      ∀ part ∈ partsOf place stored row.slot row.hash, (value part.body).isSome := by
    simp [perm.mem_iff]
  rw [left_out, present] at missing
  exact missing

theorem windows_adds : Adds Window.absorb Window.callsDelta ∧ Adds Window.absorb Window.execTimeDelta :=
  ⟨fun _ _ => rfl, fun _ _ => rfl⟩

section Evidence

variable (hashSql : String → String) {hash : String}

theorem evidenceCount_worth {count : Option Int} (worth : ∀ value, count = some value → 0 < value) :
    evidenceCount (count.map Count.number) = some count := by
  cases count with
  | none => rfl
  | some value =>
    have positive := worth value rfl
    simp only [Option.map_some, evidenceCount]
    rw [if_neg (by omega)]

theorem mergeReport_same {sql : String} (named : sql ≠ "") (hashed : hashSql sql = hash) (total : Option Int)
    {count : Option Int} (worth : ∀ value, count = some value → 0 < value) :
    mergeReport hashSql [(hash, total)] ⟨some sql, count.map Count.number⟩ =
      [(hash, Option.map₂ (· + ·) total count)] := by
  simp only [mergeReport, if_neg named, evidenceCount_worth worth, hashed]
  simp [mergeCount]

theorem mergeReport_first {sql : String} (named : sql ≠ "") (hashed : hashSql sql = hash)
    {count : Option Int} (worth : ∀ value, count = some value → 0 < value) :
    mergeReport hashSql [] ⟨some sql, count.map Count.number⟩ = [(hash, count)] := by
  simp only [mergeReport, if_neg named, evidenceCount_worth worth, hashed]
  simp [mergeCount]

/-- The first report is of the first count, the others of the others. -/
theorem ReportsOf.cons {count : Option Int} {counts : List (Option Int)} {report : Report} {rest : List Report}
    (same : ReportsOf hashSql hash (count :: counts) (report :: rest)) :
    (∃ sql, report = ⟨some sql, count.map Count.number⟩ ∧ sql ≠ "" ∧ hashSql sql = hash) ∧
      ReportsOf hashSql hash counts rest := by
  obtain ⟨listed, texts⟩ := same
  simp only [List.map_cons, List.cons.injEq] at listed
  refine ⟨?_, listed.2, fun other later => texts other (List.mem_cons_of_mem _ later)⟩
  obtain ⟨sql, text, named, hashed⟩ := texts report (by simp)
  refine ⟨sql, ?_, named, hashed⟩
  cases report
  simp only at text listed
  rw [text, listed.1]

theorem foldl_mergeReport {counts : List (Option Int)} {reports : List Report}
    (same : ReportsOf hashSql hash counts reports) (worth : ∀ count ∈ counts, ∀ value, count = some value → 0 < value)
    (total : Option Int) :
    reports.foldl (mergeReport hashSql) [(hash, total)] =
      [(hash, Option.map₂ (· + ·) total (knownTotal counts))] := by
  induction reports generalizing counts total with
  | nil =>
    cases counts with
    | nil => cases total <;> simp
    | cons count rest => simp [ReportsOf] at same
  | cons report rest ih =>
    cases counts with
    | nil => simp [ReportsOf] at same
    | cons count others =>
      obtain ⟨⟨sql, made, named, hashed⟩, later⟩ := same.cons
      rw [List.foldl_cons, made, mergeReport_same hashSql named hashed total (worth count (by simp))]
      rw [ih later (fun other listed => worth other (List.mem_cons_of_mem _ listed))]
      rw [knownTotal_cons, Option.map₂_assoc add_assoc]

theorem knownTotal_positive {counts : List (Option Int)} (some_part : counts ≠ [])
    (worth : ∀ count ∈ counts, ∀ value, count = some value → 0 < value) :
    ∀ value, knownTotal counts = some value → 0 < value := by
  induction counts with
  | nil => exact absurd rfl some_part
  | cons count rest ih =>
    intro value known
    rw [knownTotal_cons, Option.map₂_eq_some_iff] at known
    obtain ⟨first, others, here, there, rfl⟩ := known
    have positive := worth count (by simp) first here
    by_cases last : rest = []
    · subst last
      have zero : 0 = others := by simpa using there
      omega
    · have later := ih last (fun other listed => worth other (List.mem_cons_of_mem _ listed)) others there
      omega

/-- Reports of one statement come to one row with their total. -/
theorem evidence_of_one {counts : List (Option Int)} {reports : List Report}
    (same : ReportsOf hashSql hash counts reports) (some_part : counts ≠ [])
    (worth : ∀ count ∈ counts, ∀ value, count = some value → 0 < value) {target : String} (named : target ≠ "")
    (lane runId : String) (startedAt : ℚ) (endedAt : Option ℚ) :
    executionEvidenceRows hashSql (some target) reports lane runId startedAt endedAt =
      [⟨target, hash, lane, runId, startedAt, endedAt, knownTotal counts⟩] := by
  have merged : reports.foldl (mergeReport hashSql) [] = [(hash, knownTotal counts)] := by
    match counts, reports with
    | [], _ => exact absurd rfl some_part
    | count :: others, [] => simp [ReportsOf] at same
    | count :: others, report :: rest =>
      obtain ⟨⟨sql, made, sql_named, hashed⟩, later⟩ := same.cons
      rw [List.foldl_cons, made, mergeReport_first hashSql sql_named hashed (worth count (by simp))]
      exact foldl_mergeReport hashSql later
        (fun other listed => worth other (List.mem_cons_of_mem _ listed)) count
  have positive : (knownTotal counts).all (fun count => decide (0 < count)) = true := by
    have bound := knownTotal_positive some_part worth
    cases known : knownTotal counts with
    | none => rfl
    | some value => simpa using bound value known
  simp [executionEvidenceRows, named, merged, positive]

end Evidence

/-- Counts stay totals, unknown ones stay unknown and open executions stay open, just when no window or
    execution that the mapping brings to another's key has an unknown count or is open. -/
theorem rekey_preserves_iff (hashSql : String → String) {history : History}
    (unique : Unique history.windows ∧ Unique history.executions) (mapping : List (String × String)) :
    (Preserved WindowKept (effectivePairs mapping) history.windows (rekeyIdentities history mapping).1.windows ∧
      Preserved (ExecutionKept hashSql) (effectivePairs mapping) history.executions
        (rekeyIdentities history mapping).1.executions) ↔
      (∀ first ∈ history.windows, ∀ second ∈ history.windows, Collide (effectivePairs mapping) first second →
        first.body.callsDelta.isSome ∧ first.body.execTimeDelta.isSome) ∧
      ∀ first ∈ history.executions, ∀ second ∈ history.executions,
        Collide (effectivePairs mapping) first second →
        first.body.execCount.isSome ∧ first.body.endedAt.isSome := by
  have windows := Formed.moves (effectivePairs mapping) effectivePairs_differ
    (Formed.start Window.absorb unique.1)
  have executions := Formed.moves (effectivePairs mapping) effectivePairs_differ
    (Formed.start Execution.absorb unique.2)
  simp only [id] at windows executions
  rw [← rekeyIdentities_windows] at windows
  rw [← rekeyIdentities_executions] at executions
  apply and_congr
  · rw [← several_iff unique.1 windows.covered]
    constructor
    · intro preserved row member several part listed
      have kept := preserved.2.2 row member
      exact ⟨(windows.total_iff windows_adds.1 member).mp kept.1 several part listed,
        (windows.total_iff windows_adds.2 member).mp kept.2 several part listed⟩
    · intro known
      refine ⟨windows.unique, windows.covered, fun row member => ⟨?_, ?_⟩⟩
      · exact (windows.total_iff windows_adds.1 member).mpr
          fun several part listed => (known row member several part listed).1
      · exact (windows.total_iff windows_adds.2 member).mpr
          fun several part listed => (known row member several part listed).2
  · rw [← several_iff unique.2 executions.covered]
    have adds : Adds Execution.absorb Execution.execCount := fun _ _ => rfl
    have fills : ∀ first second, (Execution.absorb first second).endedAt.isSome := fun _ _ => rfl
    constructor
    · intro preserved row member several part listed
      have kept := preserved.2.2 row member
      exact ⟨(executions.total_iff adds member).mp kept.1 several part listed,
        (executions.missing_iff fills member).mp kept.2.1 several part listed⟩
    · intro known
      refine ⟨executions.unique, executions.covered, fun row member => ?_⟩
      have total := (executions.total_iff adds member).mpr
        fun several part listed => (known row member several part listed).1
      refine ⟨total, (executions.missing_iff fills member).mpr
        fun several part listed => (known row member several part listed).2, ?_⟩
      intro reports same worth named
      rw [total]
      apply evidence_of_one hashSql same _ _ named
      · obtain ⟨parts, made, perm⟩ := executions.made row member
        have long := made.length_pos
        rw [perm.length_eq, List.length_map] at long
        intro empty
        rw [List.map_eq_nil_iff] at empty
        rw [empty] at long
        exact absurd long (by decide)
      · intro count listed value here
        obtain ⟨part, inside, rfl⟩ := List.mem_map.mp listed
        exact worth part inside value here

/-- Two closed spans of one run with known counts, and two windows, under hashes that a migration joins. -/
def knownSpans : History :=
  ⟨[], [⟨("shop", 60), "a", ⟨0, some 4, some 2, none, "live", "full", "clean"⟩, ["a"]⟩,
      ⟨("shop", 60), "b", ⟨0, some 1, some 1, none, "live", "full", "clean"⟩, ["b"]⟩],
    [⟨("shop", "r1"), "a", ⟨"ask", 0, some 8, some 2⟩, ["a"]⟩,
      ⟨("shop", "r1"), "b", ⟨"ask", 0, some 9, some 3⟩, ["b"]⟩]⟩

theorem rekey_preserves_known :
    Preserved WindowKept (effectivePairs [("a", "b")]) knownSpans.windows
        (rekeyIdentities knownSpans [("a", "b")]).1.windows ∧
      Preserved (ExecutionKept id) (effectivePairs [("a", "b")]) knownSpans.executions
        (rekeyIdentities knownSpans [("a", "b")]).1.executions :=
  (rekey_preserves_iff id (by decide +kernel) [("a", "b")]).mpr (by decide +kernel)

/-- Two runs of one statement under hashes that a migration joins: neither count is known, and one run is
    still open. -/
def twoSpans : History :=
  ⟨[], [], [⟨("shop", "r1"), "a", ⟨"ask", 0, none, none⟩, ["a"]⟩, ⟨("shop", "r1"), "b", ⟨"ask", 0, some 9, none⟩, ["b"]⟩]⟩

theorem spans_unique : Unique twoSpans.windows ∧ Unique twoSpans.executions := by decide +kernel

/-- Re-keyed onto one hash, they are a run that ended and executed the statement zero times. -/
theorem rekey_forgets : ¬ ∀ (history : History) (mapping : List (String × String)),
    Unique history.windows ∧ Unique history.executions →
    Preserved WindowKept (effectivePairs mapping) history.windows (rekeyIdentities history mapping).1.windows ∧
      Preserved (ExecutionKept id) (effectivePairs mapping) history.executions
        (rekeyIdentities history mapping).1.executions := by
  intro preserved
  have kept := (preserved twoSpans [("a", "b")] spans_unique).2.2.2
    ⟨("shop", "r1"), "b", ⟨"ask", 0, some 9, some 0⟩, ["b", "a"]⟩
  have listed : (rekeyIdentities twoSpans [("a", "b")]).1.executions =
      [⟨("shop", "r1"), "b", ⟨"ask", 0, some 9, some 0⟩, ["b", "a"]⟩] := rfl
  have count := (kept (by rw [listed]; simp)).1
  exact absurd count (by decide +kernel)

end Rdst.Observation.RekeyEvidence
