import Mathlib.Data.Rat.Defs
import Mathlib.Algebra.Order.Ring.Rat
import Rdst.Lib.Renaming

namespace Rdst.Observation

open Renaming

set_option linter.unusedSectionVars false

/-- A row keyed by an identity's hash. `sources` are the hashes under which what it holds was stored when
    the re-keying began. -/
structure Keyed (Slot Body : Type) where
  slot : Slot
  hash : String
  body : Body
  sources : List String

/-- The columns of `recent_observation` beside target, hash and window end. -/
structure Window where
  windowStart : ℚ
  callsDelta : Option Int
  execTimeDelta : Option ℚ
  approximateQps : Option ℚ
  freshness : String
  completeness : String
  attribution : String

/-- The columns of `rdst_execution` beside target, run and hash. -/
structure Execution where
  lane : String
  startedAt : ℚ
  endedAt : Option ℚ
  execCount : Option Int

def Window.absorb (stored excluded : Window) : Window :=
  { stored with
    windowStart := min stored.windowStart excluded.windowStart
    callsDelta := some (stored.callsDelta.getD 0 + excluded.callsDelta.getD 0)
    execTimeDelta := some (stored.execTimeDelta.getD 0 + excluded.execTimeDelta.getD 0)
    approximateQps := some (max (stored.approximateQps.getD 0) (excluded.approximateQps.getD 0)) }

def Execution.absorb (stored excluded : Execution) : Execution :=
  { stored with
    startedAt := min stored.startedAt excluded.startedAt
    endedAt := some (max (stored.endedAt.getD 0) (excluded.endedAt.getD 0))
    execCount := some (stored.execCount.getD 0 + excluded.execCount.getD 0) }

/-- The three tables of cache.db that name an identity. -/
structure History where
  aliases : List (Keyed (String × String × String) Unit)
  windows : List (Keyed (String × ℚ) Window)
  executions : List (Keyed (String × String) Execution)

variable {Slot Body : Type} [DecidableEq Slot]

/-- `INSERT ... ON CONFLICT DO UPDATE`: a row that exists under the new hash takes in what arrives. -/
def insertOrAbsorb (absorb : Body → Body → Body) (new : String) (table : List (Keyed Slot Body))
    (row : Keyed Slot Body) : List (Keyed Slot Body) :=
  if ∃ stored ∈ table, stored.slot = row.slot ∧ stored.hash = new then
    table.map fun stored =>
      if stored.slot = row.slot ∧ stored.hash = new then
        { stored with body := absorb stored.body row.body, sources := stored.sources ++ row.sources }
      else stored
  else table ++ [{ row with hash := new }]

/-- Move the rows of one hash to another and count those deleted. -/
def moveRows (absorb : Body → Body → Body) (old new : String) (table : List (Keyed Slot Body)) :
    List (Keyed Slot Body) × Nat :=
  let merged := (table.filter fun row => row.hash = old).foldl (insertOrAbsorb absorb new) table
  (merged.filter fun row => row.hash ≠ old, (merged.filter fun row => row.hash = old).length)

def renameRows (old new : String) (table : List (Keyed Slot Body)) : List (Keyed Slot Body) × Nat :=
  (table.map fun row => if row.hash = old then { row with hash := new } else row,
    (table.filter fun row => row.hash = old).length)

/-- The moves of a mapping that `rekey_identities` carries out. -/
def effectivePairs (mapping : List (String × String)) : List (String × String) :=
  mapping.filter fun move => move.1 ≠ "" ∧ move.2 ≠ "" ∧ move.1 ≠ move.2

def rekeyPair (history : History) (move : String × String) : History × Nat :=
  let aliases := renameRows move.1 move.2 history.aliases
  let windows := moveRows Window.absorb move.1 move.2 history.windows
  let executions := moveRows Execution.absorb move.1 move.2 history.executions
  (⟨aliases.1, windows.1, executions.1⟩, aliases.2 + windows.2 + executions.2)

def rekeyIdentities (history : History) (mapping : List (String × String)) : History × Nat :=
  (effectivePairs mapping).foldl (fun done move =>
    let next := rekeyPair done.1 move
    (next.1, done.2 + next.2)) (history, 0)

/-- Every row stands where `place` puts the hashes that it came from. -/
def Tracks (place : String → String) (table : List (Keyed Slot Body)) : Prop :=
  ∀ row ∈ table, ∀ source ∈ row.sources, row.hash = place source

def Holds (table : List (Keyed Slot Body)) (slot : Slot) (source : String) : Prop :=
  ∃ row ∈ table, row.slot = slot ∧ source ∈ row.sources

/-- No row goes, none changes its key, and each keeps its sources. -/
def Grows (before after : List (Keyed Slot Body)) : Prop :=
  ∀ row ∈ before, ∃ next ∈ after, next.slot = row.slot ∧ next.hash = row.hash ∧ row.sources ⊆ next.sources

def renamed (old new : String) (hash : String) : String := if hash = old then new else hash

theorem Grows.trans {first second third : List (Keyed Slot Body)} (grows : Grows first second)
    (again : Grows second third) : Grows first third := by
  intro row member
  obtain ⟨next, inside, slot, hash, sources⟩ := grows row member
  obtain ⟨last, here, slot', hash', sources'⟩ := again next inside
  exact ⟨last, here, slot'.trans slot, hash'.trans hash, fun source carried => sources' (sources carried)⟩

theorem insertOrAbsorb_grows (absorb : Body → Body → Body) (new : String) (table : List (Keyed Slot Body))
    (row : Keyed Slot Body) : Grows table (insertOrAbsorb absorb new table row) := by
  intro stored member
  unfold insertOrAbsorb
  split
  · refine ⟨_, List.mem_map_of_mem member, ?_⟩
    split <;> simp
  · exact ⟨stored, List.mem_append_left _ member, rfl, rfl, fun _ carried => carried⟩

theorem insertOrAbsorb_takes (absorb : Body → Body → Body) (new : String) (table : List (Keyed Slot Body))
    (row : Keyed Slot Body) : ∃ next ∈ insertOrAbsorb absorb new table row,
      next.slot = row.slot ∧ next.hash = new ∧ row.sources ⊆ next.sources := by
  unfold insertOrAbsorb
  by_cases stands : ∃ stored ∈ table, stored.slot = row.slot ∧ stored.hash = new
  · rw [if_pos stands]
    obtain ⟨stored, member, same⟩ := stands
    refine ⟨_, List.mem_map_of_mem member, ?_⟩
    rw [if_pos same]
    exact ⟨same.1, same.2, List.subset_append_right _ _⟩
  · rw [if_neg stands]
    exact ⟨{ row with hash := new }, by simp, rfl, rfl, fun _ carried => carried⟩

theorem foldl_grows (absorb : Body → Body → Body) (new : String) (moving table : List (Keyed Slot Body)) :
    Grows table (moving.foldl (insertOrAbsorb absorb new) table) := by
  induction moving generalizing table with
  | nil => exact fun row member => ⟨row, member, rfl, rfl, fun _ carried => carried⟩
  | cons row rest ih => exact (insertOrAbsorb_grows absorb new table row).trans (ih _)

theorem foldl_takes (absorb : Body → Body → Body) (new : String) (moving table : List (Keyed Slot Body)) :
    ∀ row ∈ moving, ∃ next ∈ moving.foldl (insertOrAbsorb absorb new) table,
      next.slot = row.slot ∧ next.hash = new ∧ row.sources ⊆ next.sources := by
  induction moving generalizing table with
  | nil => simp
  | cons first rest ih =>
    intro row member
    rcases List.mem_cons.mp member with rfl | later
    · obtain ⟨taken, inside, slot, hash, sources⟩ := insertOrAbsorb_takes absorb new table row
      obtain ⟨next, here, slot', hash', sources'⟩ := foldl_grows absorb new rest _ taken inside
      exact ⟨next, here, slot'.trans slot, hash'.trans hash, fun source carried => sources' (sources carried)⟩
    · exact ih _ row later

/-- While rows are taken in, what stands at the new hash came from there or from the old one. -/
theorem insertOrAbsorb_origin (absorb : Body → Body → Body) {old new : String} {place : String → String}
    {table : List (Keyed Slot Body)} {row : Keyed Slot Body}
    (origin : ∀ stored ∈ table, ∀ source ∈ stored.sources,
      stored.hash = place source ∨ stored.hash = new ∧ place source = old)
    (from_old : ∀ source ∈ row.sources, place source = old) :
    ∀ stored ∈ insertOrAbsorb absorb new table row, ∀ source ∈ stored.sources,
      stored.hash = place source ∨ stored.hash = new ∧ place source = old := by
  unfold insertOrAbsorb
  intro stored member source carried
  split at member
  · obtain ⟨first, inside, rfl⟩ := List.mem_map.mp member
    by_cases same : first.slot = row.slot ∧ first.hash = new
    · rw [if_pos same] at carried ⊢
      rcases List.mem_append.mp carried with own | arrived
      · exact origin first inside source own
      · exact .inr ⟨same.2, from_old source arrived⟩
    · rw [if_neg same] at carried ⊢
      exact origin first inside source carried
  · rcases List.mem_append.mp member with inside | last
    · exact origin stored inside source carried
    · rw [List.mem_singleton.mp last] at carried ⊢
      exact .inr ⟨rfl, from_old source carried⟩

theorem moveRows_tracks (absorb : Body → Body → Body) {old new : String} {place : String → String}
    {table : List (Keyed Slot Body)} (tracks : Tracks place table) :
    Tracks (fun source => renamed old new (place source)) (moveRows absorb old new table).1 := by
  have origin : ∀ moving : List (Keyed Slot Body), (∀ row ∈ moving, ∀ source ∈ row.sources, place source = old) →
      ∀ start : List (Keyed Slot Body), (∀ stored ∈ start, ∀ source ∈ stored.sources,
        stored.hash = place source ∨ stored.hash = new ∧ place source = old) →
      ∀ stored ∈ moving.foldl (insertOrAbsorb absorb new) start, ∀ source ∈ stored.sources,
        stored.hash = place source ∨ stored.hash = new ∧ place source = old := by
    intro moving
    induction moving with
    | nil => exact fun _ start held => held
    | cons row rest ih =>
      intro from_old start held
      exact ih (fun other later => from_old other (List.mem_cons_of_mem _ later)) _
        (insertOrAbsorb_origin absorb held (from_old row (by simp)))
  intro row member source carried
  rw [moveRows, List.mem_filter, decide_eq_true_eq] at member
  have placed := origin (table.filter fun row => row.hash = old) ?_ table
    (fun stored inside source here => .inl (tracks stored inside source here)) row member.1 source carried
  · show row.hash = renamed old new (place source)
    unfold renamed
    rcases placed with stays | ⟨moved, was_old⟩
    · rw [if_neg (stays ▸ member.2), stays]
    · rw [if_pos was_old, moved]
  · intro moving listed source' here
    rw [List.mem_filter, decide_eq_true_eq] at listed
    rw [← tracks moving listed.1 source' here, listed.2]

theorem moveRows_holds (absorb : Body → Body → Body) {old new : String} (differ : old ≠ new)
    {table : List (Keyed Slot Body)} {slot : Slot} {source : String} (held : Holds table slot source) :
    Holds (moveRows absorb old new table).1 slot source := by
  obtain ⟨row, member, same, carried⟩ := held
  by_cases moves : row.hash = old
  · obtain ⟨next, inside, slot', hash, sources⟩ := foldl_takes absorb new (table.filter fun row => row.hash = old)
      table row (List.mem_filter.mpr ⟨member, by simpa using moves⟩)
    refine ⟨next, List.mem_filter.mpr ⟨inside, ?_⟩, slot'.trans same, sources carried⟩
    simpa [hash] using differ.symm
  · obtain ⟨next, inside, slot', hash, sources⟩ := foldl_grows absorb new
      (table.filter fun row => row.hash = old) table row member
    refine ⟨next, List.mem_filter.mpr ⟨inside, ?_⟩, slot'.trans same, sources carried⟩
    simpa [hash] using moves

theorem renameRows_tracks {old new : String} {place : String → String} {table : List (Keyed Slot Body)}
    (tracks : Tracks place table) :
    Tracks (fun source => renamed old new (place source)) (renameRows old new table).1 := by
  intro row member source carried
  obtain ⟨first, inside, rfl⟩ := List.mem_map.mp member
  show (if first.hash = old then { first with hash := new } else first).hash = renamed old new (place source)
  unfold renamed
  by_cases moves : first.hash = old
  · rw [if_pos moves] at carried ⊢
    have here := tracks first inside source carried
    rw [← here, if_pos moves]
  · rw [if_neg moves] at carried ⊢
    have here := tracks first inside source carried
    rw [← here, if_neg moves]

theorem renameRows_holds {old new : String} {table : List (Keyed Slot Body)} {slot : Slot} {source : String}
    (held : Holds table slot source) : Holds (renameRows old new table).1 slot source := by
  obtain ⟨row, member, same, carried⟩ := held
  refine ⟨_, List.mem_map_of_mem member, ?_⟩
  split <;> exact ⟨same, carried⟩

def History.Tracks (place : String → String) (history : History) : Prop :=
  Observation.Tracks place history.aliases ∧ Observation.Tracks place history.windows ∧
    Observation.Tracks place history.executions

/-- What the first history has stored, the second one has in the same slot. -/
def History.Keeps (first second : History) : Prop :=
  (∀ slot source, Holds first.aliases slot source → Holds second.aliases slot source) ∧
    (∀ slot source, Holds first.windows slot source → Holds second.windows slot source) ∧
    ∀ slot source, Holds first.executions slot source → Holds second.executions slot source

theorem History.Keeps.trans {first second third : History} (keeps : first.Keeps second)
    (again : second.Keeps third) : first.Keeps third :=
  ⟨fun slot source held => again.1 slot source (keeps.1 slot source held),
    fun slot source held => again.2.1 slot source (keeps.2.1 slot source held),
    fun slot source held => again.2.2 slot source (keeps.2.2 slot source held)⟩

theorem rekeyPair_tracks {history : History} {place : String → String} (tracks : history.Tracks place)
    (move : String × String) :
    (rekeyPair history move).1.Tracks fun source => renamed move.1 move.2 (place source) :=
  ⟨renameRows_tracks tracks.1, moveRows_tracks _ tracks.2.1, moveRows_tracks _ tracks.2.2⟩

theorem rekeyPair_keeps (history : History) {move : String × String} (differ : move.1 ≠ move.2) :
    history.Keeps (rekeyPair history move).1 :=
  ⟨fun _ _ held => renameRows_holds held, fun _ _ held => moveRows_holds _ differ held,
    fun _ _ held => moveRows_holds _ differ held⟩

/-- One pair after another, every observation goes where following the pairs takes its hash, and none is
    lost on the way. -/
theorem rekeyIdentities_follows {history : History} {place : String → String} (tracks : history.Tracks place)
    (mapping : List (String × String)) :
    ((rekeyIdentities history mapping).1.Tracks fun source => follow (effectivePairs mapping) (place source)) ∧
      history.Keeps (rekeyIdentities history mapping).1 := by
  have run : ∀ (pairs : List (String × String)) (done : History × Nat) (place : String → String),
      (∀ move ∈ pairs, move.1 ≠ move.2) → done.1.Tracks place →
      ((pairs.foldl (fun done move => ((rekeyPair done.1 move).1, done.2 + (rekeyPair done.1 move).2))
        done).1.Tracks fun source => follow pairs (place source)) ∧
        done.1.Keeps (pairs.foldl (fun done move =>
          ((rekeyPair done.1 move).1, done.2 + (rekeyPair done.1 move).2)) done).1 := by
    intro pairs
    induction pairs with
    | nil => exact fun done place _ tracks => ⟨tracks, ⟨fun _ _ held => held, fun _ _ held => held,
        fun _ _ held => held⟩⟩
    | cons move rest ih =>
      intro done place differ tracks
      have next := ih ((rekeyPair done.1 move).1, done.2 + (rekeyPair done.1 move).2) _
        (fun other later => differ other (List.mem_cons_of_mem _ later)) (rekeyPair_tracks tracks move)
      exact ⟨next.1, (rekeyPair_keeps done.1 (differ move (by simp))).trans next.2⟩
  refine run (effectivePairs mapping) (history, 0) place ?_ tracks
  intro move member
  have test := (List.mem_filter.mp member).2
  simp only [decide_eq_true_eq] at test
  exact test.2.2

/-- The moves left out would not have taken a hash anywhere else. -/
theorem follow_effectivePairs {mapping : List (String × String)} (named : ∀ move ∈ mapping, move.2 ≠ "")
    {hash : String} (known : hash ≠ "") : follow (effectivePairs mapping) hash = follow mapping hash := by
  induction mapping generalizing hash with
  | nil => rfl
  | cons move rest ih =>
    have later : ∀ {hash : String}, hash ≠ "" → follow (effectivePairs rest) hash = follow rest hash :=
      ih fun other inside => named other (List.mem_cons_of_mem _ inside)
    have target := named move (by simp)
    rw [follow_cons]
    by_cases effective : move.1 ≠ "" ∧ move.2 ≠ "" ∧ move.1 ≠ move.2
    · rw [effectivePairs, List.filter_cons_of_pos (by simpa using effective), follow_cons]
      refine later ?_
      split <;> assumption
    · rw [effectivePairs, List.filter_cons_of_neg (by simpa using effective)]
      by_cases here : hash = move.1
      · have idle : move.1 = move.2 := by
          by_contra differ
          exact effective ⟨here ▸ known, target, differ⟩
        rw [if_pos here, ← idle, ← here]
        exact later known
      · rw [if_neg here]
        exact later known

end Rdst.Observation
