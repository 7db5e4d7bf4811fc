import Mathlib.Data.Rat.Defs
import Mathlib.Algebra.Order.Ring.Unbundled.Rat
import Mathlib.Data.List.Sort
import Rdst.Lib.Assoc

namespace Rdst.Actions

open Assoc

inductive ActionType
  | addIndex
  | dropIndex
  | rewriteQuery
  | changeSetting
  | runMaintenance
  | tryCaching
deriving DecidableEq

inductive ActionState
  | open
  | snoozed
  | dismissed
  | applied
  | confirmed
  | noEffect
  | retired
  | undone
deriving DecidableEq

inductive ClosedReason
  | user
  | dismissed
  | undone
  | evidenceFaded
  | jevStale
  | cleared
  | indexAdded
  | indexDropped
  | settingChanged
  | queryReplaced
deriving DecidableEq

inductive Relevance
  | relevant
  | stale
deriving DecidableEq

/-- What a pass stored of Jev's read of an action. -/
structure Judged where
  priority : ℚ
  relevance : Relevance
  at_ : Int
deriving DecidableEq

/-- What `verify` measured. -/
structure Measured where
  before : ℚ
  after : ℚ
  calls : Nat
  at_ : Int
deriving DecidableEq

/-- The part of a payload that the passes read or write. -/
structure Payload where
  title : String
  table : String
  columns : List String
  indexName : String
  setting : Option String
  queries : List String
  priority : Option Nat
  jev : Option Judged
  result : Option Measured
deriving DecidableEq

inductive Verb
  | setAside
  | snooze
  | dismiss
  | reopen
  | bringBack
  | didIt
  | undidIt
deriving DecidableEq

/-- A row of `action_event`, but for the id of its action and its time. -/
inductive ActionEvent
  | opened (score : ℚ)
  | reopened (was : ActionState)
  | applied (reason : ClosedReason) (detail : String)
  | retired (byJev : Bool)
  | verified (state : ActionState) (result : Measured)
  | verb (name : Verb) (until_ : Option Int) (reason : Option String)
deriving DecidableEq

/-- A row of `action`, of one target. -/
structure ActionRow where
  id : Nat
  key : String
  type : ActionType
  state : ActionState
  score : ℚ
  payload : Payload
  why : Option String
  openedAt : Int
  updatedAt : Int
  closedAt : Option Int
  closedReason : Option ClosedReason
  snoozedUntil : Option Int
  dismissReason : Option String
deriving DecidableEq

/-- A row as a pass hands it to `write_actions`. -/
structure Write where
  key : String
  type : ActionType
  state : ActionState
  score : ℚ
  payload : Payload
  why : Option String
  openedAt : Int
  closedAt : Option Int
  closedReason : Option ClosedReason
  snoozedUntil : Option Int
  dismissReason : Option String
  events : List ActionEvent
deriving DecidableEq

/-- The actions of one target, by key, and their events. -/
structure Store where
  rows : Dict String ActionRow
  nextId : Nat
  events : List (Nat × Int × ActionEvent)

def Store.new : Store := ⟨∅, 1, []⟩

/-- A write of a row as it was read. -/
def ActionRow.write (row : ActionRow) : Write where
  key := row.key
  type := row.type
  state := row.state
  score := row.score
  payload := row.payload
  why := row.why
  openedAt := row.openedAt
  closedAt := row.closedAt
  closedReason := row.closedReason
  snoozedUntil := row.snoozedUntil
  dismissReason := row.dismissReason
  events := []

/-- The row that a write leaves, over the id, the opening and the explanation that stood. -/
def Write.row (w : Write) (now : Int) (id : Nat) (openedAt : Int) (why : Option String) : ActionRow where
  id := id
  key := w.key
  type := w.type
  state := w.state
  score := w.score
  payload := w.payload
  why := w.why.or why
  openedAt := openedAt
  updatedAt := now
  closedAt := w.closedAt
  closedReason := w.closedReason
  snoozedUntil := w.snoozedUntil
  dismissReason := w.dismissReason

def Store.write (s : Store) (now : Int) (w : Write) : Store :=
  let log id := s.events ++ w.events.map fun event => (id, now, event)
  match s.rows.lookup w.key with
  | some row => ⟨s.rows.insert w.key (w.row now row.id row.openedAt row.why), s.nextId, log row.id⟩
  | none => ⟨s.rows.insert w.key (w.row now s.nextId w.openedAt none), s.nextId + 1, log s.nextId⟩

/-- One transaction. -/
def writeActions (s : Store) (now : Int) (writes : List Write) : Store := writes.foldl (fun s w => s.write now w) s

def openStates : List ActionState := [.open, .snoozed]

/-- The rows in some states, best first. -/
def Store.actions (s : Store) (states : List ActionState) : List ActionRow :=
  ((s.rows.entries.map Sigma.snd).filter fun row => row.state ∈ states).insertionSort fun a b =>
    b.score < a.score ∨ a.score = b.score ∧ a.id ≤ b.id

/-- A row stands under its own key. -/
def Store.Keyed (s : Store) : Prop := ∀ key row, s.rows.lookup key = some row → row.key = key

@[simp] theorem ActionRow.write_key (row : ActionRow) : row.write.key = row.key := rfl

@[simp] theorem Write.row_key (w : Write) (now : Int) (id : Nat) (openedAt : Int) (why : Option String) :
    (w.row now id openedAt why).key = w.key := rfl

/-- A write changes the row of its key only, and leaves there the state and the dates that it carries. -/
theorem Store.lookup_write (s : Store) (now : Int) (w : Write) (key : String) :
    (s.write now w).rows.lookup key =
      if key = w.key then
        some (match s.rows.lookup key with
          | some row => w.row now row.id row.openedAt row.why
          | none => w.row now s.nextId w.openedAt none)
      else s.rows.lookup key := by
  unfold Store.write
  by_cases here : key = w.key
  · subst here
    cases found : s.rows.lookup w.key <;> simp
  · cases found : s.rows.lookup w.key <;> simp [here]

theorem writeActions_cons (s : Store) (now : Int) (w : Write) (rest : List Write) :
    writeActions s now (w :: rest) = writeActions (s.write now w) now rest := rfl

theorem lookup_writeActions_absent {s : Store} {now : Int} {writes : List Write} {key : String}
    (absent : ∀ w ∈ writes, w.key ≠ key) : (writeActions s now writes).rows.lookup key = s.rows.lookup key := by
  induction writes generalizing s with
  | nil => rfl
  | cons w rest ih =>
    rw [writeActions_cons, ih fun other member => absent other (List.mem_cons_of_mem w member), Store.lookup_write,
      if_neg (Ne.symm (absent w List.mem_cons_self))]

/-- What stands at a key after a transaction was written by it or stood there before. -/
theorem lookup_writeActions {s : Store} {now : Int} {writes : List Write} {key : String} {row : ActionRow}
    (found : (writeActions s now writes).rows.lookup key = some row) :
    (∃ w ∈ writes, w.key = key ∧ ∃ id openedAt why, row = w.row now id openedAt why) ∨
      (∀ w ∈ writes, w.key ≠ key) ∧ s.rows.lookup key = some row := by
  induction writes generalizing s with
  | nil => exact .inr ⟨by simp, found⟩
  | cons w rest ih =>
    rcases ih found with ⟨other, member, same, parts⟩ | ⟨absent, before⟩
    · exact .inl ⟨other, List.mem_cons_of_mem w member, same, parts⟩
    · rw [Store.lookup_write] at before
      by_cases here : key = w.key
      · left
        refine ⟨w, List.mem_cons_self, here.symm, ?_⟩
        rw [if_pos here, Option.some.injEq] at before
        rw [← before]
        cases s.rows.lookup key with
        | some row => exact ⟨row.id, row.openedAt, row.why, rfl⟩
        | none => exact ⟨s.nextId, w.openedAt, none, rfl⟩
      · right
        rw [if_neg here] at before
        refine ⟨?_, before⟩
        intro other member
        rcases List.mem_cons.mp member with rfl | later
        · exact Ne.symm here
        · exact absent other later

/-- No row goes. -/
theorem writeActions_keeps {s : Store} {now : Int} {writes : List Write} {key : String}
    (there : s.rows.lookup key ≠ none) : (writeActions s now writes).rows.lookup key ≠ none := by
  induction writes generalizing s with
  | nil => exact there
  | cons w rest ih =>
    apply ih
    rw [Store.lookup_write]
    split
    · exact Option.some_ne_none _
    · exact there

theorem writeActions_keyed {s : Store} (keyed : s.Keyed) (now : Int) (writes : List Write) :
    (writeActions s now writes).Keyed := by
  intro key row found
  rcases lookup_writeActions found with ⟨w, -, same, -, -, -, rfl⟩ | ⟨-, before⟩
  · exact same
  · exact keyed key row before

end Rdst.Actions
