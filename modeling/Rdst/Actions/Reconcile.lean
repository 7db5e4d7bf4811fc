import Rdst.Lib.Run
import Rdst.Actions.Store

namespace Rdst.Actions

open Assoc Machine

structure Candidate where
  key : String
  type : ActionType
  score : ℚ
  payload : Payload
deriving DecidableEq

/-- What `_applied` and `_maintenance_done` read of the other tables. -/
structure Evidence where
  /-- The full index of the snapshot that leads with the columns. -/
  indexPresent : String → List String → Option String
  indexListed : String → String → Bool
  /-- The old value of the first and the new one of the last change of a setting since a time. -/
  settingChange : String → Int → Option (String × String)
  movedAsAsked : String → String → String → Bool
  calls : String → Int → Option Int → Nat
  maintenanceDone : ActionRow → Bool

/-- Nothing is visible in the database. -/
def Evidence.none : Evidence where
  indexPresent _ _ := Option.none
  indexListed _ _ := true
  settingChange _ _ := Option.none
  movedAsAsked _ _ _ := false
  calls _ _ _ := 0
  maintenanceDone _ := false

def rewriteFaded : ℚ := 1 / 10

/-- `_applied`, for the type, the payload and the opening of a row. -/
def visible (e : Evidence) (now : Int) (type : ActionType) (payload : Payload) (openedAt : Int) :
    Option (ClosedReason × String) :=
  match type with
  | .addIndex => (e.indexPresent payload.table payload.columns).map fun name => (.indexAdded, name)
  | .dropIndex =>
    if e.indexListed payload.indexName payload.table then Option.none else some (.indexDropped, payload.indexName)
  | .changeSetting =>
    payload.setting.bind fun name =>
      match e.settingChange name openedAt with
      | some (old, new) => if e.movedAsAsked payload.title old new then some (.settingChanged, name) else Option.none
      | Option.none => Option.none
  | .rewriteQuery =>
    match payload.queries with
    | key :: _ =>
      let recent := e.calls key (now - 3600) Option.none
      let before := e.calls key (openedAt - 3600) (some openedAt)
      if before ≠ 0 ∧ (recent : ℚ) ≤ before * rewriteFaded ∧ now - openedAt ≥ 3600 then some (.queryReplaced, key)
      else Option.none
    | [] => Option.none
  | .runMaintenance | .tryCaching => Option.none

def jevRetireHoldSeconds : Int := 86400

def reopenGrowth : ℚ := 3 / 2

def userAppliedHoldSeconds : Int := 7 * 86400

def userClosed : List ActionState := [.dismissed, .undone]

/-- `row.get("closed_at") or now`. -/
def ActionRow.closedOr (row : ActionRow) (now : Int) : Int :=
  match row.closedAt with
  | some at_ => if at_ = 0 then now else at_
  | none => now

def staysClosed (row : ActionRow) (c : Candidate) (now : Int) (refreshed : Bool) : Bool :=
  if row.closedReason = some .user ∧ row.state ≠ .retired then
    decide (now - row.closedOr now < userAppliedHoldSeconds)
  else if (row.type = .changeSetting ∨ row.type = .runMaintenance) ∧ refreshed = false then
    decide (row.state ≠ .retired)
  else if row.closedReason = some .jevStale then
    decide (now - row.closedOr now < jevRetireHoldSeconds) && decide (c.score < row.score * reopenGrowth)
  else false

def Candidate.opened (c : Candidate) (now : Int) : Write where
  key := c.key
  type := c.type
  state := .open
  score := c.score
  payload := c.payload
  why := none
  openedAt := now
  closedAt := none
  closedReason := none
  snoozedUntil := none
  dismissReason := none
  events := [.opened c.score]

/-- The candidate over its stored row. -/
def Candidate.over (c : Candidate) (row : ActionRow) (state : ActionState) (events : List ActionEvent) : Write where
  key := c.key
  type := c.type
  state := state
  score := c.score
  payload :=
    { c.payload with
      priority := row.payload.priority.or c.payload.priority
      jev := row.payload.jev.or c.payload.jev }
  why := none
  openedAt := row.openedAt
  closedAt := if state ∈ userClosed then row.closedAt else none
  closedReason := if state ∈ userClosed then row.closedReason else none
  snoozedUntil := if state = .snoozed then row.snoozedUntil else none
  dismissReason := row.dismissReason
  events := events

/-- A snooze lapses at its date. -/
def ActionRow.stateAt (row : ActionRow) (now : Int) : ActionState :=
  if row.state = .snoozed ∧ row.snoozedUntil.getD 0 ≤ now then .open else row.state

def reopenable : List ActionState := [.applied, .confirmed, .noEffect, .retired]

/-- The write for a candidate. -/
def listed (s : Store) (now : Int) (refreshed : Bool) (c : Candidate) : Option Write :=
  match s.rows.lookup c.key with
  | none => some (c.opened now)
  | some row =>
    if row.stateAt now ∈ reopenable then
      if staysClosed row c now refreshed then none else some (c.over row .open [.reopened row.state])
    else some (c.over row (row.stateAt now) [])

/-- The write for a row without a candidate. -/
def unlisted (now : Int) (found : List Candidate) (refreshed : Bool) (e : Evidence) (row : ActionRow) : Option Write :=
  if row.key ∈ found.map Candidate.key ∨ row.state ∉ openStates then none
  else
    match visible e now row.type row.payload row.openedAt with
    | some (reason, detail) =>
      some { row.write with
        state := .applied
        closedAt := some now
        closedReason := some reason
        events := [.applied reason detail] }
    | none =>
      if (row.type = .changeSetting ∨ row.type = .runMaintenance) ∧ refreshed = false then none
      else if row.type = .runMaintenance ∧ e.maintenanceDone row = true then
        some { row.write with
          state := .applied
          closedAt := some now
          closedReason := some .cleared
          events := [.applied .cleared ""] }
      else
        some { row.write with
          state := .retired
          closedAt := some now
          closedReason := some .evidenceFaded
          events := [.retired false] }

def probed : List ActionType := [.addIndex, .dropIndex, .changeSetting]

/-- A fix that shows up while its candidate is still listed. -/
def closeVisible (s : Store) (now : Int) (e : Evidence) (w : Write) : Write :=
  if w.state ∈ openStates ∧ w.type ∈ probed then
    match visible e now w.type w.payload ((s.rows.lookup w.key).map ActionRow.openedAt |>.getD now) with
    | some (reason, detail) =>
      { w with
        state := .applied
        closedAt := some now
        closedReason := some reason
        events := w.events ++ [.applied reason detail] }
    | none => w
  else w

def reconcileWrites (s : Store) (now : Int) (found : List Candidate) (refreshed : Bool) (e : Evidence) : List Write :=
  (found.filterMap (listed s now refreshed) ++
    (s.rows.entries.map Sigma.snd).filterMap (unlisted now found refreshed e)).map (closeVisible s now e)

def reconcile (s : Store) (now : Int) (found : List Candidate) (refreshed : Bool) (e : Evidence) : Store :=
  writeActions s now (reconcileWrites s now found refreshed e)

def undoable : List ActionState := [.applied, .confirmed, .noEffect]

/-- The write of a verb on the row that it read; none where the verb has nothing to do or is refused. -/
def verbWrite (row : ActionRow) (verb : Verb) (now : Int) (until_ : Option Int) (reason : Option String) :
    Option Write :=
  let base := { row.write with events := [.verb verb until_ reason] }
  match verb with
  | .snooze | .setAside =>
    some { base with
      state := .snoozed
      snoozedUntil := some (match until_ with
        | some t => if t = 0 then now + 7 * 86400 else t
        | none => now + 7 * 86400)
      dismissReason := reason }
  | .dismiss =>
    some { base with
      state := .dismissed
      dismissReason := reason
      closedAt := some now
      closedReason := some .dismissed }
  | .reopen | .bringBack =>
    some { base with
      state := .open
      snoozedUntil := none
      dismissReason := none
      closedAt := none
      closedReason := none }
  | .didIt =>
    if row.state ∈ undoable then none
    else
      some { base with
        state := .applied
        snoozedUntil := none
        closedAt := some now
        closedReason := some .user }
  | .undidIt =>
    if row.state ∈ undoable then
      some { base with
        state := .undone
        dismissReason := reason
        closedAt := some now
        closedReason := some .undone }
    else none

/-- The row with an id. -/
def Store.byId (s : Store) (id : Nat) : Option ActionRow := (s.rows.entries.map Sigma.snd).find? fun row => row.id = id

def setState (s : Store) (id : Nat) (verb : Verb) (now : Int) (until_ : Option Int) (reason : Option String) : Store :=
  match (s.byId id).bind fun row => verbWrite row verb now until_ reason with
  | some w => s.write now w
  | none => s

end Rdst.Actions
