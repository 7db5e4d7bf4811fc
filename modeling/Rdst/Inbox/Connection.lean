import Mathlib.Data.List.Infix
import Rdst.Inbox.Filing
import Rdst.Lib.Assoc

namespace Rdst.Inbox

open RowTable LocalTime Assoc

def lostAfterFailures : Nat := 3

def lostAfterSeconds : Int := 180

def pushAfterSeconds : Int := 3600

section Texts

variable (zone : Zone)

def clockTime (ts : Int) (meridiem : Bool) : String :=
  let hour := zone.hour ts
  let minute := zone.shown ts % 3600 / 60
  let text := toString (if hour % 12 = 0 then 12 else hour % 12) ++ ":" ++
    (if minute < 10 then "0" else "") ++ toString minute
  if meridiem = true then text ++ " " ++ (if hour < 12 then "AM" else "PM") else text

/-- `%a`; the epoch was a Thursday. -/
def weekday (ts : Int) : String :=
  ["Mon", "Tue", "Wed", "Thu", "Fri", "Sat", "Sun"].getD ((zone.day ts + 3) % 7).toNat ""

def spanText (start stop : Int) : String :=
  if 86400 ≤ stop - start ∨ zone.day start ≠ zone.day stop ∧ 12 * 3600 ≤ stop - start then
    weekday zone start ++ " " ++ clockTime zone start true ++ " to " ++ weekday zone stop ++ " " ++ clockTime zone stop true
  else
    let sameHalf := zone.day start = zone.day stop ∧ (zone.hour start < 12 ↔ zone.hour stop < 12)
    clockTime zone start (¬ sameHalf) ++ " to " ++ clockTime zone stop true

/-- `_REASONS`, without what to check. -/
def reasons : List (List String × String) :=
  [(["password authentication failed", "access denied for user", "authentication failed"],
      "The database rejected the password."),
    (["timeout expired", "timed out", "connection timed out"], "The connection timed out."),
    (["didn't answer"], "The database stopped answering."),
    (["could not translate host name", "name or service not known", "nodename nor servname", "getaddrinfo failed"],
      "The host name didn't resolve."),
    (["connection refused"], "The server refused the connection."),
    (["no pg_hba.conf entry", "not allowed to connect"],
      "The server doesn't allow connections from this machine."),
    (["ssl", "certificate"], "The TLS connection failed."),
    (["does not exist"], "The database or user doesn't exist."),
    (["too many connections", "remaining connection slots"], "Every connection slot is in use.")]

def clip (error : String) : String := String.ofList (error.toList.take 300)

def reasonText (error : Option String) : Option String :=
  match error.filter (· ≠ "") with
  | none => none
  | some error =>
    if "SSH ".toList.isPrefixOf error.toList = true then some (clip error)
    else
      let lowered := error.toList.map Char.toLower
      (reasons.find? fun reason => reason.1.any fun needle => decide (needle.toList <:+: lowered)).map Prod.snd

def lostMessage (target : String) (since : Int) : String :=
  "RDST can't reach " ++ target ++ " since " ++ clockTime zone since true ++ ". Monitoring is paused until it's back."

def resumedMessage (gapFrom resumedAt : Int) : String :=
  if clockTime zone gapFrom true = clockTime zone resumedAt true then
    "Monitoring resumed at " ++ clockTime zone resumedAt true ++ " after a brief interruption."
  else
    "Monitoring resumed at " ++ clockTime zone resumedAt true ++ ". No readings from " ++
      spanText zone gapFrom resumedAt ++ "."

def outageMessage (target : String) (since : Int) (error : Option String) : String :=
  match reasonText error with
  | some reason => lostMessage zone target since ++ " " ++ reason
  | none => lostMessage zone target since

end Texts

/-- A run of failed checks: how many, when the first was, and the latest error. -/
structure Failure where
  failures : Nat
  since : Int
  error : Option String
deriving DecidableEq

/-- A `ConnectionWatch`. -/
structure Watch where
  failing : Dict String Failure
  lastCheck : Dict String (Int × Bool)
  changed : List String

def Watch.new : Watch := ⟨∅, ∅, []⟩

/-- What a check or a tick reads besides the inbox: the switch of monitoring, a missing password, the failure of the
tunnel and the last reading before a time. -/
structure Surroundings where
  enabled : String → Bool
  passwordMissing : String → Bool
  failureReason : String → Option String
  lastReading : String → Int → Option Int

/-- `or` of texts. -/
def orText (first second : Option String) : Option String := (first.filter (· ≠ "")).orElse fun _ => second

def updateItemBody (s : Store) (id : Nat) (body : Body) (includeResolved : Bool) : Store :=
  s.setItem id fun item => if includeResolved = true ∨ item.state ≠ .resolved then { item with body := body } else item

def notifyRecovery (s : Store) (id : Nat) (ts : Int) : Store :=
  match s.items.lookup id with
  | none => s
  | some row =>
    if row.mutedBy ≠ none ∨ (s.settings row.target).notifyEvents .databaseRecovered = false then s
    else s.log id ts .notified .recovered

def Item.isLost (target : String) (item : Item) : Bool :=
  item.target = target && item.type = monitoringIssue && item.subject = lostConnection

/-- The item of the outage, unless it is closed. -/
def openItem (s : Store) (target : String) : Option (Nat × Item) :=
  (s.items.rows.find? fun row => row.2.isLost target).filter fun row => row.2.state.isOpen

section Watch

variable (zone : Zone) (env : Surroundings)

def pushIfDue (s : Store) (target : String) (now : Int) : Store :=
  match openItem s target with
  | none => s
  | some (id, item) =>
    let since := (item.body.failedSince.filter (· ≠ 0)).getD item.createdAt
    if item.delivery ≠ .notify ∧ pushAfterSeconds ≤ now - since then promoteItem zone s id .notify now else s

/-- What an outage is filed with. -/
def outageFiling (target : String) (now since : Int) (error : Option String) : Filing :=
  let last := env.lastReading target since
  let gapFrom := (last.filter fun last => since - last ≤ 15 * 60).getD since
  { target := target
    type := monitoringIssue
    subject := lostConnection
    severity := 1
    title := "Can't reach the database"
    body :=
      { failedSince := some since
        lastReadingAt := last
        gapFrom := some gapFrom
        message := some (outageMessage zone target gapFrom error)
        error := (error.filter (· ≠ "")).map clip
        other := [("target", target)] }
    ts := now
    delivery := some .inbox }

/-- The body of an open item with the latest error. -/
def errorBody (target : String) (item : Item) (failedSince : Int) (error : Option String) (text : String) : Body :=
  let gapFrom := (item.body.gapFrom.filter (· ≠ 0)).getD failedSince
  { item.body with error := some text, message := some (outageMessage zone target gapFrom error) }

/-- `_file_current`. -/
def fileCurrent (s : Store) (target : String) (now since : Int) (error : Option String) : Store :=
  let refile := pushIfDue zone (upsertItem zone s (outageFiling zone env target now since error)).1 target now
  match openItem s target with
  | none => refile
  | some (id, item) =>
    match item.body.failedSince.filter (· ≠ 0) with
    | none => refile
    | some failedSince =>
      -- The outage keeps its own start; an update never pushes.
      match (error.filter (· ≠ "")).map clip with
      | none => s
      | some text =>
        if item.body.error = some text then s
        else updateItemBody s id (errorBody zone target item failedSince error text) false

/-- The body of an item once its database is back. -/
def recoveredBody (item : Item) (now : Int) : Body :=
  let gapFrom := (orTime item.body.gapFrom (orTime item.body.failedSince (some item.createdAt))).getD item.createdAt
  { item.body with
    resumedAt := some now
    gapTo := some now
    gapFrom := some gapFrom
    message := some (resumedMessage zone gapFrom now)
    resolution := some now }

/-- `_recovered`. -/
def recovered (s : Store) (target : String) (now : Int) : Store :=
  match openItem s target with
  | none => s
  | some (id, item) =>
    let updated := updateItemBody s id (recoveredBody zone item now) false
    notifyRecovery (actionItem updated id .resolve now none .code false) id now

/-- The debounce rule at a check. -/
def Failure.debounced (failure : Failure) (now : Int) (changed : Prop) : Prop :=
  lostAfterFailures ≤ failure.failures ∨ lostAfterSeconds ≤ now - failure.since ∨ changed

instance (failure : Failure) (now : Int) (changed : Prop) [Decidable changed] :
    Decidable (failure.debounced now changed) :=
  inferInstanceAs (Decidable (_ ∨ _ ∨ _))

/-- The check is older than the last one, or fails at the time of one that succeeded. -/
def Watch.stale (watch : Watch) (target : String) (ok : Bool) (now : Int) : Prop :=
  let last := (watch.lastCheck.lookup target).getD (0, false)
  now < last.1 ∨ now = last.1 ∧ last.2 = true ∧ ok = false

instance (watch : Watch) (target : String) (ok : Bool) (now : Int) : Decidable (watch.stale target ok now) :=
  inferInstanceAs (Decidable (_ ∨ _ ∧ _ ∧ _))

/-- The failure that a failed check makes of the one before. -/
def Watch.failed (watch : Watch) (target : String) (now : Int) (error : Option String) : Failure :=
  let reason := orText (env.failureReason target) error
  let before := (watch.failing.lookup target).getD ⟨0, now, reason⟩
  ⟨before.failures + 1, before.since, orText reason before.error⟩

def observe (s : Store) (watch : Watch) (target : String) (ok : Bool) (now : Int) (error : Option String) :
    Store × Watch :=
  if watch.stale target ok now then (s, watch)
  else if ok = false ∧ env.passwordMissing target = true then (s, { watch with failing := watch.failing.erase target })
  else
    let lastCheck := watch.lastCheck.insert target (now, ok)
    if ok = true then
      (recovered zone s target now,
        ⟨watch.failing.erase target, lastCheck, watch.changed.filter (· ≠ target)⟩)
    else
      let failure := watch.failed env target now error
      let watch' : Watch := ⟨watch.failing.insert target failure, lastCheck, watch.changed⟩
      if failure.debounced now (target ∈ watch.changed) then
        (fileCurrent zone env s target now failure.since failure.error, watch')
      else (s, watch')

/-- A scheduled collection's outcome; its pulses are part of the readings. -/
def collection (s : Store) (watch : Watch) (target : String) (ok : Bool) (now : Int) (error : Option String) :
    Store × Watch :=
  if env.enabled target = false then (s, { watch with failing := watch.failing.erase target })
  else observe zone env s watch target ok now (if ok = false then orText (env.failureReason target) error else error)

def tickTurn (now : Int) (state : Store × Watch) (target : String) (failure : Failure) : Store × Watch :=
  if env.enabled target = false then (state.1, { state.2 with failing := state.2.failing.erase target })
  else if lostAfterSeconds ≤ now - failure.since then
    (pushIfDue zone (fileCurrent zone env state.1 target now failure.since failure.error) target now, state.2)
  else state

def tick (s : Store) (watch : Watch) (now : Int) : Store × Watch :=
  watch.failing.entries.foldl (fun state entry => tickTurn zone env now state entry.1 entry.2) (s, watch)

def settingsChanged (watch : Watch) (target : String) : Watch :=
  ⟨watch.failing.erase target, watch.lastCheck.erase target, target :: watch.changed⟩

end Watch

end Rdst.Inbox
