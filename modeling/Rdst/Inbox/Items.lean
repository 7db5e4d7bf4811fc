import Mathlib.Data.Rat.Defs
import Mathlib.Algebra.Order.Ring.Unbundled.Rat
import Mathlib.Data.List.Sort
import Rdst.Lib.RowTable
import Rdst.Lib.LocalTime

namespace Rdst.Inbox

open RowTable LocalTime

inductive ItemState
  | new
  | seen
  | snoozed
  | dismissed
  | resolved
deriving DecidableEq

inductive Delivery
  | digest
  | inbox
  | notify
deriving DecidableEq

/-- The place in `DELIVERY_LEVELS`. -/
def Delivery.rank : Delivery → Nat
  | .digest => 0
  | .inbox => 1
  | .notify => 2

/-- The higher level; the stored one where they are the same. -/
def Delivery.max (stored level : Delivery) : Delivery := if stored.rank < level.rank then level else stored

inductive ResolvedBy
  | user
  | code
  | jev
deriving DecidableEq

inductive EventKind
  | created
  | updated
  | worse
  | reopened
  | resolved
  | dismissed
  | notified
deriving DecidableEq

inductive NotifyEvent
  | databaseUnreachable
  | databaseRecovered
  | monitoringSetup
  | stuckQuery
  | databaseEvents
  | queryChanges
  | dailyReport
deriving DecidableEq

structure Occurrence where
  start : Int
  end_ : Option Int
  keys : List String
deriving DecidableEq

/-- The body of an item: the entries that the code reads by name, and the others. -/
structure Body where
  queryKey : Option String := none
  queryKeys : List String := []
  episodeQueryKeys : List String := []
  recoveryQueries : List String := []
  occurrences : List Occurrence := []
  filedAt : Option Int := none
  resumedAt : Option Int := none
  settled : Bool := false
  stillHappening : Bool := false
  recoverySeenAt : Option Int := none
  resolutionLabel : Option String := none
  failedSince : Option Int := none
  lastReadingAt : Option Int := none
  gapFrom : Option Int := none
  gapTo : Option Int := none
  message : Option String := none
  error : Option String := none
  resolution : Option Int := none
  other : List (String × String) := []
deriving DecidableEq

/-- A row of `inbox_item`. -/
structure Item where
  target : String
  type : String
  subject : String
  state : ItemState
  severity : ℚ
  title : String
  body : Body
  createdAt : Int
  updatedAt : Int
  resolvedAt : Option Int
  resolvedBy : Option ResolvedBy
  seenCount : Nat
  dismissedAt : Option Int
  reopenedCount : Nat
  snoozedUntil : Option Int
  dismissedReturned : Nat
  mutedBy : Option Nat
  delivery : Delivery
deriving DecidableEq

inductive PushSkipped
  | eventOff
  | quietHours
  | dailyLimit
deriving DecidableEq

inductive UserAction
  | seen
  | snooze
  | dismiss
  | resolve
  | reopen
deriving DecidableEq

/-- `detail_json` of an event. -/
inductive EventDetail
  | filed (body : Body)
  | empty
  | pushSkipped (why : PushSkipped)
  | recovered
  | action (name : UserAction) (until_ : Option Int) (resolvedBy : Option ResolvedBy)
deriving DecidableEq

/-- A row of `inbox_event`. -/
structure Event where
  itemId : Nat
  ts : Int
  kind : EventKind
  detail : EventDetail
deriving DecidableEq

/-- A row of `mute_rule`. -/
structure MuteRule where
  target : Option String
  queryKey : Option String
  type : Option String
  until_ : Option Int
deriving DecidableEq

/-- What `_push_cap`, `_notify_events` and `_quiet_hours` read of a target's settings. -/
structure Settings where
  pushCap : Nat
  notifyEvents : NotifyEvent → Bool
  quietHours : Int × Int

/-- The settings of a target that has none of its own. -/
def Settings.default : Settings where
  pushCap := 3
  notifyEvents event := event ≠ .databaseRecovered
  quietHours := (23, 7)

structure Store where
  items : Table Item
  events : List Event
  rules : Table MuteRule
  settings : String → Settings

def Store.new : Store := ⟨Table.empty, [], Table.empty, fun _ => Settings.default⟩

def Store.log (s : Store) (itemId : Nat) (ts : Int) (kind : EventKind) (detail : EventDetail) : Store :=
  { s with events := s.events ++ [⟨itemId, ts, kind, detail⟩] }

def Store.setItem (s : Store) (id : Nat) (change : Item → Item) : Store :=
  { s with items := s.items.update fun other item => if other = id then change item else item }

def monitoringIssue : String := "monitoring_issue"

def lostConnection : String := "lost_connection"

def queryStoppedRunning : String := "query_stopped_running"

def databaseEventTypes : List String :=
  ["connections_near_max", "lock_contention", "rollback_or_deadlock_spike", "cache_hit_ratio_drop"]

def notifyEvent (type subject : String) : NotifyEvent :=
  if type = monitoringIssue then if subject = lostConnection then .databaseUnreachable else .monitoringSetup
  else if type = "stuck_query" then .stuckQuery
  else if type = "daily_summary" ∨ type = "report_ready" then .dailyReport
  else if type ∈ databaseEventTypes then .databaseEvents
  else .queryChanges

/-- `UNCAPPED_PUSH_SQL`. -/
def Item.countsToCap (item : Item) : Bool := !(item.type = monitoringIssue && item.subject = lostConnection)

/-- `_QUERY_KEY.fullmatch`. -/
def isQueryKey (text : String) : Bool :=
  text.toList.length = 12 && text.toList.all fun c => c.isDigit || ('a' ≤ c && c ≤ 'f')

/-- Query identities that an item is about, most specific first. -/
def itemQueryKeys (subject : String) (body : Body) : List String :=
  let prefixed := String.ofList (subject.toList.takeWhile (· ≠ ':'))
  let candidates := body.queryKey.toList ++ [subject, prefixed] ++ body.queryKeys ++ body.episodeQueryKeys
  (candidates.filter isQueryKey).reverse.dedup.reverse

def ruleMatches (rule : MuteRule) (target type : String) (keys : List String) (ts : Int) : Bool :=
  rule.target.all (· = target) && rule.type.all (· = type) && rule.queryKey.all (· ∈ keys) &&
    rule.until_.all fun until_ => decide (ts < until_)

def Store.matchingRule (s : Store) (target type : String) (keys : List String) (ts : Int) : Option Nat :=
  (s.rules.rows.find? fun rule => ruleMatches rule.2 target type keys ts).map Prod.fst

section Clock

variable (zone : Zone)

/-- The local calendar day that holds `now`, as the code finds it: the fold of `now` stays on its midnight. -/
def localDayBounds (now : Int) : Int × Int :=
  let moment := zone.fromTimestamp now
  let start : Moment := ⟨moment.face / daySeconds * daySeconds, moment.fold⟩
  let next : Moment := ⟨(moment.face / daySeconds + 1) * daySeconds, false⟩
  (zone.timestamp start, zone.timestamp next)

def inQuietHours (hours : Int × Int) (ts : Int) : Bool :=
  let (start, stop) := hours
  let hour := zone.hour ts
  if start = stop then false
  else if start < stop then decide (start ≤ hour) && decide (hour < stop)
  else decide (start ≤ hour) || decide (hour < stop)

end Clock

/-- The event is a push that counts to the cap of the target. -/
def Store.isPush (s : Store) (target : String) (event : Event) : Bool :=
  event.kind = .notified && (s.items.lookup event.itemId).any fun item => item.target = target && item.countsToCap

/-- Such pushes between two times. -/
def Store.pushed (s : Store) (target : String) (bounds : Int × Int) : Nat :=
  s.events.countP fun event =>
    s.isPush target event && (decide (bounds.1 ≤ event.ts) && decide (event.ts < bounds.2))

end Rdst.Inbox
