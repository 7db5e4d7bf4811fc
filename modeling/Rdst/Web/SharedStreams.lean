import Mathlib.Data.Finset.Basic
import Rdst.Lib.Assoc
import Rdst.Lib.Channels
import Rdst.Lib.Run

namespace Rdst.Web.SharedStreams

open Assoc Channels

abbrev TabId := String

abbrev Url := String

/-- A map of URLs to event names; a URL that is not in it has none. -/
abbrev Urls := Url → Finset String

/-- The options of a hub; `shared` where there are a channel and a lock. -/
structure HubOptions where
  shared : Bool
  peerTimeoutMs : Nat
  hiddenCloseMs : Nat

structure Listener where
  id : Nat
  events : Finset String
  background : Bool
deriving DecidableEq

structure StreamEvent where
  url : Url
  name : String
  data : String
  id : String
deriving DecidableEq

/-- An event that a source of a leader received. -/
structure Receipt where
  leader : TabId
  number : Nat
deriving DecidableEq

inductive Message
  | subs (urls : Urls)
  | bye
  | who
  | event (event : StreamEvent) (number : Nat)

structure Peer where
  seen : Nat
  urls : Urls

/-- What an unsubscribe callback holds. -/
structure Callback where
  url : Url
  set : Nat
  listener : Listener
deriving DecidableEq

/-- The listeners of a tab: the sets that were made, and those in use by URL. -/
structure Listening where
  sets : Nat → List Listener
  nextSet : Nat
  current : Url → Option Nat
  callbacks : List Callback
  /-- The listeners whose callback was called. -/
  stopped : List Nat

/-- An event on its way through a set, up to the listener `next`. -/
structure Dispatch where
  event : StreamEvent
  receipt : Receipt
  set : Option Nat
  next : Nat
  relay : Bool

inductive Phase
  | unopened
  | live
  | left
deriving DecidableEq

structure Hub where
  phase : Phase
  listening : Listening
  peers : Dict TabId Peer
  sources : Url → Option (Finset String)
  leader : Bool
  hidden : Bool
  dormant : Bool
  hiddenTimer : Option Nat
  dispatching : Option Dispatch
  received : Nat

def Listening.empty : Listening := ⟨fun _ => [], 0, fun _ => none, [], []⟩

def Hub.unopened : Hub := ⟨.unopened, .empty, ∅, fun _ => none, false, false, false, none, none, 0⟩

/-- No tab of this name was opened. -/
def Hub.Unopened (hub : Hub) : Prop :=
  hub.phase = .unopened ∧ hub.listening.nextSet = 0 ∧ hub.dispatching.isNone ∧ hub.received = 0

instance (hub : Hub) : Decidable hub.Unopened := inferInstanceAs (Decidable (_ ∧ _))

/-- No event is on its way through the listeners of the tab. -/
def Hub.Idle (hub : Hub) : Prop := hub.phase = .live ∧ hub.dispatching.isNone

instance (hub : Hub) : Decidable hub.Idle := inferInstanceAs (Decidable (_ ∧ _))

def Listening.members (listening : Listening) (set : Option Nat) : List Listener :=
  match set with
  | none => []
  | some set => listening.sets set

/-- `subscribe`: the set of the URL, or a new one, gets the listener. -/
def Listening.subscribe (listening : Listening) (url : Url) (events : Finset String) (background : Bool) : Listening :=
  let listener : Listener := ⟨listening.callbacks.length, events, background⟩
  let set := (listening.current url).getD listening.nextSet
  { listening with
    sets := Function.update listening.sets set (listening.sets set ++ [listener])
    nextSet := if (listening.current url).isNone then listening.nextSet + 1 else listening.nextSet
    current := Function.update listening.current url (some set)
    callbacks := listening.callbacks ++ [⟨url, set, listener⟩] }

/-- The callback of a listener, which deletes it from the set that it was added to. -/
def Listening.unsubscribe (listening : Listening) (callback : Callback) : Listening :=
  let remaining := (listening.sets callback.set).filter fun other => other.id ≠ callback.listener.id
  { listening with
    sets := Function.update listening.sets callback.set remaining
    current := if remaining = [] then Function.update listening.current callback.url none else listening.current
    stopped := callback.listener.id :: listening.stopped }

section Hubs

variable (options : HubOptions)

/-- A dormant tab counts background listeners alone, and those in shared mode alone. -/
def Hub.counts (hub : Hub) (listener : Listener) : Bool := !(hub.dormant && !(options.shared && listener.background))

def namesOf (listeners : List Listener) : Finset String := listeners.foldr (fun listener names => listener.events ∪ names) ∅

def Hub.localUrls (hub : Hub) : Urls :=
  fun url => namesOf ((hub.listening.members (hub.listening.current url)).filter (hub.counts options))

/-- The peers that were heard of since the timeout. -/
def Hub.heard (hub : Hub) (now : Nat) : Dict TabId Peer :=
  keepKeys (fun id => (hub.peers.lookup id).any fun peer => !decide (peer.seen < now - options.peerTimeoutMs)) hub.peers

def peerNames (peers : Dict TabId Peer) (url : Url) : Finset String :=
  peers.entries.foldr (fun peer names => peer.2.urls url ∪ names) ∅

def Hub.wanted (hub : Hub) (now : Nat) : Urls :=
  fun url => hub.localUrls options url ∪ peerNames (hub.heard options now) url

/-- Close the sources that nobody wants, open the others and listen to their events. -/
def Hub.reconcile (hub : Hub) (now : Nat) : Hub :=
  if hub.leader = true then
    let wanted := hub.wanted options now
    { hub with
      peers := hub.heard options now
      sources := fun url => if wanted url = ∅ then none else some ((hub.sources url).getD ∅ ∪ wanted url) }
  else hub

def Hub.setHidden (hub : Hub) (hidden : Bool) (now : Nat) : Hub :=
  { hub with
    hidden := hidden
    hiddenTimer := if hidden = true then some (now + options.hiddenCloseMs) else none
    dormant := hub.dormant && hidden }

end Hubs

/-- A call of a listener's handler. -/
structure Call where
  tab : TabId
  listener : Nat
  receipt : Receipt
  event : StreamEvent
deriving DecidableEq

/-- The tabs of a browser, the lock's holder and the channel. -/
structure World where
  now : Nat
  hubs : TabId → Hub
  lock : Option TabId
  flight : Flight TabId Message
  calls : List Call

def World.start : World := ⟨0, fun _ => .unopened, none, fun _ _ => [], []⟩

inductive Action
  | openTab (tab : TabId)
  | subscribe (tab : TabId) (url : Url) (events : Finset String) (background : Bool)
  | unsubscribe (tab : TabId) (listener : Nat)
  | setHidden (tab : TabId) (hidden : Bool)
  | hiddenTimeout (tab : TabId)
  | heartbeat (tab : TabId)
  | lead (tab : TabId)
  | leave (tab : TabId)
  | deliver (sender receiver : TabId)
  | sourceEvent (tab : TabId) (url : Url) (name : String) (data lastEventId : Option String)
  | visit (tab : TabId)
  | wait (ms : Nat)

section Steps

variable (options : HubOptions)

def World.put (w : World) (tab : TabId) (hub : Hub) : World := { w with hubs := Function.update w.hubs tab hub }

def World.isLive (w : World) (tab : TabId) : Bool := decide ((w.hubs tab).phase = .live)

/-- `channel.postMessage`, where there is a channel. -/
def World.postMessage (w : World) (tab : TabId) (message : Message) : World :=
  if options.shared = true then { w with flight := broadcast w.flight w.isLive tab message } else w

def World.announce (w : World) (tab : TabId) : World :=
  if (w.hubs tab).leader = true then w else w.postMessage options tab (.subs ((w.hubs tab).localUrls options))

def World.reconcile (w : World) (tab : TabId) : World := w.put tab ((w.hubs tab).reconcile options w.now)

def World.changed (w : World) (tab : TabId) : World := (w.announce options tab).reconcile options tab

def World.becomeLeader (w : World) (tab : TabId) : World :=
  ({ w.put tab { w.hubs tab with leader := true } with lock := some tab }.postMessage options tab .who).reconcile
    options tab

/-- `dispose`, and the lock that goes with the tab. -/
def World.dispose (w : World) (tab : TabId) : World :=
  let posted := (w.put tab { w.hubs tab with phase := .left, sources := fun _ => none }).postMessage options tab .bye
  { posted with
    flight := close posted.flight tab
    lock := if w.lock = some tab then none else w.lock }

/-- `receive`, where the message's tab is its sender. -/
def World.receiveMessage (w : World) (sender tab : TabId) (message : Message) : World :=
  let hub := w.hubs tab
  match message with
  | .event event number =>
    if hub.leader = true then w
    else w.put tab { hub with
      dispatching := some ⟨event, ⟨sender, number⟩, hub.listening.current event.url, 0, false⟩ }
  | .who => w.announce options tab
  | .bye =>
    if hub.leader = true then (w.put tab { hub with peers := hub.peers.erase sender }).reconcile options tab else w
  | .subs urls =>
    if hub.leader = true then
      (w.put tab { hub with peers := hub.peers.insert sender ⟨w.now, urls⟩ }).reconcile options tab
    else w

/-- One turn of the loop of `dispatch`, or what comes after it. -/
def World.visit (w : World) (tab : TabId) (dispatch : Dispatch) : World :=
  let hub := w.hubs tab
  match (hub.listening.members dispatch.set).find? fun listener => dispatch.next ≤ listener.id with
  | some listener =>
    let visited := w.put tab { hub with dispatching := some { dispatch with next := listener.id + 1 } }
    if dispatch.event.name ∈ listener.events then
      { visited with calls := w.calls ++ [⟨tab, listener.id, dispatch.receipt, dispatch.event⟩] }
    else visited
  | none =>
    let done := w.put tab { hub with dispatching := none }
    if dispatch.relay = true then done.postMessage options tab (.event dispatch.event dispatch.receipt.number) else done

def step (w : World) (action : Action) : World :=
  match action with
  | .openTab tab =>
    if (w.hubs tab).Unopened then w.put tab { Hub.unopened with phase := .live, leader := !options.shared } else w
  | .subscribe tab url events background =>
    let hub := w.hubs tab
    if hub.phase = .live then
      (w.put tab { hub with listening := hub.listening.subscribe url events background }).changed options tab
    else w
  | .unsubscribe tab listener =>
    let hub := w.hubs tab
    match hub.listening.callbacks[listener]? with
    | some callback =>
      if hub.phase = .live then
        (w.put tab { hub with listening := hub.listening.unsubscribe callback }).changed options tab
      else w
    | none => w
  | .setHidden tab hidden =>
    let hub := w.hubs tab
    if hub.Idle ∧ hidden ≠ hub.hidden then
      let shown := w.put tab (hub.setHidden options hidden w.now)
      if hub.dormant = true ∧ hidden = false then shown.changed options tab else shown
    else w
  | .hiddenTimeout tab =>
    let hub := w.hubs tab
    if hub.Idle ∧ hub.hiddenTimer.any (fun due => due ≤ w.now) = true then
      (w.put tab { hub with hiddenTimer := none, dormant := true }).changed options tab
    else w
  | .heartbeat tab => if (w.hubs tab).Idle ∧ options.shared = true then w.changed options tab else w
  | .lead tab =>
    if (w.hubs tab).Idle ∧ options.shared = true ∧ w.lock = none then w.becomeLeader options tab else w
  | .leave tab => if (w.hubs tab).Idle then w.dispose options tab else w
  | .deliver sender tab =>
    match w.flight sender tab with
    | message :: _ =>
      if (w.hubs tab).Idle then { w with flight := take w.flight sender tab }.receiveMessage options sender tab message
      else w
    | [] => w
  | .sourceEvent tab url name data lastEventId =>
    let hub := w.hubs tab
    if hub.Idle ∧ hub.leader = true ∧ (hub.sources url).any (fun names => decide (name ∈ names)) = true then
      w.put tab { hub with
        dispatching := some ⟨⟨url, name, data.getD "", lastEventId.getD ""⟩, ⟨tab, hub.received⟩,
          hub.listening.current url, 0, true⟩
        received := hub.received + 1 }
    else w
  | .visit tab =>
    match (w.hubs tab).dispatching with
    | some dispatch => if (w.hubs tab).phase = .live then w.visit options tab dispatch else w
    | none => w
  | .wait ms => { w with now := w.now + ms }

end Steps

end Rdst.Web.SharedStreams
