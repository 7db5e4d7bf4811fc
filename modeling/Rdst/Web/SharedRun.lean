import Rdst.Web.SharedStreams

namespace Rdst.Web.SharedStreams

open Assoc Channels Machine

/-- A listener that was subscribed and not unsubscribed since. -/
def Listening.Subscribed (listening : Listening) (callback : Callback) : Prop :=
  callback ∈ listening.callbacks ∧ callback.listener.id ∉ listening.stopped

/-- Every listener that is subscribed, and none else, is in the set that its URL uses. -/
structure Listening.Good (listening : Listening) : Prop where
  numbered : ∀ i (callback : Callback), listening.callbacks[i]? = some callback → callback.listener.id = i
  made : ∀ callback ∈ listening.callbacks, callback.set < listening.nextSet
  used : ∀ url set, listening.current url = some set → set < listening.nextSet
  members : ∀ set listener, listener ∈ listening.sets set →
    ∃ callback, listening.Subscribed callback ∧ callback.set = set ∧ callback.listener = listener
  nonempty : ∀ url set, listening.current url = some set → listening.sets set ≠ []
  urls : ∀ url set, listening.current url = some set → ∀ callback ∈ listening.callbacks, callback.set = set →
    callback.url = url
  kept : ∀ callback : Callback, listening.Subscribed callback → listening.current callback.url = some callback.set ∧
    callback.listener ∈ listening.sets callback.set
  called : ∀ id ∈ listening.stopped, id < listening.callbacks.length

/-- The callback's set is the one in use, or none is. -/
def Listening.Fresh (listening : Listening) (callback : Callback) : Prop :=
  listening.current callback.url = none ∨ listening.current callback.url = some callback.set

instance (listening : Listening) (callback : Callback) : Decidable (listening.Fresh callback) :=
  inferInstanceAs (Decidable (_ ∨ _))

theorem Listening.Good.empty : Listening.empty.Good := by
  constructor <;> simp [Listening.empty, Listening.Subscribed]

namespace Listening.Good

variable {listening : Listening} (good : listening.Good)

include good

theorem same_of_id {first second : Callback} (inFirst : first ∈ listening.callbacks)
    (inSecond : second ∈ listening.callbacks) (same : first.listener.id = second.listener.id) : first = second := by
  obtain ⟨i, atFirst⟩ := List.mem_iff_getElem?.mp inFirst
  obtain ⟨j, atSecond⟩ := List.mem_iff_getElem?.mp inSecond
  have equal : i = j := by rw [← good.numbered i first atFirst, same, good.numbered j second atSecond]
  subst equal
  exact Option.some.inj (atFirst.symm.trans atSecond)

theorem id_lt {callback : Callback} (inside : callback ∈ listening.callbacks) :
    callback.listener.id < listening.callbacks.length := by
  obtain ⟨i, found⟩ := List.mem_iff_getElem?.mp inside
  rw [good.numbered i callback found]
  exact (List.getElem?_eq_some_iff.mp found).1

theorem unused : listening.sets listening.nextSet = [] := by
  apply List.eq_nil_iff_forall_not_mem.mpr
  intro listener member
  obtain ⟨callback, subscribed, set, -⟩ := good.members _ listener member
  have := good.made callback subscribed.1
  omega

/-- A set is in use for one URL. -/
theorem current_unique {first second : Url} {set : Nat} (one : listening.current first = some set)
    (other : listening.current second = some set) : first = second := by
  obtain ⟨listener, member⟩ := List.exists_mem_of_ne_nil _ (good.nonempty first set one)
  obtain ⟨callback, subscribed, within, -⟩ := good.members set listener member
  rw [← good.urls first set one callback subscribed.1 within, good.urls second set other callback subscribed.1 within]

theorem subscribe (url : Url) (events : Finset String) (background : Bool) :
    (listening.subscribe url events background).Good := by
  unfold Listening.subscribe
  simp only
  generalize chosen : (listening.current url).getD listening.nextSet = set
  generalize fresh : (if (listening.current url).isNone = true then listening.nextSet + 1 else listening.nextSet) = next
  have room : set < next ∧ listening.nextSet ≤ next := by
    cases found : listening.current url with
    | none =>
      simp only [found, Option.isNone_none, if_true, Option.getD_none] at chosen fresh
      omega
    | some used =>
      have := good.used url used found
      simp only [found, Option.isNone_some, Bool.false_eq_true, if_false, Option.getD_some] at chosen fresh
      omega
  have owned : ∀ callback ∈ listening.callbacks, callback.set = set → listening.current url = some set := by
    intro callback inside same
    cases found : listening.current url with
    | none =>
      have := good.made callback inside
      simp only [found, Option.getD_none] at chosen
      omega
    | some used =>
      simp only [found, Option.getD_some] at chosen
      rw [chosen]
  have others : ∀ other, listening.current other = some set → other = url := by
    intro other used
    obtain ⟨listener, member⟩ := List.exists_mem_of_ne_nil _ (good.nonempty other set used)
    obtain ⟨callback, subscribed, within, -⟩ := good.members set listener member
    exact good.current_unique used (owned callback subscribed.1 within)
  generalize added : (⟨url, set, ⟨listening.callbacks.length, events, background⟩⟩ : Callback) = new
  have newUrl : new.url = url := by rw [← added]
  have newSet : new.set = set := by rw [← added]
  have newId : new.listener.id = listening.callbacks.length := by rw [← added]
  have newListener : (⟨listening.callbacks.length, events, background⟩ : Listener) = new.listener := by rw [← added]
  rw [newListener]
  have uncalled : new.listener.id ∉ listening.stopped := by
    intro called
    have := good.called _ called
    omega
  have subscribed : ∀ callback, (callback ∈ listening.callbacks ++ [new] ∧ callback.listener.id ∉ listening.stopped) ↔
      listening.Subscribed callback ∨ callback = new := by
    intro callback
    rw [List.mem_append, List.mem_singleton, or_and_right]
    constructor
    · rintro (old | ⟨rfl, -⟩)
      · exact .inl old
      · exact .inr rfl
    · rintro (old | rfl)
      · exact .inl old
      · exact .inr ⟨rfl, uncalled⟩
  constructor <;> try dsimp only
  case numbered =>
    intro i callback found
    rw [List.getElem?_append] at found
    split at found
    · exact good.numbered i callback found
    · have last : i - listening.callbacks.length = 0 := by
        have := (List.getElem?_eq_some_iff.mp found).1
        simpa using this
      rw [last] at found
      cases found
      omega
  case made =>
    intro callback inside
    rcases List.mem_append.mp inside with old | last
    · have := good.made callback old
      omega
    · rw [List.mem_singleton.mp last, newSet]
      exact room.1
  case used =>
    intro other used found
    by_cases same : other = url
    · rw [same, Function.update_self] at found
      cases found
      exact room.1
    · rw [Function.update_of_ne same] at found
      have := good.used other used found
      omega
  case members =>
    intro set' listener member
    simp only [Listening.Subscribed, subscribed]
    by_cases same : set' = set
    · rw [same, Function.update_self] at member
      rcases List.mem_append.mp member with old | last
      · obtain ⟨callback, held, within, is⟩ := good.members set listener old
        exact ⟨callback, .inl held, within.trans same.symm, is⟩
      · exact ⟨new, .inr rfl, newSet.trans same.symm, (List.mem_singleton.mp last).symm⟩
    · rw [Function.update_of_ne same] at member
      obtain ⟨callback, held, rest⟩ := good.members set' listener member
      exact ⟨callback, .inl held, rest⟩
  case nonempty =>
    intro other used found
    by_cases same : used = set
    · rw [same, Function.update_self]
      simp
    · rw [Function.update_of_ne same]
      by_cases here : other = url
      · rw [here, Function.update_self] at found
        exact absurd (Option.some.inj found).symm same
      · rw [Function.update_of_ne here] at found
        exact good.nonempty other used found
  case urls =>
    intro other used found callback inside within
    by_cases here : other = url
    · rw [here, Function.update_self] at found
      cases found
      rcases List.mem_append.mp inside with old | last
      · rw [here]
        exact good.urls url set (owned callback old within) callback old within
      · rw [List.mem_singleton.mp last, newUrl, here]
    · rw [Function.update_of_ne here] at found
      rcases List.mem_append.mp inside with old | last
      · exact good.urls other used found callback old within
      · rw [List.mem_singleton.mp last, newSet] at within
        exact absurd (others other (within ▸ found)) here
  case kept =>
    intro callback held
    rcases (subscribed callback).mp held with old | rfl
    · obtain ⟨found, inside⟩ := good.kept callback old
      constructor
      · by_cases here : callback.url = url
        · rw [here, Function.update_self]
          rw [here] at found
          rw [← chosen, found, Option.getD_some]
        · rw [Function.update_of_ne here]
          exact found
      · by_cases same : callback.set = set
        · rw [same, Function.update_self]
          exact List.mem_append_left _ (same ▸ inside)
        · rw [Function.update_of_ne same]
          exact inside
    · rw [newUrl, newSet, Function.update_self, Function.update_self]
      exact ⟨rfl, List.mem_append_right _ (List.mem_singleton_self _)⟩
  case called =>
    intro id called
    have := good.called id called
    simp only [List.length_append, List.length_singleton]
    omega

theorem unsubscribe {callback : Callback} (inside : callback ∈ listening.callbacks) (fresh : listening.Fresh callback) :
    (listening.unsubscribe callback).Good := by
  unfold Listening.unsubscribe
  simp only
  generalize left : ((listening.sets callback.set).filter fun other => other.id ≠ callback.listener.id) = remaining
  have stays : ∀ other, listening.Subscribed other → other.listener.id ≠ callback.listener.id →
      other.set = callback.set → other.listener ∈ remaining := by
    intro other held apart same
    rw [← left, List.mem_filter]
    exact ⟨same ▸ (good.kept other held).2, decide_eq_true apart⟩
  have subscribed : ∀ other : Callback, (other ∈ listening.callbacks ∧
      other.listener.id ∉ callback.listener.id :: listening.stopped) ↔
        listening.Subscribed other ∧ other.listener.id ≠ callback.listener.id := by
    intro other
    rw [List.mem_cons, not_or]
    exact ⟨fun held => ⟨⟨held.1, held.2.2⟩, held.2.1⟩, fun held => ⟨held.1.1, held.2, held.1.2⟩⟩
  have current : ∀ url set, (if remaining = [] then Function.update listening.current callback.url none
      else listening.current) url = some set → listening.current url = some set ∧ (remaining = [] → url ≠ callback.url) := by
    intro url set found
    split at found
    · by_cases same : url = callback.url
      · rw [same, Function.update_self] at found
        cases found
      · rw [Function.update_of_ne same] at found
        exact ⟨found, fun _ => same⟩
    · rename_i some_
      exact ⟨found, fun none_ => absurd none_ some_⟩
  constructor <;> try dsimp only
  case numbered => exact good.numbered
  case made => exact good.made
  case used =>
    intro url set found
    exact good.used url set (current url set found).1
  case members =>
    intro set listener member
    simp only [Listening.Subscribed, subscribed]
    by_cases same : set = callback.set
    · rw [same, Function.update_self, ← left, List.mem_filter] at member
      obtain ⟨other, held, within, rfl⟩ := good.members callback.set listener member.1
      exact ⟨other, ⟨held, of_decide_eq_true member.2⟩, within.trans same.symm, rfl⟩
    · rw [Function.update_of_ne same] at member
      obtain ⟨other, held, within, rfl⟩ := good.members set listener member
      refine ⟨other, ⟨held, ?_⟩, within, rfl⟩
      intro equal
      rw [good.same_of_id held.1 inside equal] at within
      exact same within.symm
  case nonempty =>
    intro url set found
    obtain ⟨found, apart⟩ := current url set found
    by_cases same : set = callback.set
    · rw [same, Function.update_self]
      intro none_
      exact apart none_ (good.urls url set found callback inside same.symm).symm
    · rw [Function.update_of_ne same]
      exact good.nonempty url set found
  case urls =>
    intro url set found
    exact good.urls url set (current url set found).1
  case kept =>
    intro other held
    obtain ⟨held, apart⟩ := (subscribed other).mp held
    obtain ⟨found, within⟩ := good.kept other held
    constructor
    · split
      · rename_i none_
        have elsewhere : other.url ≠ callback.url := by
          intro same
          rcases fresh with unused | used
          · rw [same, unused] at found
            cases found
          · rw [same, used] at found
            have member := stays other held apart (Option.some.inj found).symm
            rw [none_] at member
            cases member
        rw [Function.update_of_ne elsewhere]
        exact found
      · exact found
    · by_cases same : other.set = callback.set
      · rw [same, Function.update_self]
        exact stays other held apart same
      · rw [Function.update_of_ne same]
        exact within
  case called =>
    intro id called
    rcases List.mem_cons.mp called with rfl | called
    · exact good.id_lt inside
    · exact good.called id called

end Listening.Good

theorem mem_namesOf {listeners : List Listener} {name : String} :
    name ∈ namesOf listeners ↔ ∃ listener ∈ listeners, name ∈ listener.events := by
  induction listeners with
  | nil => simp [namesOf]
  | cons first rest ih =>
    have unfolded : namesOf (first :: rest) = first.events ∪ namesOf rest := rfl
    rw [unfolded, Finset.mem_union, ih]
    simp

theorem mem_peerNames {peers : Dict TabId Peer} {url : Url} {name : String} :
    name ∈ peerNames peers url ↔ ∃ id peer, peers.lookup id = some peer ∧ name ∈ peer.urls url := by
  have entries : ∀ items : List (Sigma fun _ : TabId => Peer),
      name ∈ items.foldr (fun peer names => peer.2.urls url ∪ names) ∅ ↔ ∃ item ∈ items, name ∈ item.2.urls url := by
    intro items
    induction items with
    | nil => simp
    | cons first rest ih =>
      rw [List.foldr_cons, Finset.mem_union, ih]
      simp
  unfold peerNames
  rw [entries]
  constructor
  · rintro ⟨⟨id, peer⟩, member, named⟩
    exact ⟨id, peer, AList.mem_lookup_iff.mpr member, named⟩
  · rintro ⟨id, peer, found, named⟩
    exact ⟨⟨id, peer⟩, AList.mem_lookup_iff.mp found, named⟩

variable {options : HubOptions}

theorem mem_localUrls {hub : Hub} (good : hub.listening.Good) {url : Url} {name : String} :
    name ∈ hub.localUrls options url ↔ ∃ callback, hub.listening.Subscribed callback ∧ callback.url = url ∧
      hub.counts options callback.listener = true ∧ name ∈ callback.listener.events := by
  unfold Hub.localUrls
  rw [mem_namesOf]
  constructor
  · rintro ⟨listener, member, named⟩
    obtain ⟨member, counted⟩ := List.mem_filter.mp member
    cases found : hub.listening.current url with
    | none =>
      rw [found] at member
      cases member
    | some set =>
      rw [found] at member
      obtain ⟨callback, subscribed, within, rfl⟩ := good.members set listener member
      exact ⟨callback, subscribed, good.urls url set found callback subscribed.1 within, counted, named⟩
  · rintro ⟨callback, subscribed, rfl, counted, named⟩
    obtain ⟨found, member⟩ := good.kept callback subscribed
    rw [found]
    exact ⟨callback.listener, List.mem_filter.mpr ⟨member, counted⟩, named⟩

/-- A listener of the tab asks for events of the URL. -/
def Hub.Wants (options : HubOptions) (hub : Hub) (url : Url) : Prop :=
  ∃ callback, hub.listening.Subscribed callback ∧ callback.url = url ∧ hub.counts options callback.listener = true ∧
    callback.listener.events ≠ ∅

theorem wants_iff {hub : Hub} (good : hub.listening.Good) (url : Url) :
    hub.Wants options url ↔ hub.localUrls options url ≠ ∅ := by
  rw [← Finset.nonempty_iff_ne_empty]
  constructor
  · rintro ⟨callback, subscribed, same, counted, some_⟩
    obtain ⟨name, named⟩ := Finset.nonempty_iff_ne_empty.mpr some_
    exact ⟨name, (mem_localUrls good).mpr ⟨callback, subscribed, same, counted, named⟩⟩
  · rintro ⟨name, member⟩
    obtain ⟨callback, subscribed, same, counted, named⟩ := (mem_localUrls good).mp member
    exact ⟨callback, subscribed, same, counted, Finset.ne_empty_of_mem named⟩

/-- What a leader holds of a peer after a message from it. -/
def taken : Option Urls → Message → Option Urls
  | _, .subs urls => some urls
  | _, .bye => none
  | held, .who => held
  | held, .event _ _ => held

/-- What it holds once all on the way is delivered. -/
def outcome (held : Option Urls) (messages : List Message) : Option Urls := messages.foldl taken held

theorem outcome_append (held : Option Urls) (messages : List Message) (message : Message) :
    outcome held (messages ++ [message]) = taken (outcome held messages) message := by
  simp [outcome]

theorem outcome_none {held : Option Urls} {messages : List Message} (gone : outcome held messages = none) :
    outcome none messages = none := by
  induction messages generalizing held with
  | nil => rfl
  | cons message rest ih =>
    cases message with
    | subs urls => exact gone
    | bye => exact gone
    | who => exact ih gone
    | event event number => exact ih gone

def World.held (w : World) (leader peer : TabId) : Option Urls := ((w.hubs leader).peers.lookup peer).map Peer.urls

/-- Exactly what somebody asks for is open, with all the events that are asked for. -/
def Hub.Opened (options : HubOptions) (hub : Hub) : Prop :=
  ∀ url, (hub.sources url = none ∧ hub.localUrls options url ∪ peerNames hub.peers url = ∅) ∨
    ∃ names, hub.sources url = some names ∧ hub.localUrls options url ∪ peerNames hub.peers url ≠ ∅ ∧
      hub.localUrls options url ∪ peerNames hub.peers url ⊆ names

def World.Live (w : World) (tab : TabId) : Prop := (w.hubs tab).phase = .live

instance (w : World) (tab : TabId) : Decidable (w.Live tab) := inferInstanceAs (Decidable ((w.hubs tab).phase = .live))

/-- Who leads, and what the tabs hold of each other. -/
structure Framed (options : HubOptions) (w : World) : Prop where
  holder : options.shared = true → ∀ tab, w.Live tab → ((w.hubs tab).leader = true ↔ w.lock = some tab)
  locked : ∀ tab, w.lock = some tab → w.Live tab
  alone : options.shared = false → (∀ tab, w.Live tab → (w.hubs tab).leader = true) ∧
    (∀ sender tab, w.flight sender tab = []) ∧ ∀ tab peer, w.held tab peer = none
  closed : ∀ sender tab, ¬ w.Live tab → w.flight sender tab = []
  own : ∀ tab, w.flight tab tab = [] ∧ w.held tab tab = none
  followers : ∀ tab, w.Live tab → (w.hubs tab).leader = false →
    (∀ peer, w.held tab peer = none) ∧ ∀ url, (w.hubs tab).sources url = none
  gone : ∀ tab, w.Live tab → ∀ peer, ¬ w.Live peer → outcome (w.held tab peer) (w.flight peer tab) = none

/-- What the leader holds of every tab is what the tab asks for, once all on the way is delivered; a tab may be excepted
whose listeners just changed. -/
structure Synced (options : HubOptions) (excepted : Option TabId) (w : World) : Prop extends Framed options w where
  agreed : options.shared = true → ∀ tab, w.Live tab → (w.hubs tab).leader = true → ∀ peer, w.Live peer → peer ≠ tab →
    some peer ≠ excepted → .who ∈ w.flight tab peer ∨
      (outcome (w.held tab peer) (w.flight peer tab)).getD (fun _ => ∅) = (w.hubs peer).localUrls options
  opened : ∀ tab, w.Live tab → (w.hubs tab).leader = true → some tab ≠ excepted → (w.hubs tab).Opened options

/-- No leader has forgotten a peer that is there. -/
def World.Punctual (options : HubOptions) (w : World) : Prop :=
  ∀ tab, w.Live tab → ∀ id, w.Live id → ∀ peer, (w.hubs tab).peers.lookup id = some peer →
    w.now ≤ peer.seen + options.peerTimeoutMs

variable {excepted : Option TabId} {w : World} {tab : TabId}

@[simp] theorem put_hub (w : World) (tab : TabId) (hub : Hub) : (w.put tab hub).hubs tab = hub := Function.update_self ..

theorem put_other (w : World) {tab other : TabId} (hub : Hub) (apart : other ≠ tab) :
    (w.put tab hub).hubs other = w.hubs other := Function.update_of_ne apart ..

theorem put_self (w : World) (tab : TabId) : w.put tab (w.hubs tab) = w := by
  unfold World.put
  rw [Function.update_eq_self]

/-- A tab's hub may change in what the others do not see of it. -/
structure SeenAlike (hub hub' : Hub) : Prop where
  phase : hub'.phase = hub.phase
  leader : hub'.leader = hub.leader
  peers : hub'.peers = hub.peers
  sources : hub'.sources = hub.sources

theorem put_live (w : World) (tab : TabId) {hub : Hub} (phase : hub.phase = (w.hubs tab).phase) (other : TabId) :
    (w.put tab hub).Live other ↔ w.Live other := by
  unfold World.Live
  by_cases same : other = tab
  · rw [same, put_hub, phase]
  · rw [put_other w hub same]

theorem put_held (w : World) (tab : TabId) {hub : Hub} (peers : hub.peers = (w.hubs tab).peers) (other peer : TabId) :
    (w.put tab hub).held other peer = w.held other peer := by
  unfold World.held
  by_cases same : other = tab
  · rw [same, put_hub, peers]
  · rw [put_other w hub same]

theorem put_same {α : Type} (w : World) (tab : TabId) {hub : Hub} (field : Hub → α)
    (same : field hub = field (w.hubs tab)) (other : TabId) : field ((w.put tab hub).hubs other) = field (w.hubs other) := by
  by_cases is : other = tab
  · rw [is, put_hub, same]
  · rw [put_other w hub is]

theorem Framed.put (framed : Framed options w) {hub : Hub} (alike : SeenAlike (w.hubs tab) hub) :
    Framed options (w.put tab hub) := by
  have leader := put_same w tab Hub.leader alike.leader
  have sources := put_same w tab Hub.sources alike.sources
  constructor <;> simp only [put_live w tab alike.phase, put_held w tab alike.peers, leader, sources]
  case holder => exact framed.holder
  case locked => exact framed.locked
  case alone => exact framed.alone
  case closed => exact framed.closed
  case own => exact framed.own
  case followers => exact framed.followers
  case gone => exact framed.gone

theorem Synced.put (synced : Synced options excepted w) {hub : Hub} (alike : SeenAlike (w.hubs tab) hub)
    (urls : excepted ≠ some tab → hub.localUrls options = (w.hubs tab).localUrls options) :
    Synced options excepted (w.put tab hub) := by
  have asked : ∀ other, some other ≠ excepted →
      ((w.put tab hub).hubs other).localUrls options = (w.hubs other).localUrls options := by
    intro other apart
    by_cases same : other = tab
    · rw [same, put_hub]
      exact urls fun is => apart (same ▸ is.symm)
    · rw [put_other w hub same]
  have leader := put_same w tab Hub.leader alike.leader
  refine ⟨synced.toFramed.put alike, ?_, ?_⟩
  · simp only [put_live w tab alike.phase, put_held w tab alike.peers, leader]
    intro shared one live leads peer there apart counted
    rw [asked peer counted]
    exact synced.agreed shared one live leads peer there apart counted
  · simp only [put_live w tab alike.phase, leader]
    intro one live leads counted url
    rw [put_same w tab Hub.sources alike.sources, put_same w tab Hub.peers alike.peers, asked one counted]
    exact synced.opened one live leads counted url

theorem Synced.except (synced : Synced options none w) (tab : TabId) : Synced options (some tab) w :=
  ⟨synced.toFramed, fun shared one live leads peer there apart _ => synced.agreed shared one live leads peer there apart nofun,
    fun one live leads _ => synced.opened one live leads nofun⟩

/-- Two tabs that lead a shared browser are one. -/
theorem Framed.one_leader (framed : Framed options w) (shared : options.shared = true) {first second : TabId}
    (one : w.Live first) (leads : (w.hubs first).leader = true) (other : w.Live second)
    (leads' : (w.hubs second).leader = true) : first = second := by
  have holds := (framed.holder shared first one).mp leads
  rw [(framed.holder shared second other).mp leads'] at holds
  exact (Option.some.inj holds).symm

theorem isLive_iff : w.isLive tab = true ↔ w.Live tab := decide_eq_true_iff

/-- What a message changes of what is on the way. -/
theorem post_flight (options : HubOptions) (w : World) (tab : TabId) (message : Message) (sender receiver : TabId) :
    (options.shared = true ∧ sender = tab ∧ receiver ≠ tab ∧ w.Live receiver ∧
      (w.postMessage options tab message).flight sender receiver = w.flight sender receiver ++ [message]) ∨
    (w.postMessage options tab message).flight sender receiver = w.flight sender receiver := by
  unfold World.postMessage
  split
  · rename_i shared
    rcases broadcast_cases w.flight w.isLive tab message sender receiver with ⟨from_, apart, there, sent⟩ | same
    · exact .inl ⟨shared, from_, apart, isLive_iff.mp there, sent⟩
    · exact .inr same
  · exact .inr rfl

theorem post_sent (w : World) (tab : TabId) (message : Message) {receiver : TabId} (shared : options.shared = true)
    (apart : receiver ≠ tab) (there : w.Live receiver) :
    (w.postMessage options tab message).flight tab receiver = w.flight tab receiver ++ [message] := by
  unfold World.postMessage
  rw [if_pos shared]
  exact broadcast_to apart (isLive_iff.mpr there)

@[simp] theorem post_hubs (w : World) (tab : TabId) (message : Message) :
    (w.postMessage options tab message).hubs = w.hubs := by
  unfold World.postMessage
  split <;> rfl

@[simp] theorem post_lock (w : World) (tab : TabId) (message : Message) :
    (w.postMessage options tab message).lock = w.lock := by
  unfold World.postMessage
  split <;> rfl

@[simp] theorem post_now (w : World) (tab : TabId) (message : Message) :
    (w.postMessage options tab message).now = w.now := by
  unfold World.postMessage
  split <;> rfl

@[simp] theorem post_calls (w : World) (tab : TabId) (message : Message) :
    (w.postMessage options tab message).calls = w.calls := by
  unfold World.postMessage
  split <;> rfl

@[simp] theorem post_live (w : World) (tab : TabId) (message : Message) (other : TabId) :
    (w.postMessage options tab message).Live other ↔ w.Live other := by
  unfold World.Live
  rw [post_hubs]

@[simp] theorem post_held (w : World) (tab : TabId) (message : Message) (other peer : TabId) :
    (w.postMessage options tab message).held other peer = w.held other peer := by
  unfold World.held
  rw [post_hubs]

theorem Framed.post (framed : Framed options w) (live : w.Live tab) (message : Message) :
    Framed options (w.postMessage options tab message) := by
  constructor <;> simp only [post_hubs, post_lock, post_live, post_held]
  case holder => exact framed.holder
  case locked => exact framed.locked
  case alone =>
    intro unshared
    obtain ⟨leads, quiet, held⟩ := framed.alone unshared
    refine ⟨leads, ?_, held⟩
    intro sender receiver
    rcases post_flight options w tab message sender receiver with ⟨shared, -⟩ | same
    · rw [unshared] at shared
      cases shared
    · rw [same, quiet]
  case closed =>
    intro sender receiver absent
    rcases post_flight options w tab message sender receiver with ⟨-, -, -, there, -⟩ | same
    · exact absurd there absent
    · rw [same, framed.closed sender receiver absent]
  case own =>
    intro one
    refine ⟨?_, (framed.own one).2⟩
    rcases post_flight options w tab message one one with ⟨-, is, apart, -⟩ | same
    · exact absurd is apart
    · rw [same, (framed.own one).1]
  case followers => exact framed.followers
  case gone =>
    intro one there peer absent
    rcases post_flight options w tab message peer one with ⟨-, is, -⟩ | same
    · exact absurd (is ▸ live) absent
    · rw [same]
      exact framed.gone one there peer absent

/-- A message that is not about what its sender asks for. -/
theorem Synced.post_neutral (synced : Synced options excepted w) (live : w.Live tab) {message : Message}
    (neutral : ∀ held, taken held message = held) : Synced options excepted (w.postMessage options tab message) := by
  refine ⟨synced.toFramed.post live message, ?_, ?_⟩ <;> simp only [post_hubs, post_live, post_held]
  · intro shared one there leads peer present apart counted
    rcases synced.agreed shared one there leads peer present apart counted with asked | same
    · left
      rcases post_flight options w tab message one peer with ⟨-, -, -, -, sent⟩ | unsent
      · rw [sent]
        exact List.mem_append_left _ asked
      · rwa [unsent]
    · right
      rcases post_flight options w tab message peer one with ⟨-, -, -, -, sent⟩ | unsent
      · rw [sent, outcome_append, neutral, same]
      · rw [unsent, same]
  · exact synced.opened

/-- A follower that says what it asks for makes up for the change. -/
theorem Synced.post_urls (synced : Synced options (some tab) w) (live : w.Live tab)
    (follows : (w.hubs tab).leader = false) :
    Synced options none (w.postMessage options tab (.subs ((w.hubs tab).localUrls options))) := by
  refine ⟨synced.toFramed.post live _, ?_, ?_⟩ <;> simp only [post_hubs, post_live, post_held]
  · intro shared one there leads peer present apart _
    by_cases same : peer = tab
    · subst same
      right
      rw [post_sent w peer _ shared apart.symm there, outcome_append]
      rfl
    · rcases synced.agreed shared one there leads peer present apart (fun is => same (Option.some.inj is)) with
        asked | settled
      · left
        rcases post_flight options w tab (.subs ((w.hubs tab).localUrls options)) one peer with ⟨-, -, -, -, sent⟩ | unsent
        · rw [sent]
          exact List.mem_append_left _ asked
        · rwa [unsent]
      · right
        rcases post_flight options w tab (.subs ((w.hubs tab).localUrls options)) peer one with ⟨-, is, -⟩ | unsent
        · exact absurd is same
        · rw [unsent, settled]
  · intro one there leads _
    apply synced.opened one there leads
    intro is
    rw [Option.some.inj is, follows] at leads
    cases leads

theorem reconcile_follower {hub : Hub} (follows : hub.leader = false) (now : Nat) : hub.reconcile options now = hub := by
  unfold Hub.reconcile
  simp [follows]

theorem Hub.heard_lookup (hub : Hub) (now : Nat) (id : TabId) : (hub.heard options now).lookup id =
    if (hub.peers.lookup id).any (fun peer => !decide (peer.seen < now - options.peerTimeoutMs)) = true
    then hub.peers.lookup id else none := keepKeys_lookup ..

theorem reconcile_opened {hub : Hub} (leads : hub.leader = true) (now : Nat) :
    (hub.reconcile options now).Opened options := by
  intro url
  unfold Hub.reconcile
  rw [if_pos leads]
  simp only
  have urls : ∀ peers sources, Hub.localUrls options { hub with peers := peers, sources := sources } =
      hub.localUrls options := fun _ _ => rfl
  rw [urls]
  by_cases none_ : hub.wanted options now url = ∅
  · rw [if_pos none_]
    exact .inl ⟨rfl, none_⟩
  · rw [if_neg none_]
    exact .inr ⟨_, rfl, none_, Finset.subset_union_right⟩

theorem reconcile_held (w : World) (tab one peer : TabId) :
    (w.reconcile options tab).held one peer = w.held one peer ∨ (w.reconcile options tab).held one peer = none := by
  unfold World.reconcile World.held
  by_cases same : one = tab
  · rw [same, put_hub]
    unfold Hub.reconcile
    split
    · simp only [Hub.heard_lookup]
      split
      · exact .inl rfl
      · exact .inr rfl
    · exact .inl rfl
  · rw [put_other w _ same]
    exact .inl rfl

theorem reconcile_held_live (w : World) {tab peer : TabId} (punctual : ∀ held, (w.hubs tab).peers.lookup peer = some held →
    w.now ≤ held.seen + options.peerTimeoutMs) (one : TabId) :
    (w.reconcile options tab).held one peer = w.held one peer := by
  unfold World.reconcile World.held
  by_cases same : one = tab
  · rw [same, put_hub]
    unfold Hub.reconcile
    split
    · simp only [Hub.heard_lookup]
      cases found : (w.hubs tab).peers.lookup peer with
      | none => simp
      | some held =>
        have := punctual held found
        have recent : ¬ held.seen < w.now - options.peerTimeoutMs := by omega
        simp [recent]
    · rfl
  · rw [put_other w _ same]

theorem reconcile_hub (w : World) (tab one : TabId) :
    ((w.reconcile options tab).hubs one).phase = (w.hubs one).phase ∧
      ((w.reconcile options tab).hubs one).leader = (w.hubs one).leader ∧
      ((w.reconcile options tab).hubs one).localUrls options = (w.hubs one).localUrls options ∧
      ((w.reconcile options tab).hubs one).listening = (w.hubs one).listening := by
  unfold World.reconcile
  by_cases same : one = tab
  · rw [same, put_hub]
    unfold Hub.reconcile
    split <;> exact ⟨rfl, rfl, rfl, rfl⟩
  · rw [put_other w _ same]
    exact ⟨rfl, rfl, rfl, rfl⟩

theorem reconcile_live (w : World) (tab one : TabId) : (w.reconcile options tab).Live one ↔ w.Live one := by
  unfold World.Live
  rw [(reconcile_hub w tab one).1]

theorem Framed.reconcile (framed : Framed options w) (leads : (w.hubs tab).leader = true) :
    Framed options (w.reconcile options tab) := by
  have leader : ∀ one, ((w.reconcile options tab).hubs one).leader = (w.hubs one).leader :=
    fun one => (reconcile_hub w tab one).2.1
  have flight : (w.reconcile options tab).flight = w.flight := rfl
  have lock : (w.reconcile options tab).lock = w.lock := rfl
  have forgets : ∀ one peer, w.held one peer = none → (w.reconcile options tab).held one peer = none := by
    intro one peer held
    rcases reconcile_held w tab one peer with same | none_
    · rw [same, held]
    · exact none_
  constructor <;> simp only [reconcile_live, leader, flight, lock]
  case holder => exact framed.holder
  case locked => exact framed.locked
  case alone =>
    intro unshared
    obtain ⟨all, quiet, held⟩ := framed.alone unshared
    exact ⟨all, quiet, fun one peer => forgets one peer (held one peer)⟩
  case closed => exact framed.closed
  case own => exact fun one => ⟨(framed.own one).1, forgets one one (framed.own one).2⟩
  case followers =>
    intro one there follows
    obtain ⟨held, sources⟩ := framed.followers one there follows
    refine ⟨fun peer => forgets one peer (held peer), ?_⟩
    have apart : one ≠ tab := by
      rintro rfl
      rw [leads] at follows
      cases follows
    unfold World.reconcile
    rw [put_other w _ apart]
    exact sources
  case gone =>
    intro one there peer absent
    have gone := framed.gone one there peer absent
    rcases reconcile_held w tab one peer with same | none_
    · rw [same, gone]
    · rw [none_]
      exact outcome_none gone

theorem Synced.reconcile (synced : Synced options (some tab) w) (live : w.Live tab)
    (punctual : ∀ id, w.Live id → ∀ peer, (w.hubs tab).peers.lookup id = some peer →
      w.now ≤ peer.seen + options.peerTimeoutMs)
    (leads : (w.hubs tab).leader = true) : Synced options none (w.reconcile options tab) := by
  have leader : ∀ one, ((w.reconcile options tab).hubs one).leader = (w.hubs one).leader :=
    fun one => (reconcile_hub w tab one).2.1
  have urls : ∀ one, ((w.reconcile options tab).hubs one).localUrls options = (w.hubs one).localUrls options :=
    fun one => (reconcile_hub w tab one).2.2.1
  have flight : (w.reconcile options tab).flight = w.flight := rfl
  refine ⟨synced.toFramed.reconcile leads, ?_, ?_⟩ <;> simp only [reconcile_live, leader, urls, flight]
  · intro shared one there leads' peer present apart _
    have is := synced.one_leader shared there leads' live leads
    rw [reconcile_held_live w (punctual peer present)]
    exact synced.agreed shared one there leads' peer present apart fun same => apart (Option.some.inj same ▸ is.symm)
  · intro one there leads' _
    unfold World.reconcile
    by_cases same : one = tab
    · subst same
      rw [put_hub]
      exact reconcile_opened leads' w.now
    · rw [put_other w _ same]
      exact synced.opened one there leads' fun is => same (Option.some.inj is)

theorem reconcile_self {tab : TabId} (follows : (w.hubs tab).leader = false) : w.reconcile options tab = w := by
  unfold World.reconcile
  rw [reconcile_follower follows, put_self]

theorem Synced.changed (synced : Synced options (some tab) w) (live : w.Live tab)
    (punctual : ∀ id, w.Live id → ∀ peer, (w.hubs tab).peers.lookup id = some peer →
      w.now ≤ peer.seen + options.peerTimeoutMs) : Synced options none (w.changed options tab) := by
  unfold World.changed World.announce
  cases leads : (w.hubs tab).leader with
  | true =>
    rw [if_pos rfl]
    exact synced.reconcile live punctual leads
  | false =>
    rw [if_neg nofun, reconcile_self (by rw [post_hubs, leads])]
    exact synced.post_urls live leads

/-- The leader's own listeners are not among what it holds of its peers. -/
theorem Synced.recover (synced : Synced options (some tab) w) (live : w.Live tab) (leads : (w.hubs tab).leader = true)
    (opened : (w.hubs tab).Opened options) : Synced options none w := by
  refine ⟨synced.toFramed, ?_, ?_⟩
  · intro shared one there leads' peer present apart _
    have is := synced.one_leader shared there leads' live leads
    exact synced.agreed shared one there leads' peer present apart fun same => apart (Option.some.inj same ▸ is.symm)
  · intro one there leads' _
    by_cases same : one = tab
    · exact same ▸ opened
    · exact synced.opened one there leads' fun is => same (Option.some.inj is)

/-- The oldest message between two tabs is taken from its queue. -/
def World.pop (w : World) (sender tab : TabId) : World := { w with flight := take w.flight sender tab }

variable {sender : TabId} {message : Message} {rest : List Message}

theorem pop_head (head : w.flight sender tab = message :: rest) : (w.pop sender tab).flight sender tab = rest := by
  unfold World.pop
  simp only [take_self, head, List.tail_cons]

theorem pop_flight (head : w.flight sender tab = message :: rest) (from_ to_ : TabId) :
    (from_ = sender ∧ to_ = tab ∧ (w.pop sender tab).flight from_ to_ = rest) ∨
      (w.pop sender tab).flight from_ to_ = w.flight from_ to_ := by
  by_cases is : from_ = sender ∧ to_ = tab
  · refine .inl ⟨is.1, is.2, ?_⟩
    rw [is.1, is.2, pop_head head]
  · exact .inr (take_other is)

theorem pop_apart (framed : Framed options w) (head : w.flight sender tab = message :: rest) : sender ≠ tab := by
  rintro rfl
  rw [(framed.own sender).1] at head
  cases head

theorem Framed.pop (framed : Framed options w) (head : w.flight sender tab = message :: rest) (live : w.Live tab)
    (harmless : (∀ held, taken held message = held) ∨ (w.hubs tab).leader = false) :
    Framed options (w.pop sender tab) := by
  constructor
  case holder => exact framed.holder
  case locked => exact framed.locked
  case alone =>
    intro unshared
    rw [(framed.alone unshared).2.1] at head
    cases head
  case closed =>
    intro from_ to_ absent
    rcases pop_flight head from_ to_ with ⟨-, rfl, -⟩ | same
    · exact absurd live absent
    · rw [same, framed.closed from_ to_ absent]
  case own =>
    intro one
    refine ⟨?_, (framed.own one).2⟩
    rcases pop_flight head one one with ⟨is, is', -⟩ | same
    · exact absurd (is.symm.trans is') (pop_apart framed head)
    · rw [same, (framed.own one).1]
  case followers => exact framed.followers
  case gone =>
    intro one there peer absent
    have gone := framed.gone one there peer absent
    rcases pop_flight head peer one with ⟨rfl, rfl, same⟩ | same
    · rw [head] at gone
      rw [same]
      rcases harmless with neutral | follows
      · exact neutral (w.held one peer) ▸ gone
      · have held : (w.pop peer one).held one peer = none := (framed.followers one live follows).1 peer
        have later : outcome (taken (w.held one peer) message) rest = none := gone
        rw [held]
        exact outcome_none later
    · rw [same]
      exact gone

/-- A message that says nothing of what its sender asks for may be taken. -/
theorem Synced.pop (synced : Synced options excepted w) (head : w.flight sender tab = message :: rest)
    (live : w.Live tab) (harmless : (∀ held, taken held message = held) ∨ (w.hubs tab).leader = false)
    (heard : message ≠ .who ∨ excepted = some tab) : Synced options excepted (w.pop sender tab) := by
  refine ⟨synced.toFramed.pop head live harmless, ?_, synced.opened⟩
  intro shared one there leads peer present apart counted
  rcases synced.agreed shared one there leads peer present apart counted with asked | settled
  · left
    rcases pop_flight head one peer with ⟨rfl, rfl, same⟩ | same
    · rw [head] at asked
      rw [same]
      rcases List.mem_cons.mp asked with is | later
      · rcases heard with other | out
        · exact absurd is.symm other
        · exact absurd out.symm counted
      · exact later
    · rw [same]
      exact asked
  · right
    rcases pop_flight head peer one with ⟨rfl, rfl, same⟩ | same
    · rw [head] at settled
      rw [same]
      rcases harmless with neutral | follows
      · exact neutral (w.held one peer) ▸ settled
      · have leads' : (w.hubs one).leader = true := leads
        rw [follows] at leads'
        cases leads'
    · rw [same]
      exact settled

/-- The leader takes in what a peer says of itself. -/
theorem Synced.take_in (synced : Synced options none w) (head : w.flight sender tab = message :: rest) (live : w.Live tab)
    (leads : (w.hubs tab).leader = true) (peers : Dict TabId Peer)
    (said : (peers.lookup sender).map Peer.urls = taken (w.held tab sender) message)
    (others : ∀ peer, peer ≠ sender → peers.lookup peer = (w.hubs tab).peers.lookup peer) :
    Synced options (some tab) ((w.pop sender tab).put tab { w.hubs tab with peers := peers }) := by
  have apart := pop_apart synced.toFramed head
  have live' : ∀ one, ((w.pop sender tab).put tab { w.hubs tab with peers := peers }).Live one ↔ w.Live one :=
    put_live (w.pop sender tab) tab rfl
  have leader := put_same (w.pop sender tab) tab Hub.leader (show Hub.leader { w.hubs tab with peers := peers } = _ from rfl)
  have sources := put_same (w.pop sender tab) tab Hub.sources
    (show Hub.sources { w.hubs tab with peers := peers } = _ from rfl)
  have urls := put_same (w.pop sender tab) tab (Hub.localUrls options)
    (show Hub.localUrls options { w.hubs tab with peers := peers } = _ from rfl)
  have heldHere : ∀ peer, ((w.pop sender tab).put tab { w.hubs tab with peers := peers }).held tab peer =
      (peers.lookup peer).map Peer.urls := by
    intro peer
    unfold World.held
    rw [put_hub]
  have heldThere : ∀ one peer, one ≠ tab →
      ((w.pop sender tab).put tab { w.hubs tab with peers := peers }).held one peer = w.held one peer := by
    intro one peer other
    unfold World.held
    rw [put_other _ _ other]
    rfl
  have heldOther : ∀ peer, peer ≠ sender → (peers.lookup peer).map Peer.urls = w.held tab peer := by
    intro peer other
    rw [others peer other]
    rfl
  have settles : ∀ peer, outcome ((peers.lookup peer).map Peer.urls) ((w.pop sender tab).flight peer tab) =
      outcome (w.held tab peer) (w.flight peer tab) := by
    intro peer
    by_cases is : peer = sender
    · subst is
      rw [pop_head head, said, head]
      rfl
    · rw [heldOther peer is]
      rcases pop_flight head peer tab with ⟨from_, -⟩ | same
      · exact absurd from_ is
      · rw [same]
  have flight : ((w.pop sender tab).put tab { w.hubs tab with peers := peers }).flight = (w.pop sender tab).flight := rfl
  have lock : ((w.pop sender tab).put tab { w.hubs tab with peers := peers }).lock = w.lock := rfl
  have same_hub : ∀ one, one ≠ tab →
      ((w.pop sender tab).put tab { w.hubs tab with peers := peers }).hubs one = w.hubs one :=
    fun one other => put_other _ _ other
  generalize (w.pop sender tab).put tab { w.hubs tab with peers := peers } = next at *
  have toOthers : ∀ from_ to_, to_ ≠ tab → (w.pop sender tab).flight from_ to_ = w.flight from_ to_ := by
    intro from_ to_ other
    rcases pop_flight head from_ to_ with ⟨-, is, -⟩ | same
    · exact absurd is other
    · exact same
  refine ⟨?_, ?_, ?_⟩
  · constructor <;> simp only [live', leader, flight, lock]
    case holder => exact synced.holder
    case locked => exact synced.locked
    case alone =>
      intro unshared
      rw [(synced.alone unshared).2.1] at head
      cases head
    case closed =>
      intro from_ to_ absent
      have other : to_ ≠ tab := fun is => absent (is ▸ live)
      rw [toOthers from_ to_ other, synced.closed from_ to_ absent]
    case own =>
      intro one
      by_cases is : one = tab
      · subst is
        have quiet : (w.pop sender one).flight one one = w.flight one one := by
          rcases pop_flight head one one with ⟨from_, -⟩ | same
          · exact absurd from_.symm apart
          · exact same
        rw [quiet, heldHere, heldOther one apart.symm]
        exact synced.own one
      · rw [toOthers one one is, heldThere one one is]
        exact synced.own one
    case followers =>
      intro one there follows
      have other : one ≠ tab := by
        rintro rfl
        have leads' : (w.hubs one).leader = false := follows
        rw [leads] at leads'
        cases leads'
      rw [same_hub one other]
      simp only [heldThere one _ other]
      exact synced.followers one there follows
    case gone =>
      intro one there peer absent
      by_cases is : one = tab
      · subst is
        rw [heldHere, settles]
        exact synced.gone one there peer absent
      · rw [heldThere one peer is, toOthers peer one is]
        exact synced.gone one there peer absent
  · simp only [live', leader, flight, urls]
    intro shared one there leads' peer present other counted
    have is := synced.one_leader shared there leads' live leads
    subst is
    have away : peer ≠ one := other
    rw [heldHere, settles, toOthers one peer away]
    exact synced.agreed shared one there leads' peer present other nofun
  · simp only [live', leader]
    intro one there leads' counted
    have other : one ≠ tab := fun is => counted (congrArg some is)
    rw [same_hub one other]
    exact synced.opened one there leads' nofun

/-- A new tab has no listeners, and nothing is on its way to it. -/
theorem Synced.open_tab (synced : Synced options none w) (unopened : (w.hubs tab).phase = .unopened) :
    Synced options none (w.put tab { Hub.unopened with phase := .live, leader := !options.shared }) := by
  have notLive : ¬ w.Live tab := by
    unfold World.Live
    rw [unopened]
    nofun
  have live : ∀ one, (w.put tab { Hub.unopened with phase := .live, leader := !options.shared }).Live one ↔
      one = tab ∨ w.Live one := by
    intro one
    unfold World.Live
    by_cases is : one = tab
    · subst is
      simp
    · rw [put_other w _ is]
      simp [is]
  have held : ∀ one peer, (w.put tab { Hub.unopened with phase := .live, leader := !options.shared }).held one peer =
      if one = tab then none else w.held one peer := by
    intro one peer
    unfold World.held
    by_cases is : one = tab
    · rw [is, put_hub, if_pos rfl]
      rfl
    · rw [put_other w _ is, if_neg is]
  have same_hub : ∀ one, one ≠ tab →
      (w.put tab { Hub.unopened with phase := .live, leader := !options.shared }).hubs one = w.hubs one :=
    fun one other => put_other w _ other
  have new : (w.put tab { Hub.unopened with phase := .live, leader := !options.shared }).hubs tab =
      { Hub.unopened with phase := .live, leader := !options.shared } := put_hub ..
  have flight : (w.put tab { Hub.unopened with phase := .live, leader := !options.shared }).flight = w.flight := rfl
  have lock : (w.put tab { Hub.unopened with phase := .live, leader := !options.shared }).lock = w.lock := rfl
  generalize w.put tab { Hub.unopened with phase := .live, leader := !options.shared } = next at *
  have others : ∀ {one}, one ≠ tab → (one = tab ∨ w.Live one) → w.Live one := by
    intro one other there
    exact there.resolve_left other
  have silent : (Hub.localUrls options { Hub.unopened with phase := .live, leader := !options.shared }) = fun _ => ∅ := rfl
  refine ⟨?_, ?_, ?_⟩
  · constructor <;> simp only [live, held, flight, lock]
    case holder =>
      intro shared one there
      by_cases is : one = tab
      · rw [is, new]
        have unlocked : w.lock ≠ some tab := fun locked => notLive (synced.locked tab locked)
        simp [shared, unlocked]
      · rw [same_hub one is]
        exact synced.holder shared one (others is there)
    case locked => exact fun one locked => .inr (synced.locked one locked)
    case alone =>
      intro unshared
      obtain ⟨leads, quiet, none_⟩ := synced.alone unshared
      refine ⟨?_, quiet, ?_⟩
      · intro one there
        by_cases is : one = tab
        · rw [is, new]
          simp [unshared]
        · rw [same_hub one is]
          exact leads one (others is there)
      · intro one peer
        split
        · rfl
        · exact none_ one peer
    case closed => exact fun from_ to_ absent => synced.closed from_ to_ fun there => absent (.inr there)
    case own =>
      intro one
      refine ⟨(synced.own one).1, ?_⟩
      split
      · rfl
      · exact (synced.own one).2
    case followers =>
      intro one there follows
      by_cases is : one = tab
      · subst is
        rw [new]
        exact ⟨fun _ => if_pos rfl, fun _ => rfl⟩
      · rw [same_hub one is] at follows ⊢
        simp only [if_neg is]
        exact synced.followers one (others is there) follows
    case gone =>
      intro one there peer absent
      have away : ¬ w.Live peer := fun there => absent (.inr there)
      by_cases is : one = tab
      · rw [if_pos is, is, synced.closed peer tab notLive]
        rfl
      · rw [if_neg is]
        exact synced.gone one (others is there) peer away
  · simp only [live, held, flight]
    intro shared one there leads peer present apart _
    have other : one ≠ tab := by
      rintro rfl
      rw [new] at leads
      simp [shared] at leads
    rw [same_hub one other] at leads
    rw [if_neg other]
    by_cases is : peer = tab
    · right
      subst is
      rw [synced.gone one (others other there) peer notLive, new]
      exact silent.symm
    · rw [same_hub peer is]
      exact synced.agreed shared one (others other there) leads peer (others is present) apart nofun
  · simp only [live]
    intro one there leads _
    by_cases is : one = tab
    · rw [is, new]
      intro url
      exact .inl ⟨rfl, rfl⟩
    · rw [same_hub one is] at leads ⊢
      exact synced.opened one (others is there) leads nofun

/-- A tab that gets the lock asks its peers what they want. -/
theorem Synced.become_leader (synced : Synced options none w) (live : w.Live tab) (shared : options.shared = true)
    (free : w.lock = none) : Synced options none (w.becomeLeader options tab) := by
  have follows : ∀ one, w.Live one → (w.hubs one).leader = false := by
    intro one there
    cases leads : (w.hubs one).leader with
    | false => rfl
    | true =>
      rw [(synced.holder shared one there).mp leads] at free
      cases free
  have live' : ∀ one, ({ w.put tab { w.hubs tab with leader := true } with lock := some tab } : World).Live one ↔
      w.Live one := put_live w tab rfl
  have held : ∀ one peer, ({ w.put tab { w.hubs tab with leader := true } with lock := some tab } : World).held one peer =
      w.held one peer := put_held w tab rfl
  have same_hub : ∀ one, one ≠ tab →
      ({ w.put tab { w.hubs tab with leader := true } with lock := some tab } : World).hubs one = w.hubs one :=
    fun one other => put_other w _ other
  have new : ({ w.put tab { w.hubs tab with leader := true } with lock := some tab } : World).hubs tab =
      { w.hubs tab with leader := true } := put_hub ..
  have flight : ({ w.put tab { w.hubs tab with leader := true } with lock := some tab } : World).flight = w.flight := rfl
  have lock : ({ w.put tab { w.hubs tab with leader := true } with lock := some tab } : World).lock = some tab := rfl
  unfold World.becomeLeader
  generalize ({ w.put tab { w.hubs tab with leader := true } with lock := some tab } : World) = next at *
  have framed : Framed options next := by
    constructor <;> simp only [live', held, flight, lock]
    case holder =>
      intro _ one there
      by_cases is : one = tab
      · rw [is, new]
        simp
      · rw [same_hub one is, follows one there]
        simp [Ne.symm is]
    case locked =>
      intro one is
      exact Option.some.inj is ▸ live
    case alone =>
      intro unshared
      rw [shared] at unshared
      cases unshared
    case closed => exact synced.closed
    case own => exact synced.own
    case followers =>
      intro one there follows'
      have other : one ≠ tab := by
        rintro rfl
        rw [new] at follows'
        cases follows'
      rw [same_hub one other] at follows' ⊢
      exact synced.followers one there follows'
    case gone => exact synced.gone
  have leader_is : ∀ one, w.Live one → (next.hubs one).leader = true → one = tab := by
    intro one there leads
    by_contra other
    rw [same_hub one other, follows one there] at leads
    cases leads
  have asked : Synced options (some tab) (next.postMessage options tab .who) := by
    refine ⟨framed.post ((live' tab).mpr live) .who, ?_, ?_⟩ <;> simp only [post_hubs, post_live, live']
    · intro _ one there leads peer present apart _
      have is := leader_is one there leads
      subst is
      left
      rw [post_sent next one .who shared apart ((live' peer).mpr present)]
      exact List.mem_append_right _ (List.mem_singleton_self _)
    · intro one there leads counted
      exact absurd (congrArg some (leader_is one there leads)) counted
  apply asked.reconcile
  · simpa using (live' tab).mpr live
  · intro id _ peer found
    rw [post_hubs] at found
    have none_ : next.held tab id = none := by
      rw [held]
      exact (synced.followers tab live (follows tab live)).1 id
    unfold World.held at none_
    rw [found] at none_
    cases none_
  · rw [post_hubs, new]

theorem dispose_flight (options : HubOptions) (w : World) (tab from_ to_ : TabId) :
    (w.dispose options tab).flight from_ to_ =
      if to_ = tab then []
      else if options.shared = true ∧ from_ = tab ∧ w.Live to_ then w.flight from_ to_ ++ [.bye]
      else w.flight from_ to_ := by
  unfold World.dispose
  simp only
  by_cases here : to_ = tab
  · rw [if_pos here, here]
    exact close_self from_
  · rw [if_neg here, close_other from_ here]
    have alive : (w.put tab { w.hubs tab with phase := .left, sources := fun _ => none }).isLive to_ = w.isLive to_ := by
      unfold World.isLive
      rw [put_other w _ here]
    unfold World.postMessage
    by_cases shared : options.shared = true
    · rw [if_pos shared]
      unfold broadcast
      simp only [alive, isLive_iff, here, shared, true_and, ne_eq, not_false_eq_true]
      rfl
    · rw [if_neg shared, if_neg fun sent => shared sent.1]
      rfl

/-- A tab that leaves says so, and lets the lock go. -/
theorem Synced.dispose (synced : Synced options none w) (live : w.Live tab) :
    Synced options none (w.dispose options tab) := by
  have hubs : (w.dispose options tab).hubs = (w.put tab { w.hubs tab with phase := .left, sources := fun _ => none }).hubs :=
    post_hubs ..
  have same_hub : ∀ one, one ≠ tab → (w.dispose options tab).hubs one = w.hubs one := by
    intro one other
    rw [hubs]
    exact put_other w _ other
  have live' : ∀ one, (w.dispose options tab).Live one ↔ one ≠ tab ∧ w.Live one := by
    intro one
    unfold World.Live
    rw [hubs]
    by_cases is : one = tab
    · rw [is, put_hub]
      simp
    · rw [put_other w _ is]
      simp [is]
  have held : ∀ one peer, (w.dispose options tab).held one peer = w.held one peer := by
    intro one peer
    unfold World.held
    rw [hubs]
    by_cases is : one = tab
    · rw [is, put_hub]
    · rw [put_other w _ is]
  have lock : (w.dispose options tab).lock = if w.lock = some tab then none else w.lock := rfl
  have flight := dispose_flight options w tab
  have towards : ∀ from_ to_, to_ ≠ tab → from_ ≠ tab → (w.dispose options tab).flight from_ to_ = w.flight from_ to_ := by
    intro from_ to_ other away
    rw [flight, if_neg other, if_neg fun sent => away sent.2.1]
  generalize w.dispose options tab = next at *
  refine ⟨?_, ?_, ?_⟩
  · constructor <;> simp only [live', held, lock]
    case holder =>
      intro shared one there
      rw [same_hub one there.1, synced.holder shared one there.2]
      by_cases locked : w.lock = some tab
      · rw [if_pos locked, locked]
        simp [Ne.symm there.1]
      · rw [if_neg locked]
    case locked =>
      intro one locked
      split at locked
      · cases locked
      · rename_i other
        refine ⟨?_, synced.locked one locked⟩
        rintro rfl
        exact other locked
    case alone =>
      intro unshared
      obtain ⟨leads, quiet, none_⟩ := synced.alone unshared
      refine ⟨?_, ?_, none_⟩
      · intro one there
        rw [same_hub one there.1]
        exact leads one there.2
      · intro from_ to_
        rw [flight, quiet]
        simp [unshared]
    case closed =>
      intro from_ to_ absent
      rw [flight]
      split
      · rfl
      · rename_i other
        have away : ¬ w.Live to_ := fun there => absent ⟨other, there⟩
        rw [if_neg fun sent => away sent.2.2, synced.closed from_ to_ away]
    case own =>
      intro one
      refine ⟨?_, (synced.own one).2⟩
      by_cases is : one = tab
      · rw [is, flight, if_pos rfl]
      · rw [towards one one is is, (synced.own one).1]
    case followers =>
      intro one there follows
      rw [same_hub one there.1] at follows ⊢
      exact synced.followers one there.2 follows
    case gone =>
      intro one there peer absent
      by_cases is : peer = tab
      · rw [is, flight, if_neg there.1]
        split
        · rw [outcome_append]
          rfl
        · rename_i unsent
          have unshared : options.shared = false := by
            cases shared : options.shared with
            | false => rfl
            | true => exact absurd ⟨shared, rfl, there.2⟩ unsent
          obtain ⟨-, quiet, none_⟩ := synced.alone unshared
          rw [none_, quiet]
          rfl
      · rw [towards peer one there.1 is]
        exact synced.gone one there.2 peer fun present => absent ⟨is, present⟩
  · simp only [live', held]
    intro shared one there leads peer present apart _
    rw [same_hub one there.1] at leads
    rw [same_hub peer present.1, towards one peer present.1 there.1, towards peer one there.1 present.1]
    exact synced.agreed shared one there.2 leads peer present.2 apart nofun
  · simp only [live']
    intro one there leads _
    rw [same_hub one there.1] at leads ⊢
    exact synced.opened one there.2 leads nofun

theorem Synced.noted (synced : Synced options excepted w) (now : Nat) (calls : List Call) :
    Synced options excepted { w with now := now, calls := calls } :=
  ⟨⟨synced.holder, synced.locked, synced.alone, synced.closed, synced.own, synced.followers, synced.gone⟩, synced.agreed,
    synced.opened⟩

theorem Synced.put_changed (synced : Synced options none w) (punctual : w.Punctual options) (live : w.Live tab) {hub : Hub}
    (alike : SeenAlike (w.hubs tab) hub) : Synced options none ((w.put tab hub).changed options tab) := by
  have live' := put_live w tab alike.phase
  apply ((synced.except tab).put alike (fun other => absurd rfl other)).changed ((live' tab).mpr live)
  intro id there peer found
  rw [put_hub, alike.peers] at found
  exact punctual tab live id ((live' id).mp there) peer found

/-- What a tab receives. -/
theorem Synced.receive (synced : Synced options none w) (punctual : w.Punctual options) (live : w.Live tab)
    (head : w.flight sender tab = message :: rest) :
    Synced options none ((w.pop sender tab).receiveMessage options sender tab message) := by
  have live' : (w.pop sender tab).Live tab := live
  have apart := pop_apart synced.toFramed head
  have takes : ∀ peers : Dict TabId Peer, (w.hubs tab).leader = true →
      (peers.lookup sender).map Peer.urls = taken (w.held tab sender) message →
      (∀ peer, peer ≠ sender → peers.lookup peer = (w.hubs tab).peers.lookup peer) →
      (∀ peer, peers.lookup sender = some peer → w.now ≤ peer.seen + options.peerTimeoutMs) →
      Synced options none (((w.pop sender tab).put tab { w.hubs tab with peers := peers }).reconcile options tab) := by
    intro peers leads said others recent
    apply (synced.take_in head live leads peers said others).reconcile
    · exact (put_live (w.pop sender tab) tab (by rfl) tab).mpr live
    · intro id there peer found
      rw [put_hub] at found
      by_cases is : id = sender
      · exact recent peer (is ▸ found)
      · rw [others id is] at found
        exact punctual tab live id ((put_live (w.pop sender tab) tab (by rfl) id).mp there) peer found
    · rw [put_hub]
      exact leads
  have hubs : (w.pop sender tab).hubs = w.hubs := rfl
  cases message with
  | event event number =>
    have popped := synced.pop head live (.inl fun _ => rfl) (.inl nofun)
    simp only [World.receiveMessage, hubs]
    split
    · exact popped
    · exact popped.put ⟨rfl, rfl, rfl, rfl⟩ fun _ => rfl
  | who =>
    have popped := (synced.except tab).pop head live (.inl fun _ => rfl) (.inr rfl)
    simp only [World.receiveMessage, World.announce]
    split
    · rename_i leads
      exact popped.recover live' leads (synced.opened tab live leads nofun)
    · rename_i follows
      exact popped.post_urls live' (Bool.eq_false_iff.mpr follows)
  | bye =>
    simp only [World.receiveMessage, hubs]
    split
    · rename_i leads
      apply takes _ leads
      · rw [erase_lookup, if_pos rfl]
        rfl
      · intro peer other
        rw [erase_lookup, if_neg other]
      · intro peer found
        rw [erase_lookup, if_pos rfl] at found
        cases found
    · rename_i follows
      exact synced.pop head live (.inr (Bool.eq_false_iff.mpr follows)) (.inl nofun)
  | subs urls =>
    simp only [World.receiveMessage, hubs]
    split
    · rename_i leads
      apply takes _ leads
      · rw [insert_lookup, if_pos rfl]
        rfl
      · intro peer other
        rw [insert_lookup, if_neg other]
      · intro peer found
        rw [insert_lookup, if_pos rfl] at found
        cases found
        exact Nat.le_add_right _ _
    · rename_i follows
      exact synced.pop head live (.inr (Bool.eq_false_iff.mpr follows)) (.inl nofun)

theorem visit_synced (synced : Synced options none w) (live : w.Live tab) (dispatch : Dispatch) :
    Synced options none (w.visit options tab dispatch) := by
  have puts : ∀ dispatching, Synced options none (w.put tab { w.hubs tab with dispatching := dispatching }) :=
    fun dispatching => synced.put ⟨rfl, rfl, rfl, rfl⟩ fun _ => rfl
  unfold World.visit
  simp only
  split
  · split
    · exact (puts _).noted _ _
    · exact puts _
  · split
    · exact (puts none).post_neutral ((put_live w tab (by rfl) tab).mpr live) fun _ => rfl
    · exact puts none

/-- Every step keeps leader and tabs in agreement, while no leader has forgotten a peer that is there. -/
theorem step_synced (synced : Synced options none w) (punctual : w.Punctual options) (action : Action) :
    Synced options none (step options w action) := by
  cases action with
  | openTab tab =>
    simp only [step]
    split
    · rename_i unopened
      exact synced.open_tab unopened.1
    · exact synced
  | subscribe tab url events background =>
    simp only [step]
    split
    · rename_i live
      exact synced.put_changed punctual live ⟨rfl, rfl, rfl, rfl⟩
    · exact synced
  | unsubscribe tab listener =>
    simp only [step]
    split
    · split
      · rename_i live
        exact synced.put_changed punctual live ⟨rfl, rfl, rfl, rfl⟩
      · exact synced
    · exact synced
  | setHidden tab hidden =>
    simp only [step]
    split
    · rename_i idle
      split
      · exact synced.put_changed punctual idle.1.1 ⟨rfl, rfl, rfl, rfl⟩
      · rename_i stays
        refine synced.put ⟨rfl, rfl, rfl, rfl⟩ ?_
        intro _
        have dormant : ((w.hubs tab).dormant && hidden) = (w.hubs tab).dormant := by
          cases asleep : (w.hubs tab).dormant with
          | false => rfl
          | true =>
            cases hidden with
            | true => rfl
            | false => exact absurd ⟨asleep, rfl⟩ stays
        unfold Hub.localUrls Hub.counts Hub.setHidden
        simp only [dormant]
    · exact synced
  | hiddenTimeout tab =>
    simp only [step]
    split
    · rename_i idle
      exact synced.put_changed punctual idle.1.1 ⟨rfl, rfl, rfl, rfl⟩
    · exact synced
  | heartbeat tab =>
    simp only [step]
    split
    · rename_i idle
      have beats := synced.put_changed punctual idle.1.1 ⟨rfl, rfl, rfl, rfl⟩
      rwa [put_self] at beats
    · exact synced
  | lead tab =>
    simp only [step]
    split
    · rename_i may
      exact synced.become_leader may.1.1 may.2.1 may.2.2
    · exact synced
  | leave tab =>
    simp only [step]
    split
    · rename_i idle
      exact synced.dispose idle.1
    · exact synced
  | deliver sender tab =>
    simp only [step]
    split
    · rename_i message rest head
      split
      · rename_i idle
        exact synced.receive punctual idle.1 head
      · exact synced
    · exact synced
  | sourceEvent tab url name data lastEventId =>
    simp only [step]
    split
    · exact synced.put ⟨rfl, rfl, rfl, rfl⟩ fun _ => rfl
    · exact synced
  | visit tab =>
    simp only [step]
    split
    · split
      · rename_i live
        exact visit_synced synced live _
      · exact synced
    · exact synced
  | wait ms => exact synced.noted _ _

/-- The listeners of every tab are in order. -/
def World.Listened (w : World) : Prop := ∀ tab, (w.hubs tab).listening.Good

theorem World.Listened.put (listened : w.Listened) {hub : Hub} (good : hub.listening.Good) : (w.put tab hub).Listened := by
  intro other
  by_cases same : other = tab
  · rw [same, put_hub]
    exact good
  · rw [put_other w hub same]
    exact listened other

theorem World.Listened.put_same (listened : w.Listened) {hub : Hub} (same : hub.listening = (w.hubs tab).listening) :
    (w.put tab hub).Listened := by
  apply listened.put
  rw [same]
  exact listened tab

theorem World.Listened.post (listened : w.Listened) (message : Message) :
    (w.postMessage options tab message).Listened := by
  intro other
  rw [post_hubs]
  exact listened other

theorem World.Listened.reconcile (listened : w.Listened) : (w.reconcile options tab).Listened := by
  intro other
  rw [(reconcile_hub w tab other).2.2.2]
  exact listened other

theorem World.Listened.announce (listened : w.Listened) : (w.announce options tab).Listened := by
  unfold World.announce
  split
  · exact listened
  · exact listened.post _

theorem World.Listened.changed (listened : w.Listened) : (w.changed options tab).Listened :=
  listened.announce.reconcile

/-- No callback is called whose set was replaced by another one of its URL. -/
def World.Careful (w : World) : Action → Prop
  | .unsubscribe tab listener =>
    ((w.hubs tab).listening.callbacks[listener]?).all (fun callback => (w.hubs tab).listening.Fresh callback) = true
  | _ => True

instance (w : World) (action : Action) : Decidable (w.Careful action) :=
  match action with
  | .unsubscribe .. => inferInstanceAs (Decidable (_ = true))
  | .openTab _ | .subscribe .. | .setHidden .. | .hiddenTimeout _ | .heartbeat _ | .lead _ | .leave _ | .deliver ..
  | .sourceEvent .. | .visit _ | .wait _ => inferInstanceAs (Decidable True)

theorem step_listened (listened : w.Listened) {action : Action} (careful : w.Careful action) :
    (step options w action).Listened := by
  cases action with
  | openTab tab =>
    simp only [step]
    split
    · exact listened.put .empty
    · exact listened
  | subscribe tab url events background =>
    simp only [step]
    split
    · exact (listened.put ((listened tab).subscribe url events background)).changed
    · exact listened
  | unsubscribe tab listener =>
    simp only [step]
    split
    · rename_i callback found
      split
      · have fresh : (w.hubs tab).listening.Fresh callback := by
          simpa [World.Careful, found] using careful
        exact (listened.put ((listened tab).unsubscribe (List.mem_of_getElem? found) fresh)).changed
      · exact listened
    · exact listened
  | setHidden tab hidden =>
    simp only [step]
    split
    · split
      · exact (listened.put_same (by rfl)).changed
      · exact listened.put_same (by rfl)
    · exact listened
  | hiddenTimeout tab =>
    simp only [step]
    split
    · exact (listened.put_same (by rfl)).changed
    · exact listened
  | heartbeat tab =>
    simp only [step]
    split
    · exact listened.changed
    · exact listened
  | lead tab =>
    simp only [step]
    split
    · have leads : ({ w.put tab { w.hubs tab with leader := true } with lock := some tab } : World).Listened :=
        listened.put_same (by rfl)
      exact (leads.post _).reconcile
    · exact listened
  | leave tab =>
    simp only [step]
    split
    · have left : (w.put tab { w.hubs tab with phase := .left, sources := fun _ => none }).Listened :=
        listened.put_same (by rfl)
      exact World.Listened.post left .bye
    · exact listened
  | deliver sender tab =>
    simp only [step]
    split
    · rename_i message rest head
      have popped : (w.pop sender tab).Listened := listened
      split
      · show ((w.pop sender tab).receiveMessage options sender tab message).Listened
        cases message with
        | event event number =>
          simp only [World.receiveMessage]
          split
          · exact popped
          · exact popped.put_same (by rfl)
        | who => exact popped.announce
        | bye =>
          simp only [World.receiveMessage]
          split
          · exact (popped.put_same (by rfl)).reconcile
          · exact popped
        | subs urls =>
          simp only [World.receiveMessage]
          split
          · exact (popped.put_same (by rfl)).reconcile
          · exact popped
      · exact listened
    · exact listened
  | sourceEvent tab url name data lastEventId =>
    simp only [step]
    split
    · exact listened.put_same (by rfl)
    · exact listened
  | visit tab =>
    simp only [step]
    split
    · split
      · unfold World.visit
        simp only
        split
        · split
          · exact listened.put_same (by rfl)
          · exact listened.put_same (by rfl)
        · split
          · exact (World.Listened.put_same listened (by rfl)).post _
          · exact listened.put_same (by rfl)
      · exact listened
    · exact listened
  | wait ms => exact listened

end Rdst.Web.SharedStreams
