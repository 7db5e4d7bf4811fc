import Rdst.Web.SharedRun

namespace Rdst.Web.SharedStreams

open Assoc Channels Machine

/-- The numbers of the events among messages. -/
def eventNumbers (messages : List Message) : List Nat :=
  messages.filterMap fun message =>
    match message with
    | .event _ number => some number
    | _ => none

/-- The number that the next event to the peers has at least. -/
def Hub.posted (hub : Hub) : Nat :=
  match hub.dispatching with
  | some dispatch => if dispatch.relay = true then dispatch.receipt.number else hub.received
  | none => hub.received

/-- A call of a listener for an event. -/
def Call.key (call : Call) : TabId × Nat × Receipt := (call.tab, call.listener, call.receipt)

/-- Up to which number every tab has taken in the events of every leader. -/
structure Heard (w : World) (heard : TabId → TabId → Nat) : Prop where
  sorted : ∀ sender tab, (eventNumbers (w.flight sender tab)).Pairwise (· < ·)
  fresh : ∀ sender tab, ∀ number ∈ eventNumbers (w.flight sender tab),
    heard sender tab ≤ number ∧ number < (w.hubs sender).posted
  below : ∀ sender tab, tab ≠ sender → heard sender tab ≤ (w.hubs sender).posted
  own : ∀ tab, heard tab tab ≤ (w.hubs tab).received
  relays : ∀ tab dispatch, (w.hubs tab).dispatching = some dispatch → dispatch.relay = true →
    dispatch.receipt.leader = tab ∧ dispatch.receipt.number < (w.hubs tab).received
  dispatching : ∀ tab dispatch, (w.hubs tab).dispatching = some dispatch →
    heard dispatch.receipt.leader tab = dispatch.receipt.number + 1
  called : ∀ call ∈ w.calls, call.receipt.number < heard call.receipt.leader call.tab
  current : ∀ tab dispatch, (w.hubs tab).dispatching = some dispatch → ∀ call ∈ w.calls, call.tab = tab →
    call.receipt = dispatch.receipt → call.listener < dispatch.next
  distinct : (w.calls.map Call.key).Nodup

/-- Callbacks are added, to sets in use under their URL alone. -/
structure Grows (listening listening' : Listening) : Prop where
  callbacks : listening.callbacks ⊆ listening'.callbacks
  sets : listening.nextSet ≤ listening'.nextSet
  urls : ∀ set < listening.nextSet, ∀ url, (∀ callback ∈ listening.callbacks, callback.set = set → callback.url = url) →
    ∀ callback ∈ listening'.callbacks, callback.set = set → callback.url = url

/-- What a step changes that is not about events. -/
structure Silent (w w' : World) : Prop where
  grows : ∀ tab, Grows (w.hubs tab).listening (w'.hubs tab).listening
  dispatching : ∀ tab, (w'.hubs tab).dispatching = (w.hubs tab).dispatching
  received : ∀ tab, (w'.hubs tab).received = (w.hubs tab).received
  numbers : ∀ sender tab, (eventNumbers (w'.flight sender tab)).Sublist (eventNumbers (w.flight sender tab))
  calls : w'.calls = w.calls

variable {options : HubOptions} {w w' w'' : World} {tab sender : TabId} {heard : TabId → TabId → Nat}

theorem Grows.refl (listening : Listening) : Grows listening listening :=
  ⟨List.Subset.refl _, le_refl _, fun _ _ _ urls => urls⟩

theorem Grows.trans {first second third : Listening} (one : Grows first second) (other : Grows second third) :
    Grows first third := by
  refine ⟨fun _ member => other.callbacks (one.callbacks member), one.sets.trans other.sets, ?_⟩
  intro set used url urls
  exact other.urls set (lt_of_lt_of_le used one.sets) url (one.urls set used url urls)

theorem Grows.unopened {listening : Listening} (good : listening.Good) (unused : listening.nextSet = 0) :
    Grows listening .empty := by
  refine ⟨?_, unused.le, ?_⟩
  · intro callback member
    have := good.made callback member
    omega
  · intro set used
    omega

theorem Grows.subscribe {listening : Listening} (good : listening.Good) (url : Url) (events : Finset String)
    (background : Bool) : Grows listening (listening.subscribe url events background) := by
  unfold Listening.subscribe
  refine ⟨List.subset_append_left _ _, ?_, ?_⟩
  · simp only
    split <;> omega
  · intro set used other urls callback member within
    rcases List.mem_append.mp member with old | last
    · exact urls callback old within
    · rw [List.mem_singleton.mp last] at within ⊢
      simp only at within ⊢
      cases current : listening.current url with
      | none =>
        rw [current] at within
        simp only [Option.getD_none] at within
        omega
      | some there =>
        rw [current] at within
        simp only [Option.getD_some] at within
        subst within
        obtain ⟨listener, inside⟩ := List.exists_mem_of_ne_nil _ (good.nonempty url there current)
        obtain ⟨callback', subscribed, is, -⟩ := good.members there listener inside
        rw [← urls callback' subscribed.1 is, good.urls url there current callback' subscribed.1 is]

theorem Grows.unsubscribe (listening : Listening) (callback : Callback) :
    Grows listening (listening.unsubscribe callback) := ⟨List.Subset.refl _, le_refl _, fun _ _ _ urls => urls⟩

theorem Silent.refl (w : World) : Silent w w := ⟨fun _ => .refl _, fun _ => rfl, fun _ => rfl, fun _ _ => List.Sublist.refl _, rfl⟩

theorem Silent.trans (first : Silent w w') (second : Silent w' w'') : Silent w w'' :=
  ⟨fun tab => (first.grows tab).trans (second.grows tab), fun tab => (second.dispatching tab).trans (first.dispatching tab),
    fun tab => (second.received tab).trans (first.received tab),
    fun sender tab => (second.numbers sender tab).trans (first.numbers sender tab), second.calls.trans first.calls⟩

theorem Silent.put {hub : Hub} (dispatching : hub.dispatching = (w.hubs tab).dispatching)
    (received : hub.received = (w.hubs tab).received) (grows : Grows (w.hubs tab).listening hub.listening) :
    Silent w (w.put tab hub) := by
  refine ⟨?_, put_same w tab Hub.dispatching dispatching, put_same w tab Hub.received received, fun _ _ => List.Sublist.refl _, rfl⟩
  intro other
  by_cases is : other = tab
  · rw [is, put_hub]
    exact grows
  · rw [put_other w _ is]
    exact .refl _

theorem Silent.put_same {hub : Hub} (dispatching : hub.dispatching = (w.hubs tab).dispatching)
    (received : hub.received = (w.hubs tab).received) (listening : hub.listening = (w.hubs tab).listening) :
    Silent w (w.put tab hub) :=
  .put dispatching received (listening ▸ .refl _)

theorem Silent.post (options : HubOptions) (w : World) (tab : TabId) {message : Message} (quiet : eventNumbers [message] = []) :
    Silent w (w.postMessage options tab message) := by
  refine ⟨fun _ => by rw [post_hubs]; exact .refl _, fun _ => by rw [post_hubs], fun _ => by rw [post_hubs], ?_,
    post_calls ..⟩
  intro from_ to_
  rcases post_flight options w tab message from_ to_ with ⟨-, -, -, -, sent⟩ | unsent
  · unfold eventNumbers at *
    rw [sent, List.filterMap_append, quiet, List.append_nil]
  · rw [unsent]

theorem Silent.reconcile (w : World) (tab : TabId) : Silent w (w.reconcile options tab) := by
  apply Silent.put
  · unfold Hub.reconcile
    split <;> rfl
  · unfold Hub.reconcile
    split <;> rfl
  · unfold Hub.reconcile
    split <;> exact .refl _

theorem Silent.announce (w : World) (tab : TabId) : Silent w (w.announce options tab) := by
  unfold World.announce
  split
  · exact Silent.refl w
  · exact Silent.post options w tab rfl

theorem Silent.changed (w : World) (tab : TabId) : Silent w (w.changed options tab) :=
  (Silent.announce w tab).trans (Silent.reconcile _ tab)

theorem Silent.pop (w : World) (sender tab : TabId) : Silent w (w.pop sender tab) := by
  refine ⟨fun _ => .refl _, fun _ => rfl, fun _ => rfl, ?_, rfl⟩
  intro from_ to_
  unfold World.pop take
  simp only
  split
  · exact (List.tail_sublist _).filterMap _
  · exact List.Sublist.refl _

theorem Heard.silent (holds : Heard w heard) (silent : Silent w w') : Heard w' heard := by
  have posted : ∀ tab, (w'.hubs tab).posted = (w.hubs tab).posted := by
    intro tab
    unfold Hub.posted
    rw [silent.dispatching, silent.received]
  constructor <;> try simp only [silent.dispatching, silent.received, silent.calls, posted]
  case sorted => exact fun from_ to_ => (holds.sorted from_ to_).sublist (silent.numbers from_ to_)
  case fresh => exact fun from_ to_ number member => holds.fresh from_ to_ number ((silent.numbers from_ to_).subset member)
  case below => exact holds.below
  case own => exact holds.own
  case relays => exact holds.relays
  case dispatching => exact holds.dispatching
  case called => exact holds.called
  case current => exact holds.current
  case distinct => exact holds.distinct

/-- A tab takes in events up to another number. -/
def hearing (heard : TabId → TabId → Nat) (sender tab : TabId) (number : Nat) : TabId → TabId → Nat :=
  fun from_ to_ => if from_ = sender ∧ to_ = tab then number else heard from_ to_

theorem hearing_self (sender tab : TabId) (number : Nat) : hearing heard sender tab number sender tab = number :=
  if_pos ⟨rfl, rfl⟩

theorem hearing_other {from_ to_ : TabId} {number : Nat} (other : ¬ (from_ = sender ∧ to_ = tab)) :
    hearing heard sender tab number from_ to_ = heard from_ to_ := if_neg other

theorem posted_none {hub : Hub} (idle : hub.dispatching = none) : hub.posted = hub.received := by
  unfold Hub.posted
  rw [idle]

/-- A follower takes in an event of the leader. -/
theorem Heard.deliver (holds : Heard w heard) {event : StreamEvent} {number : Nat} {rest : List Message}
    (head : w.flight sender tab = .event event number :: rest) (apart : sender ≠ tab)
    (idle : (w.hubs tab).dispatching = none) (set : Option Nat) :
    Heard ((w.pop sender tab).put tab { w.hubs tab with
      dispatching := some ⟨event, ⟨sender, number⟩, set, 0, false⟩ }) (hearing heard sender tab (number + 1)) := by
  have silent := Silent.pop w sender tab
  have inside : number ∈ eventNumbers (w.flight sender tab) := by
    rw [head]
    exact List.mem_cons_self
  obtain ⟨low, high⟩ := holds.fresh sender tab number inside
  have sorted := holds.sorted sender tab
  have numbers : eventNumbers (w.flight sender tab) = number :: eventNumbers rest := by
    rw [head]
    rfl
  rw [numbers, List.pairwise_cons] at sorted
  have there : ∀ other, other ≠ tab → ((w.pop sender tab).put tab { w.hubs tab with
      dispatching := some ⟨event, ⟨sender, number⟩, set, 0, false⟩ }).hubs other = w.hubs other :=
    fun other away => put_other _ _ away
  have here : ((w.pop sender tab).put tab { w.hubs tab with
      dispatching := some ⟨event, ⟨sender, number⟩, set, 0, false⟩ }).hubs tab =
        { w.hubs tab with dispatching := some ⟨event, ⟨sender, number⟩, set, 0, false⟩ } := put_hub ..
  have flight : ((w.pop sender tab).put tab { w.hubs tab with
      dispatching := some ⟨event, ⟨sender, number⟩, set, 0, false⟩ }).flight = (w.pop sender tab).flight := rfl
  have calls : ((w.pop sender tab).put tab { w.hubs tab with
      dispatching := some ⟨event, ⟨sender, number⟩, set, 0, false⟩ }).calls = w.calls := rfl
  generalize (w.pop sender tab).put tab { w.hubs tab with
    dispatching := some ⟨event, ⟨sender, number⟩, set, 0, false⟩ } = next at *
  have received : ∀ other, (next.hubs other).received = (w.hubs other).received := by
    intro other
    by_cases is : other = tab
    · rw [is, here]
    · rw [there other is]
  have posted : ∀ other, (next.hubs other).posted = (w.hubs other).posted := by
    intro other
    by_cases is : other = tab
    · rw [is, here, posted_none idle]
      rfl
    · rw [there other is]
  constructor
  case sorted =>
    intro from_ to_
    rw [flight]
    exact (holds.sorted from_ to_).sublist (silent.numbers from_ to_)
  case fresh =>
    intro from_ to_ other member
    rw [flight] at member
    rw [posted]
    have before := holds.fresh from_ to_ other ((silent.numbers from_ to_).subset member)
    by_cases is : from_ = sender ∧ to_ = tab
    · obtain ⟨rfl, rfl⟩ := is
      rw [pop_head head] at member
      have := sorted.1 other member
      rw [hearing_self]
      omega
    · rw [hearing_other is]
      exact before
  case below =>
    intro from_ to_ away
    rw [posted]
    by_cases is : from_ = sender ∧ to_ = tab
    · obtain ⟨rfl, rfl⟩ := is
      rw [hearing_self]
      omega
    · rw [hearing_other is]
      exact holds.below from_ to_ away
  case own =>
    intro other
    rw [received, hearing_other fun is => apart (is.1.symm.trans is.2)]
    exact holds.own other
  case relays =>
    intro other dispatch found relay
    by_cases is : other = tab
    · rw [is, here] at found
      cases found
      cases relay
    · rw [there other is] at found ⊢
      exact holds.relays other dispatch found relay
  case dispatching =>
    intro other dispatch found
    by_cases is : other = tab
    · rw [is, here] at found
      cases found
      rw [is, hearing_self]
    · rw [there other is] at found
      rw [hearing_other fun both => is both.2]
      exact holds.dispatching other dispatch found
  case called =>
    intro call member
    rw [calls] at member
    have before := holds.called call member
    by_cases is : call.receipt.leader = sender ∧ call.tab = tab
    · rw [is.1, is.2] at before ⊢
      rw [hearing_self]
      omega
    · rw [hearing_other is]
      exact before
  case current =>
    intro other dispatch found call member at_ same
    rw [calls] at member
    by_cases is : other = tab
    · rw [is, here] at found
      cases found
      have before := holds.called call member
      rw [same, at_, is] at before
      simp only at before
      omega
    · rw [there other is] at found
      exact holds.current other dispatch found call member at_ same
  case distinct =>
    rw [calls]
    exact holds.distinct

/-- A source of the leader receives an event. -/
theorem Heard.source (holds : Heard w heard) (alone : w.flight tab tab = []) (idle : (w.hubs tab).dispatching = none)
    (event : StreamEvent) (set : Option Nat) :
    Heard (w.put tab { w.hubs tab with
      dispatching := some ⟨event, ⟨tab, (w.hubs tab).received⟩, set, 0, true⟩
      received := (w.hubs tab).received + 1 }) (hearing heard tab tab ((w.hubs tab).received + 1)) := by
  have there : ∀ other, other ≠ tab → (w.put tab { w.hubs tab with
      dispatching := some ⟨event, ⟨tab, (w.hubs tab).received⟩, set, 0, true⟩
      received := (w.hubs tab).received + 1 }).hubs other = w.hubs other := fun other away => put_other _ _ away
  have here : (w.put tab { w.hubs tab with
      dispatching := some ⟨event, ⟨tab, (w.hubs tab).received⟩, set, 0, true⟩
      received := (w.hubs tab).received + 1 }).hubs tab = { w.hubs tab with
        dispatching := some ⟨event, ⟨tab, (w.hubs tab).received⟩, set, 0, true⟩
        received := (w.hubs tab).received + 1 } := put_hub ..
  have flight : (w.put tab { w.hubs tab with
      dispatching := some ⟨event, ⟨tab, (w.hubs tab).received⟩, set, 0, true⟩
      received := (w.hubs tab).received + 1 }).flight = w.flight := rfl
  have calls : (w.put tab { w.hubs tab with
      dispatching := some ⟨event, ⟨tab, (w.hubs tab).received⟩, set, 0, true⟩
      received := (w.hubs tab).received + 1 }).calls = w.calls := rfl
  generalize w.put tab { w.hubs tab with
    dispatching := some ⟨event, ⟨tab, (w.hubs tab).received⟩, set, 0, true⟩
    received := (w.hubs tab).received + 1 } = next at *
  have before := holds.own tab
  have posted : ∀ other, (next.hubs other).posted = (w.hubs other).posted := by
    intro other
    by_cases is : other = tab
    · rw [is, here, posted_none idle]
      rfl
    · rw [there other is]
  constructor
  case sorted =>
    intro from_ to_
    rw [flight]
    exact holds.sorted from_ to_
  case fresh =>
    intro from_ to_ number member
    rw [flight] at member
    rw [posted]
    by_cases is : from_ = tab ∧ to_ = tab
    · rw [is.1, is.2, alone] at member
      cases member
    · rw [hearing_other is]
      exact holds.fresh from_ to_ number member
  case below =>
    intro from_ to_ away
    rw [posted, hearing_other fun is => away (is.2.trans is.1.symm)]
    exact holds.below from_ to_ away
  case own =>
    intro other
    by_cases is : other = tab
    · rw [is, here, hearing_self]
    · rw [there other is, hearing_other fun both => is both.1]
      exact holds.own other
  case relays =>
    intro other dispatch found relay
    by_cases is : other = tab
    · rw [is, here] at found ⊢
      cases found
      exact ⟨rfl, Nat.lt_succ_self _⟩
    · rw [there other is] at found ⊢
      exact holds.relays other dispatch found relay
  case dispatching =>
    intro other dispatch found
    by_cases is : other = tab
    · rw [is, here] at found
      cases found
      rw [is, hearing_self]
    · rw [there other is] at found
      rw [hearing_other fun both => is both.2]
      exact holds.dispatching other dispatch found
  case called =>
    intro call member
    rw [calls] at member
    have lower := holds.called call member
    by_cases is : call.receipt.leader = tab ∧ call.tab = tab
    · rw [is.1, is.2] at lower ⊢
      rw [hearing_self]
      omega
    · rw [hearing_other is]
      exact lower
  case current =>
    intro other dispatch found call member at_ same
    rw [calls] at member
    by_cases is : other = tab
    · rw [is, here] at found
      cases found
      have lower := holds.called call member
      rw [same, at_, is] at lower
      simp only at lower
      omega
    · rw [there other is] at found
      exact holds.current other dispatch found call member at_ same
  case distinct =>
    rw [calls]
    exact holds.distinct

/-- The loop goes on behind a listener. -/
theorem Heard.advance (holds : Heard w heard) {dispatch : Dispatch} (found : (w.hubs tab).dispatching = some dispatch)
    {next : Nat} (up : dispatch.next ≤ next) :
    Heard (w.put tab { w.hubs tab with dispatching := some { dispatch with next := next } }) heard := by
  have there : ∀ other, other ≠ tab →
      (w.put tab { w.hubs tab with dispatching := some { dispatch with next := next } }).hubs other = w.hubs other :=
    fun other away => put_other _ _ away
  have here : (w.put tab { w.hubs tab with dispatching := some { dispatch with next := next } }).hubs tab =
      { w.hubs tab with dispatching := some { dispatch with next := next } } := put_hub ..
  have flight : (w.put tab { w.hubs tab with dispatching := some { dispatch with next := next } }).flight = w.flight := rfl
  have calls : (w.put tab { w.hubs tab with dispatching := some { dispatch with next := next } }).calls = w.calls := rfl
  generalize w.put tab { w.hubs tab with dispatching := some { dispatch with next := next } } = after at *
  have received : ∀ other, (after.hubs other).received = (w.hubs other).received := by
    intro other
    by_cases is : other = tab
    · rw [is, here]
    · rw [there other is]
  have posted : ∀ other, (after.hubs other).posted = (w.hubs other).posted := by
    intro other
    by_cases is : other = tab
    · rw [is, here]
      unfold Hub.posted
      rw [found]
    · rw [there other is]
  constructor <;> try simp only [flight, calls, received, posted]
  case sorted => exact holds.sorted
  case fresh => exact holds.fresh
  case below => exact holds.below
  case own => exact holds.own
  case called => exact holds.called
  case distinct => exact holds.distinct
  case relays =>
    intro other dispatch' found' relay
    by_cases is : other = tab
    · rw [is, here] at found'
      cases found'
      rw [is]
      exact holds.relays tab dispatch found relay
    · rw [there other is] at found'
      exact holds.relays other dispatch' found' relay
  case dispatching =>
    intro other dispatch' found'
    by_cases is : other = tab
    · rw [is, here] at found'
      cases found'
      rw [is]
      exact holds.dispatching tab dispatch found
    · rw [there other is] at found'
      exact holds.dispatching other dispatch' found'
  case current =>
    intro other dispatch' found' call member at_ same
    by_cases is : other = tab
    · rw [is, here] at found'
      cases found'
      exact lt_of_lt_of_le (holds.current tab dispatch found call member (at_.trans is) same) up
    · rw [there other is] at found'
      exact holds.current other dispatch' found' call member at_ same

/-- A listener that the loop came to was not called for the event before. -/
theorem Heard.call (holds : Heard w heard) {dispatch : Dispatch} (found : (w.hubs tab).dispatching = some dispatch)
    {listener : Nat} (up : dispatch.next ≤ listener) :
    Heard { w.put tab { w.hubs tab with dispatching := some { dispatch with next := listener + 1 } } with
      calls := w.calls ++ [⟨tab, listener, dispatch.receipt, dispatch.event⟩] } heard := by
  have advanced := holds.advance found (Nat.le_succ_of_le up)
  have fresh : ∀ call ∈ w.calls, call.tab = tab → call.receipt = dispatch.receipt → call.listener ≠ listener := by
    intro call member at_ same
    have := holds.current tab dispatch found call member at_ same
    omega
  have here : (w.put tab { w.hubs tab with dispatching := some { dispatch with next := listener + 1 } }).hubs tab =
      { w.hubs tab with dispatching := some { dispatch with next := listener + 1 } } := put_hub ..
  have calls : (w.put tab { w.hubs tab with dispatching := some { dispatch with next := listener + 1 } }).calls =
      w.calls := rfl
  generalize w.put tab { w.hubs tab with dispatching := some { dispatch with next := listener + 1 } } = after at *
  have running : (after.hubs tab).dispatching = some { dispatch with next := listener + 1 } := by rw [here]
  constructor
  case sorted => exact advanced.sorted
  case fresh => exact advanced.fresh
  case below => exact advanced.below
  case own => exact advanced.own
  case relays => exact advanced.relays
  case dispatching => exact advanced.dispatching
  case called =>
    intro call member
    rcases List.mem_append.mp member with old | last
    · exact advanced.called call (calls ▸ old)
    · rw [List.mem_singleton.mp last]
      have := advanced.dispatching tab _ running
      simp only at this ⊢
      omega
  case current =>
    intro other dispatch' found' call member at_ same
    rcases List.mem_append.mp member with old | last
    · exact advanced.current other dispatch' found' call (calls ▸ old) at_ same
    · rw [List.mem_singleton.mp last] at at_ ⊢
      have is : tab = other := at_
      subst is
      rw [running] at found'
      cases found'
      exact Nat.lt_succ_self _
  case distinct =>
    rw [List.map_append, List.nodup_append]
    refine ⟨holds.distinct, List.nodup_singleton _, ?_⟩
    intro key member other last same
    obtain ⟨call, inside, rfl⟩ := List.mem_map.mp member
    rw [List.map_singleton, List.mem_singleton] at last
    rw [last] at same
    have parts : call.tab = tab ∧ call.listener = listener ∧ call.receipt = dispatch.receipt := by
      simpa [Call.key] using same
    exact fresh call inside parts.1 parts.2.2 parts.2.1

theorem posted_le (holds : Heard w heard) (tab : TabId) : (w.hubs tab).posted ≤ (w.hubs tab).received := by
  unfold Hub.posted
  split
  · rename_i dispatch found
    split
    · rename_i relay
      exact (holds.relays tab dispatch found relay).2.le
    · exact le_refl _
  · exact le_refl _

/-- The loop ends. -/
theorem Heard.finish (holds : Heard w heard) (tab : TabId) :
    Heard (w.put tab { w.hubs tab with dispatching := none }) heard := by
  have there : ∀ other, other ≠ tab → (w.put tab { w.hubs tab with dispatching := none }).hubs other = w.hubs other :=
    fun other away => put_other _ _ away
  have here : (w.put tab { w.hubs tab with dispatching := none }).hubs tab = { w.hubs tab with dispatching := none } :=
    put_hub ..
  have flight : (w.put tab { w.hubs tab with dispatching := none }).flight = w.flight := rfl
  have calls : (w.put tab { w.hubs tab with dispatching := none }).calls = w.calls := rfl
  generalize w.put tab { w.hubs tab with dispatching := none } = after at *
  have received : ∀ other, (after.hubs other).received = (w.hubs other).received := by
    intro other
    by_cases is : other = tab
    · rw [is, here]
    · rw [there other is]
  have posted : ∀ other, (w.hubs other).posted ≤ (after.hubs other).posted := by
    intro other
    by_cases is : other = tab
    · rw [is, here]
      exact posted_le holds tab
    · rw [there other is]
  have running : ∀ other dispatch, (after.hubs other).dispatching = some dispatch →
      (w.hubs other).dispatching = some dispatch := by
    intro other dispatch found
    by_cases is : other = tab
    · rw [is, here] at found
      cases found
    · rwa [there other is] at found
  constructor <;> try simp only [flight, calls, received]
  case sorted => exact holds.sorted
  case own => exact holds.own
  case called => exact holds.called
  case distinct => exact holds.distinct
  case fresh =>
    intro from_ to_ number member
    have before := holds.fresh from_ to_ number member
    exact ⟨before.1, lt_of_lt_of_le before.2 (posted from_)⟩
  case below => exact fun from_ to_ away => (holds.below from_ to_ away).trans (posted from_)
  case relays => exact fun other dispatch found => holds.relays other dispatch (running other dispatch found)
  case dispatching => exact fun other dispatch found => holds.dispatching other dispatch (running other dispatch found)
  case current => exact fun other dispatch found => holds.current other dispatch (running other dispatch found)

/-- The leader's event goes on to the peers. -/
theorem Heard.relay (holds : Heard w heard) {dispatch : Dispatch} (found : (w.hubs tab).dispatching = some dispatch)
    (relay : dispatch.relay = true) :
    Heard ((w.put tab { w.hubs tab with dispatching := none }).postMessage options tab
      (.event dispatch.event dispatch.receipt.number)) heard := by
  have finished := holds.finish tab
  have posted : (w.hubs tab).posted = dispatch.receipt.number := by
    unfold Hub.posted
    rw [found]
    exact if_pos relay
  have next : ((w.put tab { w.hubs tab with dispatching := none }).hubs tab).posted = (w.hubs tab).received := by
    rw [put_hub]
    rfl
  have low : dispatch.receipt.number < (w.hubs tab).received := (holds.relays tab dispatch found relay).2
  have flight : (w.put tab { w.hubs tab with dispatching := none }).flight = w.flight := rfl
  generalize w.put tab { w.hubs tab with dispatching := none } = after at *
  have numbers : ∀ from_ to_, (from_ = tab ∧ to_ ≠ tab ∧
      eventNumbers ((after.postMessage options tab (.event dispatch.event dispatch.receipt.number)).flight from_ to_) =
        eventNumbers (w.flight from_ to_) ++ [dispatch.receipt.number]) ∨
      (after.postMessage options tab (.event dispatch.event dispatch.receipt.number)).flight from_ to_ =
        w.flight from_ to_ := by
    intro from_ to_
    rcases post_flight options after tab (.event dispatch.event dispatch.receipt.number) from_ to_ with
      ⟨-, is, away, -, sent⟩ | unsent
    · left
      refine ⟨is, away, ?_⟩
      rw [sent, flight]
      exact List.filterMap_append
    · right
      rw [unsent, flight]
  constructor
  case sorted =>
    intro from_ to_
    rcases numbers from_ to_ with ⟨is, -, sent⟩ | unsent
    · rw [sent, List.pairwise_append]
      refine ⟨holds.sorted from_ to_, List.pairwise_singleton _ _, ?_⟩
      intro number member last is_last
      rw [List.mem_singleton.mp is_last, ← posted, ← is]
      exact (holds.fresh from_ to_ number member).2
    · rw [unsent]
      exact holds.sorted from_ to_
  case fresh =>
    intro from_ to_ number member
    rw [post_hubs]
    rcases numbers from_ to_ with ⟨is, away, sent⟩ | unsent
    · rw [sent, List.mem_append, List.mem_singleton] at member
      rcases member with old | rfl
      · exact finished.fresh from_ to_ number (flight ▸ old)
      · subst is
        have := holds.below from_ to_ away
        rw [next]
        omega
    · rw [unsent] at member
      exact finished.fresh from_ to_ number (flight ▸ member)
  case below =>
    rw [post_hubs]
    exact finished.below
  case own =>
    rw [post_hubs]
    exact finished.own
  case relays =>
    rw [post_hubs]
    exact finished.relays
  case dispatching =>
    rw [post_hubs]
    exact finished.dispatching
  case called =>
    rw [post_calls]
    exact finished.called
  case current =>
    rw [post_hubs, post_calls]
    exact finished.current
  case distinct =>
    rw [post_calls]
    exact finished.distinct

theorem visit_heard (holds : Heard w heard) {dispatch : Dispatch} (found : (w.hubs tab).dispatching = some dispatch) :
    Heard (w.visit options tab dispatch) heard := by
  unfold World.visit
  simp only
  split
  · rename_i listener comes
    have up : dispatch.next ≤ listener.id := by simpa using List.find?_some comes
    split
    · exact holds.call found up
    · exact holds.advance found (Nat.le_succ_of_le up)
  · split
    · rename_i relay
      exact holds.relay found relay
    · exact holds.finish tab

/-- What a step does with events. -/
inductive Turn (options : HubOptions) (w : World) : World → Prop
  | silent {w' : World} (silent : Silent w w') : Turn options w w'
  | delivered {sender tab : TabId} {event : StreamEvent} {number : Nat} {rest : List Message}
      (head : w.flight sender tab = .event event number :: rest) (apart : sender ≠ tab)
      (idle : (w.hubs tab).dispatching = none) :
      Turn options w ((w.pop sender tab).put tab { w.hubs tab with
        dispatching := some ⟨event, ⟨sender, number⟩, (w.hubs tab).listening.current event.url, 0, false⟩ })
  | source {tab : TabId} (alone : w.flight tab tab = []) (idle : (w.hubs tab).dispatching = none) (event : StreamEvent) :
      Turn options w (w.put tab { w.hubs tab with
        dispatching := some ⟨event, ⟨tab, (w.hubs tab).received⟩, (w.hubs tab).listening.current event.url, 0, true⟩
        received := (w.hubs tab).received + 1 })
  | visited {tab : TabId} {dispatch : Dispatch} (found : (w.hubs tab).dispatching = some dispatch) :
      Turn options w (w.visit options tab dispatch)

theorem step_turn (synced : Synced options none w) (listened : w.Listened) (action : Action) :
    Turn options w (step options w action) := by
  have idles : ∀ {tab}, (w.hubs tab).Idle → (w.hubs tab).dispatching = none :=
    fun idle => Option.isNone_iff_eq_none.mp idle.2
  cases action with
  | openTab tab =>
    simp only [step]
    split
    · rename_i unopened
      apply Turn.silent
      apply Silent.put
      · exact (Option.isNone_iff_eq_none.mp unopened.2.2.1).symm
      · exact unopened.2.2.2.symm
      · exact .unopened (listened tab) unopened.2.1
    · exact .silent (.refl w)
  | subscribe tab url events background =>
    simp only [step]
    split
    · exact .silent ((Silent.put (by rfl) (by rfl) (.subscribe (listened tab) _ _ _)).trans (.changed _ tab))
    · exact .silent (.refl w)
  | unsubscribe tab listener =>
    simp only [step]
    split
    · split
      · exact .silent ((Silent.put (by rfl) (by rfl) (.unsubscribe _ _)).trans (.changed _ tab))
      · exact .silent (.refl w)
    · exact .silent (.refl w)
  | setHidden tab hidden =>
    simp only [step]
    split
    · split
      · exact .silent ((Silent.put_same (by rfl) (by rfl) (by rfl)).trans (.changed _ tab))
      · exact .silent (.put_same (by rfl) (by rfl) (by rfl))
    · exact .silent (.refl w)
  | hiddenTimeout tab =>
    simp only [step]
    split
    · exact .silent ((Silent.put_same (by rfl) (by rfl) (by rfl)).trans (.changed _ tab))
    · exact .silent (.refl w)
  | heartbeat tab =>
    simp only [step]
    split
    · exact .silent (.changed w tab)
    · exact .silent (.refl w)
  | lead tab =>
    simp only [step]
    split
    · have led : Silent w (w.put tab { w.hubs tab with leader := true }) := Silent.put_same (by rfl) (by rfl) (by rfl)
      have leads : Silent w { w.put tab { w.hubs tab with leader := true } with lock := some tab } :=
        ⟨led.grows, led.dispatching, led.received, led.numbers, led.calls⟩
      exact .silent (leads.trans ((Silent.post options _ tab rfl).trans (.reconcile _ tab)))
    · exact .silent (.refl w)
  | leave tab =>
    simp only [step]
    split
    · have left : Silent w (w.put tab { w.hubs tab with phase := .left, sources := fun _ => none }) :=
        Silent.put_same (by rfl) (by rfl) (by rfl)
      have posted := left.trans (Silent.post options _ tab (show eventNumbers [.bye] = [] from rfl))
      apply Turn.silent
      refine ⟨posted.grows, posted.dispatching, posted.received, ?_, posted.calls⟩
      intro from_ to_
      unfold World.dispose close
      simp only
      split
      · exact List.nil_sublist _
      · exact posted.numbers from_ to_
    · exact .silent (.refl w)
  | deliver sender tab =>
    simp only [step]
    split
    · rename_i message rest head
      split
      · rename_i idle
        show Turn options w ((w.pop sender tab).receiveMessage options sender tab message)
        have popped := Silent.pop w sender tab
        cases message with
        | event event number =>
          simp only [World.receiveMessage]
          split
          · exact .silent popped
          · exact .delivered head (pop_apart synced.toFramed head) (idles idle)
        | who => exact .silent (popped.trans (.announce _ tab))
        | bye =>
          simp only [World.receiveMessage]
          split
          · exact .silent (popped.trans ((Silent.put_same (by rfl) (by rfl) (by rfl)).trans (.reconcile _ tab)))
          · exact .silent popped
        | subs urls =>
          simp only [World.receiveMessage]
          split
          · exact .silent (popped.trans ((Silent.put_same (by rfl) (by rfl) (by rfl)).trans (.reconcile _ tab)))
          · exact .silent popped
      · exact .silent (.refl w)
    · exact .silent (.refl w)
  | sourceEvent tab url name data lastEventId =>
    simp only [step]
    split
    · rename_i receives
      exact .source (synced.own tab).1 (idles receives.1) _
    · exact .silent (.refl w)
  | visit tab =>
    simp only [step]
    split
    · rename_i dispatch found
      split
      · exact .visited found
      · exact .silent (.refl w)
    · exact .silent (.refl w)
  | wait ms => exact .silent ⟨fun _ => .refl _, fun _ => rfl, fun _ => rfl, fun _ _ => List.Sublist.refl _, rfl⟩

/-- Every step keeps account of the events that the tabs took in. -/
theorem Heard.turn (holds : Heard w heard) (turn : Turn options w w') : ∃ heard', Heard w' heard' := by
  cases turn with
  | silent silent => exact ⟨heard, holds.silent silent⟩
  | delivered head apart idle => exact ⟨_, holds.deliver head apart idle _⟩
  | source alone idle event => exact ⟨_, holds.source alone idle event _⟩
  | visited found => exact ⟨heard, visit_heard holds found⟩

/-- Events go to listeners of their URL that ask for them. -/
structure Owned (w : World) : Prop where
  sets : ∀ tab dispatch, (w.hubs tab).dispatching = some dispatch → ∀ set, dispatch.set = some set →
    set < (w.hubs tab).listening.nextSet ∧ ∀ callback ∈ (w.hubs tab).listening.callbacks, callback.set = set →
      callback.url = dispatch.event.url
  calls : ∀ call ∈ w.calls, ∃ callback ∈ (w.hubs call.tab).listening.callbacks,
    callback.listener.id = call.listener ∧ callback.url = call.event.url ∧ call.event.name ∈ callback.listener.events

theorem Owned.silent (owned : Owned w) (silent : Silent w w') : Owned w' := by
  constructor
  · intro tab dispatch found set chosen
    rw [silent.dispatching] at found
    obtain ⟨used, urls⟩ := owned.sets tab dispatch found set chosen
    exact ⟨lt_of_lt_of_le used (silent.grows tab).sets, (silent.grows tab).urls set used _ urls⟩
  · intro call member
    rw [silent.calls] at member
    obtain ⟨callback, inside, rest⟩ := owned.calls call member
    exact ⟨callback, (silent.grows call.tab).callbacks inside, rest⟩

/-- A loop of one tab starts or goes on. -/
theorem Owned.run (owned : Owned w) {w' : World} (listening : ∀ other, (w'.hubs other).listening = (w.hubs other).listening)
    (calls : w'.calls = w.calls) (there : ∀ other, other ≠ tab → (w'.hubs other).dispatching = (w.hubs other).dispatching)
    (here : ∀ dispatch, (w'.hubs tab).dispatching = some dispatch → ∀ set, dispatch.set = some set →
      set < (w.hubs tab).listening.nextSet ∧ ∀ callback ∈ (w.hubs tab).listening.callbacks, callback.set = set →
        callback.url = dispatch.event.url) : Owned w' := by
  constructor <;> simp only [listening, calls]
  · intro other dispatch found set chosen
    by_cases is : other = tab
    · rw [is] at found ⊢
      exact here dispatch found set chosen
    · rw [there other is] at found
      exact owned.sets other dispatch found set chosen
  · exact owned.calls

theorem Owned.put (owned : Owned w) {hub : Hub} (listening : hub.listening = (w.hubs tab).listening)
    (here : ∀ dispatch, hub.dispatching = some dispatch → ∀ set, dispatch.set = some set →
      set < (w.hubs tab).listening.nextSet ∧ ∀ callback ∈ (w.hubs tab).listening.callbacks, callback.set = set →
        callback.url = dispatch.event.url) : Owned (w.put tab hub) := by
  apply owned.run (put_same w tab Hub.listening listening) rfl
  · intro other away
    rw [put_other w _ away]
  · rw [put_hub]
    exact here

theorem Owned.post (owned : Owned w) (message : Message) : Owned (w.postMessage options tab message) := by
  refine ⟨?_, ?_⟩
  · rw [post_hubs]
    exact owned.sets
  · rw [post_calls, post_hubs]
    exact owned.calls

theorem Listening.Good.current_owns {listening : Listening} (good : listening.Good) {url : Url} {set : Nat}
    (current : listening.current url = some set) : set < listening.nextSet ∧
      ∀ callback ∈ listening.callbacks, callback.set = set → callback.url = url :=
  ⟨good.used url set current, good.urls url set current⟩

theorem Owned.visit (owned : Owned w) (listened : w.Listened) {dispatch : Dispatch}
    (found : (w.hubs tab).dispatching = some dispatch) : Owned (w.visit options tab dispatch) := by
  have goes : ∀ next, Owned (w.put tab { w.hubs tab with dispatching := some { dispatch with next := next } }) := by
    intro next
    refine owned.put rfl ?_
    intro dispatch' is set chosen
    cases is
    exact owned.sets tab dispatch found set chosen
  have ends : Owned (w.put tab { w.hubs tab with dispatching := none }) := owned.put rfl nofun
  unfold World.visit
  simp only
  split
  · rename_i listener comes
    split
    · rename_i named
      refine ⟨(goes _).sets, ?_⟩
      intro call member
      rcases List.mem_append.mp member with old | last
      · exact (goes (listener.id + 1)).calls call old
      · rw [List.mem_singleton.mp last]
        have inside := List.mem_of_find?_eq_some comes
        cases chosen : dispatch.set with
        | none =>
          rw [chosen] at inside
          cases inside
        | some set =>
          rw [chosen] at inside
          obtain ⟨callback, subscribed, within, same⟩ := (listened tab).members set listener inside
          refine ⟨callback, ?_, congrArg Listener.id same, ?_, same ▸ named⟩
          · simp only [put_hub]
            exact subscribed.1
          · exact (owned.sets tab dispatch found set chosen).2 callback subscribed.1 within
    · exact goes _
  · split
    · exact ends.post _
    · exact ends

theorem Owned.turn (owned : Owned w) (listened : w.Listened) (turn : Turn options w w') : Owned w' := by
  cases turn with
  | silent silent => exact owned.silent silent
  | @delivered sender tab event number rest head apart idle =>
    have popped : Owned (w.pop sender tab) := owned.silent (.pop w sender tab)
    refine popped.put rfl ?_
    intro dispatch is set chosen
    cases is
    exact (listened tab).current_owns chosen
  | @source tab alone idle event =>
    refine owned.put rfl ?_
    intro dispatch is set chosen
    cases is
    exact (listened tab).current_owns chosen
  | visited found => exact owned.visit listened found

/-- All that a run keeps. -/
structure World.Kept (options : HubOptions) (w : World) : Prop where
  synced : Synced options none w
  listened : w.Listened
  heard : ∃ heard, Heard w heard
  owned : Owned w

theorem World.Kept.start (options : HubOptions) : World.start.Kept options := by
  have absent : ∀ tab, ¬ World.start.Live tab := fun tab => nofun
  refine ⟨⟨?_, ?_, ?_⟩, fun _ => .empty, ⟨fun _ _ => 0, ?_⟩, ?_, ?_⟩
  · constructor
    case holder => exact fun _ tab live => absurd live (absent tab)
    case locked => exact fun tab => nofun
    case alone => exact fun _ => ⟨fun tab live => absurd live (absent tab), fun _ _ => rfl, fun _ _ => rfl⟩
    case closed => exact fun _ _ _ => rfl
    case own => exact fun _ => ⟨rfl, rfl⟩
    case followers => exact fun tab live => absurd live (absent tab)
    case gone => exact fun tab live => absurd live (absent tab)
  · exact fun _ tab live => absurd live (absent tab)
  · exact fun tab live => absurd live (absent tab)
  · constructor
    case sorted => exact fun _ _ => List.Pairwise.nil
    case fresh => exact fun _ _ _ member => absurd member List.not_mem_nil
    case below => exact fun _ _ _ => Nat.zero_le _
    case own => exact fun _ => Nat.zero_le _
    case relays => exact fun _ _ => nofun
    case dispatching => exact fun _ _ => nofun
    case called => exact fun _ member => absurd member List.not_mem_nil
    case current => exact fun _ _ => nofun
    case distinct => exact List.nodup_nil
  · exact fun _ _ => nofun
  · exact fun _ member => absurd member List.not_mem_nil

theorem World.Kept.step (kept : w.Kept options) (punctual : w.Punctual options) {action : Action}
    (careful : w.Careful action) : (step options w action).Kept options := by
  obtain ⟨heard, holds⟩ := kept.heard
  have turn := step_turn kept.synced kept.listened action
  exact ⟨step_synced kept.synced punctual action, step_listened kept.listened careful, holds.turn turn,
    kept.owned.turn kept.listened turn⟩

/-- What the tabs share at any time. -/
structure World.Correct (options : HubOptions) (w : World) : Prop where
  sources : Quiet w.flight → ∀ leader, w.Live leader → (w.hubs leader).leader = true → ∀ url,
    ((w.hubs leader).sources url).isSome ↔
      ∃ tab, w.Live tab ∧ (options.shared = true ∨ tab = leader) ∧ (w.hubs tab).Wants options url
  followers : ∀ tab, w.Live tab → (w.hubs tab).leader = false → ∀ url, (w.hubs tab).sources url = none
  once : (w.calls.map Call.key).Nodup
  own : ∀ call ∈ w.calls, ∃ callback ∈ (w.hubs call.tab).listening.callbacks,
    callback.listener.id = call.listener ∧ callback.url = call.event.url ∧ call.event.name ∈ callback.listener.events
  kept : ∀ tab callback, (w.hubs tab).listening.Subscribed callback →
    ∃ set, (w.hubs tab).listening.current callback.url = some set ∧ callback.listener ∈ (w.hubs tab).listening.sets set

/-- Nothing on its way, a peer has said all. -/
theorem Synced.settled (synced : Synced options none w) (quiet : Quiet w.flight) {leader : TabId} (live : w.Live leader)
    (leads : (w.hubs leader).leader = true) (listened : w.Listened) (url : Url) :
    ((w.hubs leader).sources url).isSome ↔
      ∃ tab, w.Live tab ∧ (options.shared = true ∨ tab = leader) ∧ (w.hubs tab).Wants options url := by
  have opened : ((w.hubs leader).sources url).isSome ↔
      (w.hubs leader).localUrls options url ∪ peerNames (w.hubs leader).peers url ≠ ∅ := by
    rcases synced.opened leader live leads nofun url with ⟨closed, none_⟩ | ⟨names, found, some_, -⟩
    · simp [closed, none_]
    · simp [found, some_]
  have peers : ∀ peer urls, w.held leader peer = some urls → (∃ name, name ∈ urls url) →
      options.shared = true ∧ w.Live peer ∧ urls = (w.hubs peer).localUrls options := by
    intro peer urls held _
    have shared : options.shared = true := by
      by_contra unshared
      rw [(synced.alone (Bool.eq_false_iff.mpr unshared)).2.2] at held
      cases held
    have apart : peer ≠ leader := by
      rintro rfl
      rw [(synced.own peer).2] at held
      cases held
    have there : w.Live peer := by
      by_contra absent
      have gone := synced.gone leader live peer absent
      rw [quiet, held] at gone
      cases gone
    refine ⟨shared, there, ?_⟩
    rcases synced.agreed shared leader live leads peer there apart nofun with asked | same
    · rw [quiet] at asked
      cases asked
    · rw [quiet, held] at same
      exact same
  rw [opened, ← Finset.nonempty_iff_ne_empty]
  constructor
  · rintro ⟨name, member⟩
    rcases Finset.mem_union.mp member with local_ | other
    · exact ⟨leader, live, .inr rfl, (wants_iff (listened leader) url).mpr (Finset.ne_empty_of_mem local_)⟩
    · obtain ⟨id, peer, found, named⟩ := mem_peerNames.mp other
      have held : w.held leader id = some peer.urls := by
        unfold World.held
        rw [found]
        rfl
      obtain ⟨shared, there, same⟩ := peers id peer.urls held ⟨name, named⟩
      refine ⟨id, there, .inl shared, (wants_iff (listened id) url).mpr ?_⟩
      rw [← same]
      exact Finset.ne_empty_of_mem named
  · rintro ⟨tab, there, among, wants⟩
    obtain ⟨name, named⟩ := Finset.nonempty_iff_ne_empty.mpr ((wants_iff (listened tab) url).mp wants)
    refine ⟨name, ?_⟩
    by_cases is : tab = leader
    · subst is
      exact Finset.mem_union_left _ named
    · have shared := among.resolve_right is
      apply Finset.mem_union_right
      rcases synced.agreed shared leader live leads tab there is nofun with asked | same
      · rw [quiet] at asked
        cases asked
      · rw [quiet] at same
        have heldNames : name ∈ ((w.held leader tab).getD fun _ => ∅) url := by
          rw [← same] at named
          exact named
        unfold World.held at heldNames
        cases found : (w.hubs leader).peers.lookup tab with
        | none =>
          rw [found] at heldNames
          exact absurd heldNames (Finset.notMem_empty name)
        | some peer =>
          rw [found] at heldNames
          exact mem_peerNames.mpr ⟨tab, peer, found, heldNames⟩

theorem World.Kept.correct (kept : w.Kept options) : w.Correct options := by
  obtain ⟨heard, holds⟩ := kept.heard
  refine ⟨?_, ?_, holds.distinct, kept.owned.calls, ?_⟩
  · exact fun quiet leader live leads url => kept.synced.settled quiet live leads kept.listened url
  · exact fun tab live follows => (kept.synced.followers tab live follows).2
  · exact fun tab callback subscribed => ⟨callback.set, (kept.listened tab).kept callback subscribed⟩

/-- In every run in which no callback is called whose set was replaced and no leader forgets a peer that is there, the
leader's sources are what the tabs want, every listener gets an event at most once and none is removed by another. -/
theorem shared_streams (options : HubOptions) (actions : List Action)
    (meets : EveryTurn (step options) (fun w action => w.Punctual options ∧ w.Careful action) .start actions) :
    (actions.foldl (step options) .start).Correct options := by
  have kept := foldl_invariant (World.Kept options) (fun w action _ ok kept => kept.step ok.1 ok.2) meets (.start options)
  exact kept.correct

theorem punctual_at_start (options : HubOptions) (w : World) (still : w.now = 0) : w.Punctual options := by
  intro tab _ id _ peer _
  rw [still]
  exact Nat.zero_le _

def browser : HubOptions := ⟨true, 150000, 30000⟩

theorem shared_streams_two_tabs :
    (List.foldl (step browser) .start [.openTab "a", .lead "a", .openTab "b", .subscribe "b" "/pulse" {"pulse"} false,
      .deliver "b" "a", .sourceEvent "a" "/pulse" "pulse" (some "1") none, .visit "a", .deliver "a" "b", .visit "b",
      .unsubscribe "b" 0, .deliver "b" "a"]).Correct browser := by
  apply shared_streams
  refine ⟨⟨?_, ?_⟩, ⟨?_, ?_⟩, ⟨?_, ?_⟩, ⟨?_, ?_⟩, ⟨?_, ?_⟩, ⟨?_, ?_⟩, ⟨?_, ?_⟩, ⟨?_, ?_⟩, ⟨?_, ?_⟩, ⟨?_, ?_⟩, ⟨?_, ?_⟩, trivial⟩
  all_goals first
    | exact punctual_at_start _ _ (by decide +kernel)
    | decide +kernel

/-- A callback that is called again takes the listeners with it that subscribed since. -/
theorem second_unsubscribe_removes :
    ¬ (List.foldl (step browser) .start [.openTab "a", .lead "a", .subscribe "a" "/pulse" {"pulse"} false,
      .unsubscribe "a" 0, .subscribe "a" "/pulse" {"pulse"} false, .unsubscribe "a" 0]).Correct browser := by
  intro correct
  have kept := correct.kept "a" ⟨"/pulse", 1, ⟨1, {"pulse"}, false⟩⟩ ⟨by decide +kernel, by decide +kernel⟩
  obtain ⟨set, current, -⟩ := kept
  have unused : ((List.foldl (step browser) .start [.openTab "a", .lead "a", .subscribe "a" "/pulse" {"pulse"} false,
      .unsubscribe "a" 0, .subscribe "a" "/pulse" {"pulse"} false, .unsubscribe "a" 0]).hubs "a").listening.current
        "/pulse" = none := by decide +kernel
  rw [unused] at current
  cases current

end Rdst.Web.SharedStreams
