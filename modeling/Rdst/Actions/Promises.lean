import Rdst.Actions.Reconcile

namespace Rdst.Actions

open Assoc Machine

/-- What a user's verb asks for: a dismissal holds until the action is brought back, a snooze until its date. -/
inductive Promise
  | closed
  | until_ (date : Int)
deriving DecidableEq

/-- The store beside what the users asked for last. -/
structure Promised where
  store : Store
  promise : String → Option Promise

def Promised.start (s : Store) : Promised := ⟨s, fun _ => none⟩

inductive Call
  | reconcile (now : Int) (found : List Candidate) (refreshed : Bool) (e : Evidence)
  | verb (id : Nat) (verb : Verb) (now : Int) (until_ : Option Int) (reason : Option String)

/-- The promise of a verb's write. -/
def Write.promise (w : Write) : Option Promise :=
  match w.state, w.snoozedUntil with
  | .dismissed, _ => some .closed
  | .snoozed, some date => some (.until_ date)
  | _, _ => none

/-- A promise ends when a pass runs at its date or after it. -/
def Promise.at (now : Int) : Promise → Option Promise
  | .closed => some .closed
  | .until_ date => if now < date then some (.until_ date) else none

def call (p : Promised) : Call → Promised
  | .reconcile now found refreshed e =>
    ⟨reconcile p.store now found refreshed e, fun key => (p.promise key).bind (Promise.at now)⟩
  | .verb id verb now until_ reason =>
    match (p.store.byId id).bind fun row => verbWrite row verb now until_ reason with
    | some w => ⟨p.store.write now w, fun key => if key = w.key then w.promise else p.promise key⟩
    | none => p

/-- No pass before its date lists again an action that was set aside and has been closed meanwhile, where
`_stays_closed` lets it open. -/
def NotListedAgain (p : Promised) : Call → Prop
  | .reconcile now found refreshed _ =>
    ∀ c ∈ found, ∀ row ∈ p.store.rows.lookup c.key, row.state ∈ reopenable →
      ∀ date ∈ row.snoozedUntil, now < date → staysClosed row c now refreshed = true
  | .verb .. => True

/-- How a row can stand while a promise holds. -/
def Promise.Fits (row : ActionRow) : Promise → Prop
  | .closed => row.state = .dismissed
  | .until_ date => row.state ∈ .snoozed :: reopenable ∧ row.snoozedUntil = some date

/-- The promises of a kind are kept. -/
structure Promised.Kept (p : Promised) (kind : Promise → Prop) : Prop where
  keyed : p.store.Keyed
  fits : ∀ key promise, kind promise → p.promise key = some promise →
    ∃ row, p.store.rows.lookup key = some row ∧ promise.Fits row

variable {s : Store} {now : Int} {found : List Candidate} {refreshed : Bool} {e : Evidence}

theorem closeVisible_cases (s : Store) (now : Int) (e : Evidence) (w : Write) :
    closeVisible s now e w = w ∨
      w.state ∈ openStates ∧ (closeVisible s now e w).state = .applied ∧ (closeVisible s now e w).key = w.key ∧
        (closeVisible s now e w).snoozedUntil = w.snoozedUntil := by
  unfold closeVisible
  split
  next isOpen =>
    split
    · exact .inr ⟨isOpen.1, rfl, rfl, rfl⟩
    · exact .inl rfl
  next => exact .inl rfl

@[simp] theorem closeVisible_key (s : Store) (now : Int) (e : Evidence) (w : Write) :
    (closeVisible s now e w).key = w.key := by
  rcases closeVisible_cases s now e w with same | ⟨-, -, key, -⟩
  · rw [same]
  · exact key

theorem listed_key {c : Candidate} {w : Write} (writes : listed s now refreshed c = some w) : w.key = c.key := by
  unfold listed at writes
  split at writes
  · cases writes
    rfl
  · split at writes
    · split at writes
      · cases writes
      · cases writes
        rfl
    · cases writes
      rfl

/-- The write for a row without a candidate closes it and leaves its date. -/
theorem unlisted_spec {row : ActionRow} {w : Write} (writes : unlisted now found refreshed e row = some w) :
    w.key = row.key ∧ row.state ∈ openStates ∧ (w.state = .applied ∨ w.state = .retired) ∧
      w.snoozedUntil = row.snoozedUntil := by
  unfold unlisted at writes
  split at writes
  next => cases writes
  next here =>
    rw [not_or, not_not] at here
    split at writes
    · cases writes
      exact ⟨rfl, here.2, .inl rfl, rfl⟩
    · split at writes
      · cases writes
      · split at writes
        · cases writes
          exact ⟨rfl, here.2, .inl rfl, rfl⟩
        · cases writes
          exact ⟨rfl, here.2, .inr rfl, rfl⟩

/-- Where a write over a stored row comes from. -/
theorem reconcile_write (keyed : s.Keyed) {w : Write} (member : w ∈ reconcileWrites s now found refreshed e)
    {row : ActionRow} (there : s.rows.lookup w.key = some row) :
    (∃ c ∈ found, ∃ w₀, c.key = w.key ∧ listed s now refreshed c = some w₀ ∧ w = closeVisible s now e w₀) ∨
      row.state ∈ openStates ∧ (w.state = .applied ∨ w.state = .retired) ∧ w.snoozedUntil = row.snoozedUntil := by
  obtain ⟨w₀, origin, rfl⟩ := List.mem_map.mp member
  rcases List.mem_append.mp origin with candidate | other
  · obtain ⟨c, inside, writes⟩ := List.mem_filterMap.mp candidate
    refine .inl ⟨c, inside, w₀, ?_, writes, rfl⟩
    rw [closeVisible_key, listed_key writes]
  · obtain ⟨row', inside, writes⟩ := List.mem_filterMap.mp other
    obtain ⟨⟨key, _⟩, entry, rfl⟩ := List.mem_map.mp inside
    have found' := AList.mem_lookup_iff.mpr entry
    obtain ⟨same, isOpen, closes, date⟩ := unlisted_spec writes
    rw [closeVisible_key, same, keyed key _ found', Option.mem_def.mp found'] at there
    cases there
    have stays : closeVisible s now e w₀ = w₀ := by
      rcases closeVisible_cases s now e w₀ with same | ⟨isOpen', -⟩
      · exact same
      · rcases closes with state | state <;> simp [state, openStates] at isOpen'
    rw [stays]
    exact .inr ⟨isOpen, closes, date⟩

/-- A pass over a row that a promise holds leaves it held, where its reopening branch is not taken. -/
theorem Promise.fits_write (keyed : s.Keyed) {promise : Promise} {row : ActionRow} {w : Write}
    (member : w ∈ reconcileWrites s now found refreshed e) (there : s.rows.lookup w.key = some row)
    (fits : promise.Fits row) (holds : promise.at now = some promise)
    (notAgain : promise ≠ .closed → ∀ c ∈ found, c.key = w.key → row.state ∈ reopenable →
      ∀ date ∈ row.snoozedUntil, now < date → staysClosed row c now refreshed = true) (id : Nat) (openedAt : Int)
    (why : Option String) : promise.Fits (w.row now id openedAt why) := by
  rcases reconcile_write keyed member there with ⟨c, inside, w₀, key, writes, rfl⟩ | ⟨isOpen, closes, date⟩
  · have there' : s.rows.lookup c.key = some row := by rw [key, there]
    simp only [listed, there'] at writes
    cases promise with
    | closed =>
      have state : row.stateAt now = .dismissed := by
        have closed : row.state = .dismissed := fits
        simp [ActionRow.stateAt, closed]
      rw [state, if_neg (by decide), Option.some.injEq] at writes
      have stays : closeVisible s now e w₀ = w₀ := by
        rcases closeVisible_cases s now e w₀ with same | ⟨isOpen, -⟩
        · exact same
        · simp [← writes, Candidate.over, openStates] at isOpen
      show (closeVisible s now e w₀).state = .dismissed
      rw [stays, ← writes]
      rfl
    | until_ date =>
      obtain ⟨state, until_⟩ := fits
      have before : now < date := by
        by_contra late
        simp [Promise.at, late] at holds
      have asleep : row.stateAt now = row.state := by
        unfold ActionRow.stateAt
        rw [until_, Option.getD_some, if_neg]
        omega
      rw [asleep] at writes
      rcases List.mem_cons.mp state with snoozed | closed
      · rw [snoozed, if_neg (by decide), Option.some.injEq] at writes
        have same : w₀.snoozedUntil = some date := by
          rw [← writes, ← until_]
          rfl
        have was : w₀.state = .snoozed := by
          rw [← writes]
          rfl
        show (closeVisible s now e w₀).state ∈ _ ∧ (closeVisible s now e w₀).snoozedUntil = some date
        rcases closeVisible_cases s now e w₀ with stays | ⟨-, applied, -, kept⟩
        · rw [stays, was]
          exact ⟨by decide, same⟩
        · rw [applied, kept]
          exact ⟨by decide, same⟩
      · rw [if_pos closed, if_pos (notAgain (by simp) c inside key closed date until_ before)] at writes
        cases writes
  · cases promise with
    | closed =>
      have closed : row.state = .dismissed := fits
      rw [closed] at isOpen
      exact absurd isOpen (by decide)
    | until_ until_ =>
      show w.state ∈ _ ∧ w.snoozedUntil = some until_
      rw [date]
      refine ⟨?_, fits.2⟩
      rcases closes with state | state <;> rw [state] <;> decide

theorem Promise.at_eq {promise promise' : Promise} (holds : promise.at now = some promise') : promise' = promise := by
  cases promise with
  | closed =>
    cases holds
    rfl
  | until_ date =>
    unfold Promise.at at holds
    by_cases before : now < date
    · simpa [before] using holds.symm
    · simp [before] at holds

theorem Write.promise_fits {w : Write} {promise : Promise} (asks : w.promise = some promise) (now : Int) (id : Nat)
    (openedAt : Int) (why : Option String) : promise.Fits (w.row now id openedAt why) := by
  unfold Write.promise at asks
  split at asks
  next state =>
    cases asks
    exact state
  next state date =>
    cases asks
    refine ⟨?_, date⟩
    show w.state ∈ _
    rw [state]
    decide
  next => cases asks

theorem Promised.Kept.call {p : Promised} {kind : Promise → Prop} (kept : p.Kept kind) {c : Call}
    (notAgain : (∃ promise, kind promise ∧ promise ≠ .closed) → NotListedAgain p c) : (call p c).Kept kind := by
  cases c with
  | reconcile now found refreshed e =>
    refine ⟨writeActions_keyed kept.keyed _ _, ?_⟩
    intro key promise of asked
    obtain ⟨promise₀, asked₀, holds⟩ := Option.bind_eq_some_iff.mp asked
    obtain rfl := Promise.at_eq holds
    obtain ⟨row, there, fits⟩ := kept.fits key promise of asked₀
    obtain ⟨row', there'⟩ := Option.ne_none_iff_exists'.mp
      (writeActions_keeps (there ▸ Option.some_ne_none row))
    refine ⟨row', there', ?_⟩
    rcases lookup_writeActions there' with ⟨w, member, same, id, openedAt, why, rfl⟩ | ⟨-, before⟩
    · rw [← same] at there
      refine promise.fits_write kept.keyed member there fits holds ?_ id openedAt why
      intro dated c inside key'
      rw [← key'] at there
      exact notAgain ⟨promise, of, dated⟩ c inside row there
    · rw [there] at before
      cases before
      exact fits
  | verb id verb now until_ reason =>
    simp only [Actions.call]
    split
    next w writes =>
      refine ⟨writeActions_keyed kept.keyed now [w], ?_⟩
      intro key promise of asked
      simp only at asked
      rw [Store.lookup_write]
      by_cases here : key = w.key
      · rw [if_pos here] at asked ⊢
        refine ⟨_, rfl, ?_⟩
        cases p.store.rows.lookup key with
        | some row => exact Write.promise_fits asked now row.id row.openedAt row.why
        | none => exact Write.promise_fits asked now p.store.nextId w.openedAt none
      · rw [if_neg here] at asked ⊢
        exact kept.fits key promise of asked
    next => exact kept

theorem start_kept {s : Store} (keyed : s.Keyed) (kind : Promise → Prop) : (Promised.start s).Kept kind :=
  ⟨keyed, fun _ _ _ impossible => by cases impossible⟩

theorem dismissed_stays (s : Store) (keyed : s.Keyed) (calls : List Call) (key : String) (row : ActionRow)
    (there : (calls.foldl call (Promised.start s)).store.rows.lookup key = some row)
    (asked : (calls.foldl call (Promised.start s)).promise key = some .closed) : row.state = .dismissed := by
  have kept := foldl_invariant (fun p => p.Kept fun promise => promise = .closed)
    (fun _ _ _ _ kept => kept.call fun dated => absurd dated.choose_spec.1 dated.choose_spec.2)
    (everyTurn_trivial call (Promised.start s) calls) (start_kept keyed _)
  obtain ⟨row', there', fits⟩ := kept.fits key .closed rfl asked
  rw [there] at there'
  cases there'
  exact fits

theorem snooze_holds (s : Store) (keyed : s.Keyed) (calls : List Call)
    (notAgain : EveryTurn call NotListedAgain (Promised.start s) calls) (key : String) (row : ActionRow)
    (there : (calls.foldl call (Promised.start s)).store.rows.lookup key = some row) (date : Int)
    (asked : (calls.foldl call (Promised.start s)).promise key = some (.until_ date)) : row.state ≠ .open := by
  have kept := foldl_invariant (fun p => p.Kept fun _ => True)
    (fun _ _ _ notAgain kept => kept.call fun _ => notAgain) notAgain (start_kept keyed _)
  obtain ⟨row', there', state, -⟩ := kept.fits key _ True.intro asked
  rw [there] at there'
  cases there'
  intro isOpen
  rw [isOpen] at state
  exact absurd state (by decide)

/-- In every run of passes and verbs the dismissed actions stay dismissed; and none that is set aside is open before
its date, where no pass lists again what was set aside and has been closed meanwhile. -/
theorem promises_kept (s : Store) (keyed : s.Keyed) (calls : List Call) (key : String) (row : ActionRow)
    (there : (calls.foldl call (Promised.start s)).store.rows.lookup key = some row) :
    ((calls.foldl call (Promised.start s)).promise key = some .closed → row.state = .dismissed) ∧
      (EveryTurn call NotListedAgain (Promised.start s) calls →
        ∀ date, (calls.foldl call (Promised.start s)).promise key = some (.until_ date) → row.state ≠ .open) :=
  ⟨dismissed_stays s keyed calls key row there,
    fun notAgain date => snooze_holds s keyed calls notAgain key row there date⟩

theorem new_keyed : Store.new.Keyed := by
  intro key row found
  cases found

instance (p : Promised) (c : Call) : Decidable (NotListedAgain p c) := by
  cases c <;> unfold NotListedAgain <;> infer_instance

def cacheCandidate : Candidate := ⟨"rewrite:a", .rewriteQuery, 1, ⟨"Rewrite a", "", [], "", none, [], none, none, none⟩⟩

/-- An action opens at 0, and the user sets it aside at 10 until 1000. -/
def setAside : List Call := [.reconcile 0 [cacheCandidate] true .none, .verb 1 .setAside 10 (some 1000) none]

def setAsideThen (found later : List Candidate) : Promised :=
  (setAside ++ [Call.reconcile 100 found true .none, Call.reconcile 200 later true .none]).foldl call
    (Promised.start Store.new)

theorem promises_kept_listed :
    ((setAsideThen [cacheCandidate] [cacheCandidate]).store.rows.lookup "rewrite:a").all
      (fun row => decide (row.state ≠ .open)) = true := by
  cases there : (setAsideThen [cacheCandidate] [cacheCandidate]).store.rows.lookup "rewrite:a" with
  | none => rfl
  | some row =>
    have kept := (promises_kept Store.new new_keyed _ "rewrite:a" row there).2 (by decide +kernel) 1000
      (by decide +kernel)
    simpa using kept

/-- Its evidence goes at 100 and comes back at 200, before the date. -/
theorem set_aside_opens_early :
    (setAsideThen [] [cacheCandidate]).promise "rewrite:a" = some (.until_ 1000) ∧
      ((setAsideThen [] [cacheCandidate]).store.rows.lookup "rewrite:a").map ActionRow.state = some .open := by
  decide +kernel

end Rdst.Actions
