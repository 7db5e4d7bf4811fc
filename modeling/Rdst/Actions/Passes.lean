import Rdst.Actions.Reconcile

namespace Rdst.Actions

open Assoc Machine

def verifyAfterSeconds : Int := 15 * 60

def verifyGiveUpSeconds : Int := 2 * 3600

def verifyBeforeSeconds : Int := 7 * 86400

def verifySettleSeconds : Int := 300

def verifiedGain : ℚ := 1 / 5

def dropVerifiedGain : ℚ := 1 / 20

def jevLimit : Nat := 20

def jevStaleRetire : ℚ := 9 / 10

/-- The mean of the queries' calls over a time and their number; none where they were too few. -/
abbrev Mean := List String → Int → Int → Option (ℚ × Nat)

/-- Jev's answer for an action. -/
structure Answer where
  priority : ℚ
  relevance : Relevance
  staleProbability : ℚ

/-- The passes that read the rows of a target and write some of them back, with what else they take in. -/
inductive Pass
  | reconcile (now : Int) (found : List Candidate) (refreshed : Bool) (e : Evidence)
  | verify (now : Int) (mean : Mean)
  | jevRank (now : Int) (answer : Nat → Answer)
  /-- `apply_explanations`, with the ids and the texts of its picks. -/
  | explain (now : Int) (picks : List (Nat × Option String))

def measured : List ActionType := [.addIndex, .rewriteQuery, .dropIndex]

/-- The write of `verify` for an applied row. -/
def verifyRow (now : Int) (mean : Mean) (row : ActionRow) : Option Write :=
  let closed := row.closedAt.getD 0
  if row.type ∉ measured ∨ row.payload.queries = [] ∨ now - closed < verifyAfterSeconds then none
  else
    match mean row.payload.queries (closed - verifyBeforeSeconds) closed,
      mean row.payload.queries (closed + verifySettleSeconds) now with
    | some before, some after =>
      let result : Measured := ⟨before.1, after.1, after.2, now⟩
      let gain := if row.type = .dropIndex then dropVerifiedGain else verifiedGain
      let write (state : ActionState) : Write :=
        { row.write with
          state := state
          payload := { row.payload with result := some result }
          events := [.verified state result] }
      if after.1 ≤ before.1 * (1 - gain) then some (write .confirmed)
      else if now - closed ≥ verifyGiveUpSeconds then some (write .noEffect)
      else none
    | _, _ => none

/-- The write of `jev_rank` for an open row. -/
def rankRow (now : Int) (answer : Answer) (row : ActionRow) : Write :=
  let payload := { row.payload with jev := some ⟨answer.priority, answer.relevance, now⟩ }
  if answer.relevance = .stale ∧ answer.staleProbability ≥ jevStaleRetire then
    { row.write with
      payload := payload
      state := .retired
      closedAt := some now
      closedReason := some .jevStale
      events := [.retired true] }
  else { row.write with payload := payload }

/-- The write of `apply_explanations` for a pick. -/
def explainPick (rows : List ActionRow) (pick : Nat × Option String) : Option Write :=
  (rows.find? fun row => row.id = pick.1).bind fun row =>
    pick.2.bind fun why => if why = "" then none else some { row.write with why := some why }

/-- What a pass writes, from the rows as it read them. -/
def Pass.writes (copy : Store) : Pass → List Write
  | .reconcile now found refreshed e => reconcileWrites copy now found refreshed e
  | .verify now mean => (copy.actions [.applied]).filterMap (verifyRow now mean)
  | .jevRank now answer =>
    let rows := (copy.actions [.open]).take jevLimit
    if rows.length < 2 then [] else rows.map fun row => rankRow now (answer row.id) row
  | .explain _ picks => picks.filterMap (explainPick (copy.actions openStates))

def Pass.now : Pass → Int
  | .reconcile now _ _ _ | .verify now _ | .jevRank now _ | .explain now _ => now

/-- A pass under way, with the rows and the number of verbs on each as they were when it read. -/
structure Running where
  pass : Pass
  copy : Store
  seen : String → Nat

/-- A verb under way, with the row that it read. -/
structure Asking where
  row : ActionRow
  verb : Verb
  now : Int
  until_ : Option Int
  reason : Option String

/-- The store with what is under way; for each key the number of verbs so far, and where the last one closed the action
the state that it or a pass which has seen it left last. -/
structure Office where
  store : Store
  passes : List Running
  asking : List Asking
  verbs : String → Nat
  held : String → Option ActionState

def Office.quiet (s : Store) : Office := ⟨s, [], [], fun _ => 0, fun _ => none⟩

inductive Move
  | begin (pass : Pass)
  /-- The transaction that the pass ends with. -/
  | finish (index : Nat)
  /-- An exception in it, as of the model call. -/
  | abandon (index : Nat)
  | ask (id : Nat) (verb : Verb) (now : Int) (until_ : Option Int) (reason : Option String)
  | answer (index : Nat)

def Asking.write (a : Asking) : Option Write := verbWrite a.row a.verb a.now a.until_ a.reason

def move (o : Office) : Move → Office
  | .begin pass => { o with passes := o.passes ++ [⟨pass, o.store, o.verbs⟩] }
  | .finish index =>
    match o.passes[index]? with
    | some r =>
      let writes := r.pass.writes r.copy
      let store := writeActions o.store r.pass.now writes
      { o with
        store := store
        passes := o.passes.eraseIdx index
        held := fun key =>
          if r.seen key = o.verbs key then (o.held key).bind fun _ => (store.rows.lookup key).map ActionRow.state
          else o.held key }
    | none => o
  | .abandon index => { o with passes := o.passes.eraseIdx index }
  | .ask id verb now until_ reason =>
    match o.store.byId id with
    | some row => { o with asking := o.asking ++ [⟨row, verb, now, until_, reason⟩] }
    | none => o
  | .answer index =>
    match o.asking[index]? with
    | some a =>
      let rest := { o with asking := o.asking.eraseIdx index }
      match a.write with
      | some w =>
        { rest with
          store := o.store.write a.now w
          verbs := fun key => if key = w.key then o.verbs key + 1 else o.verbs key
          held := fun key => if key = w.key then (if w.state = .open then none else some w.state) else o.held key }
      | none => rest
    | none => o

/-- A pass that ends writes no row that a verb has closed since it read. -/
def Current (o : Office) : Move → Prop
  | .finish index =>
    ∀ r ∈ o.passes[index]?, ∀ w ∈ r.pass.writes r.copy, (o.held w.key).isSome → r.seen w.key = o.verbs w.key
  | _ => True

/-- Every action that a verb closed stands as the verb, or a pass that has seen it, left it. -/
def Office.Holds (o : Office) : Prop :=
  ∀ key state, o.held key = some state → ∃ row, o.store.rows.lookup key = some row ∧ row.state = state

instance (o : Office) (m : Move) : Decidable (Current o m) := by
  cases m <;> unfold Current <;> infer_instance

theorem Office.Holds.move {o : Office} (holds : o.Holds) {m : Move} (current : Current o m) : (move o m).Holds := by
  cases m with
  | begin pass => exact holds
  | abandon index => exact holds
  | finish index =>
    simp only [Actions.move]
    split
    next r there =>
      intro key state held
      simp only at held
      split at held
      next seen =>
        obtain ⟨-, -, left⟩ := Option.bind_eq_some_iff.mp held
        obtain ⟨row, found, stands⟩ := Option.map_eq_some_iff.mp left
        exact ⟨row, found, stands⟩
      next unseen =>
        obtain ⟨row, found, stands⟩ := holds key state held
        refine ⟨row, ?_, stands⟩
        rw [lookup_writeActions_absent, found]
        intro w member same
        apply unseen
        rw [← same]
        apply current r there w member
        rw [same, held]
        rfl
    next => exact holds
  | ask id verb now until_ reason =>
    simp only [Actions.move]
    split <;> exact holds
  | answer index =>
    simp only [Actions.move]
    split
    next a there =>
      split
      next w writes =>
        intro key state held
        simp only at held ⊢
        rw [Store.lookup_write]
        by_cases here : key = w.key
        · rw [if_pos here] at held ⊢
          have closes : w.state = state := by
            split at held
            · cases held
            · exact Option.some.inj held
          refine ⟨_, rfl, ?_⟩
          rw [← closes]
          cases o.store.rows.lookup key <;> rfl
        · rw [if_neg here] at held ⊢
          exact holds key state held
      next => exact holds
    next => exact holds

def twoCandidates : List Candidate :=
  [⟨"rewrite:a", .rewriteQuery, 1, ⟨"Rewrite a", "", [], "", none, [], none, none, none⟩⟩,
    ⟨"rewrite:b", .rewriteQuery, 1, ⟨"Rewrite b", "", [], "", none, [], none, none, none⟩⟩]

def twoActions : Store := reconcile Store.new 0 twoCandidates true .none

def ranking : Pass := .jevRank 10 fun _ => ⟨1, .relevant, 0⟩

def dismissal : List Move := [.ask 1 .dismiss 20 none none, .answer 0]

end Rdst.Actions
