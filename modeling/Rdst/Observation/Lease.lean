import Mathlib.Logic.Function.Basic
import Mathlib.Data.List.Pairwise
import Rdst.Lib.Run

namespace Rdst.Observation

set_option linter.unusedSectionVars false

variable {Target Owner : Type} [DecidableEq Target] [DecidableEq Owner]

structure LeaseRow (Owner : Type) where
  ownerId : Owner
  fencingToken : Int
  expiresAt : Int

/-- `collector_lease`, keyed by its primary key. -/
abbrev LeaseTable (Target Owner : Type) := Target → Option (LeaseRow Owner)

inductive FenceError (Target Owner : Type)
  | incomplete
  | leaseLost (targetId : Target) (ownerId : Owner) (fencingToken : Int)

def applyFence (table : LeaseTable Target Owner) (targetId : Target) (ownerId : Option Owner)
    (fencingToken now : Option Int) : Except (FenceError Target Owner) Unit :=
  match ownerId, fencingToken, now with
  | none, none, none => .ok ()
  | some owner, some token, some clock =>
    match table targetId with
    | none => .error (.leaseLost targetId owner token)
    | some row =>
      if row.ownerId ≠ owner ∨ row.fencingToken ≠ token ∨ row.expiresAt ≤ clock then
        .error (.leaseLost targetId owner token)
      else .ok ()
  | _, _, _ => .error .incomplete

/-- A lease whose owner is a process that no longer runs expires at once. -/
def reclaimDead (dead : Owner → Bool) (table : LeaseTable Target Owner) (targetId : Target) :
    LeaseTable Target Owner :=
  match table targetId with
  | some row =>
    if dead row.ownerId then Function.update table targetId (some { row with expiresAt := 0 }) else table
  | none => table

/-- `dead` is what the process table answers for `_dead_collection_owner` at this call. -/
def acquireLease (dead : Owner → Bool) (table : LeaseTable Target Owner) (targetId : Target)
    (ownerId : Owner) (ttlS now : Int) : LeaseTable Target Owner × Option Int :=
  let reclaimed := reclaimDead dead table targetId
  match reclaimed targetId with
  | none =>
    (Function.update reclaimed targetId (some ⟨ownerId, 1, now + ttlS⟩), some 1)
  | some row =>
    if row.expiresAt ≤ now ∨ row.ownerId = ownerId then
      (Function.update reclaimed targetId (some ⟨ownerId, row.fencingToken + 1, now + ttlS⟩),
        some (row.fencingToken + 1))
    else (reclaimed, none)

def releaseLease (table : LeaseTable Target Owner) (targetId : Target) (ownerId : Owner) :
    LeaseTable Target Owner × Bool :=
  match table targetId with
  | some row =>
    if row.ownerId = ownerId then
      (Function.update table targetId (some { row with expiresAt := 0 }), true)
    else (table, false)
  | none => (table, false)

inductive LeaseCall (Target Owner : Type)
  | acquire (dead : Owner → Bool) (targetId : Target) (ownerId : Owner) (ttlS now : Int)
  | release (targetId : Target) (ownerId : Owner)
  | write (targetId : Target) (ownerId : Option Owner) (fencingToken now : Option Int)

inductive LeaseEvent (Target Owner : Type)
  | granted (targetId : Target) (ownerId : Owner) (fencingToken : Int)
  | accepted (targetId : Target) (ownerId : Owner) (fencingToken : Int)

/-- Each call is one `BEGIN IMMEDIATE` transaction of the file, so calls interleave whole. -/
def leaseStep (table : LeaseTable Target Owner) :
    LeaseCall Target Owner → LeaseTable Target Owner × List (LeaseEvent Target Owner)
  | .acquire dead targetId ownerId ttlS now =>
    match acquireLease dead table targetId ownerId ttlS now with
    | (after, some token) => (after, [.granted targetId ownerId token])
    | (after, none) => (after, [])
  | .release targetId ownerId => ((releaseLease table targetId ownerId).1, [])
  | .write targetId ownerId fencingToken now =>
    match applyFence table targetId ownerId fencingToken now, ownerId, fencingToken with
    | .ok (), some owner, some token => (table, [.accepted targetId owner token])
    | _, _, _ => (table, [])

def holder (table : LeaseTable Target Owner) (targetId : Target) : Option (Owner × Int) :=
  (table targetId).map fun row => (row.ownerId, row.fencingToken)

def lastGrant (targetId : Target) (trace : List (LeaseEvent Target Owner)) : Option (Owner × Int) :=
  trace.foldl
    (fun found event =>
      match event with
      | .granted other owner token => if other = targetId then some (owner, token) else found
      | .accepted .. => found) none

theorem lastGrant_snoc_granted (targetId other : Target) (owner : Owner) (token : Int)
    (trace : List (LeaseEvent Target Owner)) :
    lastGrant targetId (trace ++ [.granted other owner token]) =
      if other = targetId then some (owner, token) else lastGrant targetId trace := by
  simp [lastGrant, List.foldl_append]

theorem lastGrant_snoc_accepted (targetId other : Target) (owner : Owner) (token : Int)
    (trace : List (LeaseEvent Target Owner)) :
    lastGrant targetId (trace ++ [.accepted other owner token]) = lastGrant targetId trace := by
  simp [lastGrant, List.foldl_append]

theorem holder_update (table : LeaseTable Target Owner) (targetId other : Target)
    (row : LeaseRow Owner) :
    holder (Function.update table targetId (some row)) other =
      if targetId = other then some (row.ownerId, row.fencingToken) else holder table other := by
  by_cases same : targetId = other
  · subst same; simp [holder]
  · simp [holder, Function.update_of_ne (Ne.symm same), same]

theorem holder_expire (table : LeaseTable Target Owner) (targetId other : Target)
    (row : LeaseRow Owner) (present : table targetId = some row) (expiry : Int) :
    holder (Function.update table targetId (some { row with expiresAt := expiry })) other =
      holder table other := by
  rw [holder_update]
  split
  · rename_i same
    subst same
    simp [holder, present]
  · rfl

theorem reclaimDead_holder (dead : Owner → Bool) (table : LeaseTable Target Owner)
    (targetId other : Target) : holder (reclaimDead dead table targetId) other = holder table other := by
  unfold reclaimDead
  cases present : table targetId with
  | none => rfl
  | some row =>
    simp only
    split
    · exact holder_expire table targetId other row present 0
    · rfl

theorem releaseLease_holder (table : LeaseTable Target Owner) (targetId other : Target)
    (ownerId : Owner) : holder (releaseLease table targetId ownerId).1 other = holder table other := by
  unfold releaseLease
  cases present : table targetId with
  | none => rfl
  | some row =>
    simp only
    split
    · exact holder_expire table targetId other row present 0
    · rfl

theorem acquireLease_cases (dead : Owner → Bool) (table : LeaseTable Target Owner)
    (targetId : Target) (ownerId : Owner) (ttlS now : Int) :
    let result := acquireLease dead table targetId ownerId ttlS now
    (result.2 = none ∧ ∀ other, holder result.1 other = holder table other) ∨
    (∃ token, result.2 = some token ∧
      (∀ other, holder result.1 other =
        if targetId = other then some (ownerId, token) else holder table other) ∧
      ∀ owner previous, holder table targetId = some (owner, previous) → token = previous + 1) := by
  have kept := reclaimDead_holder dead table targetId
  cases present : reclaimDead dead table targetId targetId with
  | none =>
    right
    refine ⟨1, by simp [acquireLease, present], ?_, ?_⟩
    · intro other
      simp only [acquireLease, present, holder_update, kept]
    · intro owner previous held
      rw [← kept targetId] at held
      simp [holder, present] at held
  | some row =>
    by_cases free : row.expiresAt ≤ now ∨ row.ownerId = ownerId
    · right
      refine ⟨row.fencingToken + 1, by simp [acquireLease, present, free], ?_, ?_⟩
      · intro other
        simp only [acquireLease, present, free, if_true, holder_update, kept]
      · intro owner previous held
        rw [← kept targetId] at held
        simp only [holder, present, Option.map_some, Option.some.injEq, Prod.mk.injEq] at held
        omega
    · left
      simp [acquireLease, present, free, kept]

theorem applyFence_accepts (table : LeaseTable Target Owner) (targetId : Target) (owner : Owner)
    (token : Int) (now : Option Int)
    (accepted : applyFence table targetId (some owner) (some token) now = .ok ()) :
    holder table targetId = some (owner, token) := by
  cases now with
  | none => cases accepted
  | some clock =>
    simp only [applyFence] at accepted
    cases present : table targetId with
    | none => rw [present] at accepted; cases accepted
    | some row =>
      rw [present] at accepted
      simp only at accepted
      split at accepted
      · cases accepted
      · rename_i live
        simp only [ne_eq, not_or, not_not] at live
        simp [holder, present, live.1, live.2.1]

def Fenced : LeaseEvent Target Owner → LeaseEvent Target Owner → Prop
  | .granted target _ token, .granted target' _ token' => target = target' → token < token'
  | .granted target owner token, .accepted target' owner' token' =>
    target = target' → token < token' ∨ (token = token' ∧ owner = owner')
  | .accepted .., _ => True

/-- The row of a target always names its last grant, and no grant so far is newer than that row. -/
structure LeaseInvariant (table : LeaseTable Target Owner)
    (trace : List (LeaseEvent Target Owner)) : Prop where
  current : ∀ targetId, holder table targetId = lastGrant targetId trace
  newest : ∀ targetId owner token, .granted targetId owner token ∈ trace →
    ∃ owner' token', holder table targetId = some (owner', token') ∧
      (token < token' ∨ (token = token' ∧ owner = owner'))
  fenced : trace.Pairwise Fenced
  carried : ∀ before targetId owner token after,
    trace = before ++ .accepted targetId owner token :: after →
      lastGrant targetId before = some (owner, token)

theorem append_singleton_split {α : Type*} {before after xs : List α} {x y : α}
    (same : xs ++ [y] = before ++ x :: after) :
    (before = xs ∧ x = y) ∨ ∃ after', xs = before ++ x :: after' := by
  rcases List.eq_nil_or_concat after with rfl | ⟨init, last, rfl⟩
  · have := List.append_inj' same rfl
    simp only [List.cons.injEq, and_true] at this
    exact .inl ⟨this.1.symm, this.2.symm⟩
  · right
    refine ⟨init, ?_⟩
    have parts : xs ++ [y] = (before ++ x :: init) ++ [last] := by simpa using same
    exact (List.append_inj' parts rfl).1

theorem LeaseInvariant.same_holders {table after : LeaseTable Target Owner}
    {trace : List (LeaseEvent Target Owner)} (inv : LeaseInvariant table trace)
    (same : ∀ targetId, holder after targetId = holder table targetId) :
    LeaseInvariant after trace where
  current targetId := (same targetId).trans (inv.current targetId)
  newest targetId owner token granted := by
    rw [same targetId]
    exact inv.newest targetId owner token granted
  fenced := inv.fenced
  carried := inv.carried

theorem LeaseInvariant.grant {table after : LeaseTable Target Owner}
    {trace : List (LeaseEvent Target Owner)} (inv : LeaseInvariant table trace)
    {target : Target} {owner : Owner} {token : Int}
    (updated : ∀ other, holder after other =
      if target = other then some (owner, token) else holder table other)
    (next : ∀ previousOwner previous, holder table target = some (previousOwner, previous) →
      token = previous + 1) :
    LeaseInvariant after (trace ++ [.granted target owner token]) := by
  have below : ∀ o t, LeaseEvent.granted target o t ∈ trace → t < token := by
    intro o t granted
    obtain ⟨owner', token', held, order⟩ := inv.newest target o t granted
    have := next owner' token' held
    rcases order with order | order <;> omega
  refine ⟨?_, ?_, ?_, ?_⟩
  · intro other
    rw [updated, lastGrant_snoc_granted, inv.current]
  · intro other o t granted
    rw [updated]
    by_cases same : target = other
    · subst same
      rw [if_pos rfl]
      rcases List.mem_append.mp granted with earlier | here
      · exact ⟨owner, token, rfl, .inl (below o t earlier)⟩
      · simp only [List.mem_singleton, LeaseEvent.granted.injEq, true_and] at here
        exact ⟨owner, token, rfl, .inr ⟨here.2, here.1⟩⟩
    · rw [if_neg same]
      apply inv.newest
      rcases List.mem_append.mp granted with earlier | here
      · exact earlier
      · simp only [List.mem_singleton, LeaseEvent.granted.injEq] at here
        exact absurd here.1.symm same
  · rw [List.pairwise_append]
    refine ⟨inv.fenced, List.pairwise_singleton _ _, ?_⟩
    intro event member last here
    rw [List.mem_singleton.mp here]
    cases event with
    | accepted => exact True.intro
    | granted other o t =>
      intro same
      subst same
      exact below o t member
  · intro before other o t rest split
    rcases append_singleton_split split with ⟨_, impossible⟩ | ⟨rest', earlier⟩
    · cases impossible
    · exact inv.carried before other o t rest' earlier

theorem LeaseInvariant.accept {table : LeaseTable Target Owner}
    {trace : List (LeaseEvent Target Owner)} (inv : LeaseInvariant table trace)
    {target : Target} {owner : Owner} {token : Int}
    (held : holder table target = some (owner, token)) :
    LeaseInvariant table (trace ++ [.accepted target owner token]) := by
  refine ⟨?_, ?_, ?_, ?_⟩
  · intro other
    rw [lastGrant_snoc_accepted, inv.current]
  · intro other o t granted
    apply inv.newest
    simpa using granted
  · rw [List.pairwise_append]
    refine ⟨inv.fenced, List.pairwise_singleton _ _, ?_⟩
    intro event member last here
    rw [List.mem_singleton.mp here]
    cases event with
    | accepted => exact True.intro
    | granted other o t =>
      intro same
      subst same
      obtain ⟨owner', token', held', order⟩ := inv.newest other o t member
      rw [held] at held'
      cases held'
      exact order
  · intro before other o t rest split
    rcases append_singleton_split split with ⟨whole, event⟩ | ⟨rest', earlier⟩
    · cases event
      rw [whole, ← inv.current]
      exact held
    · exact inv.carried before other o t rest' earlier

theorem leaseStep_invariant (table : LeaseTable Target Owner)
    (trace : List (LeaseEvent Target Owner)) (call : LeaseCall Target Owner)
    (inv : LeaseInvariant table trace) :
    LeaseInvariant (leaseStep table call).1 (trace ++ (leaseStep table call).2) := by
  cases call with
  | acquire dead targetId ownerId ttlS now =>
    have cases := acquireLease_cases dead table targetId ownerId ttlS now
    simp only [leaseStep]
    rcases result : acquireLease dead table targetId ownerId ttlS now with ⟨after, answer⟩
    rw [result] at cases
    rcases cases with ⟨none, kept⟩ | ⟨token, some, updated, next⟩
    · subst none
      simpa using inv.same_holders kept
    · subst some
      exact inv.grant updated next
  | release targetId ownerId =>
    simpa [leaseStep] using inv.same_holders fun other => releaseLease_holder table targetId other ownerId
  | write targetId ownerId fencingToken now =>
    simp only [leaseStep]
    split
    · rename_i owner token accepted
      exact inv.accept (applyFence_accepts table targetId _ _ now accepted)
    · simpa using inv

/-- Over the life of the file, whatever the clocks say: the tokens granted for a target strictly
    increase, and an accepted fenced write carries the owner and token of the target's last grant. -/
theorem lease_fencing (calls : List (LeaseCall Target Owner)) :
    let trace := (Machine.exec leaseStep (fun _ => none) calls).2
    trace.Pairwise Fenced ∧
      ∀ before targetId owner token after,
        trace = before ++ .accepted targetId owner token :: after →
          lastGrant targetId before = some (owner, token) := by
  have inv := Machine.exec_invariant LeaseInvariant (fun _ _ => True)
    (fun table trace call _ inv => leaseStep_invariant table trace call inv)
    (fun _ : Target => (none : Option (LeaseRow Owner))) calls (Machine.everyStep_trivial _ _)
    ⟨fun _ => rfl, by simp, List.Pairwise.nil, by simp⟩
  exact ⟨inv.fenced, inv.carried⟩

end Rdst.Observation
