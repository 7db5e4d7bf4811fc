import Mathlib.Data.List.Basic
import Mathlib.Data.List.Nodup

namespace Renaming

set_option linter.unusedSectionVars false

variable {α : Type*} [DecidableEq α]

/-- Apply renamings one after another. -/
def follow (moves : List (α × α)) (key : α) : α :=
  moves.foldl (fun key move => if key = move.1 then move.2 else key) key

/-- Apply renamings all at once; the first one for a key counts. -/
def destination (moves : List (α × α)) (key : α) : α :=
  match moves.find? fun move => move.1 = key with
  | some move => move.2
  | none => key

def keys (moves : List (α × α)) : List α := moves.map Prod.fst

/-- Assignment to a mapping that keeps the order of insertion. -/
def setItem (moves : List (α × α)) (old new : α) : List (α × α) :=
  if old ∈ keys moves then moves.map fun move => if move.1 = old then (old, new) else move
  else moves ++ [(old, new)]

/-- What pointed at `old` points at `new`. -/
def redirect (old new : α) (moves : List (α × α)) : List (α × α) :=
  moves.map fun move => if move.2 = old then (move.1, new) else move

/-- Compose one more renaming into the recorded ones. -/
def record (moves : List (α × α)) (old new : α) : List (α × α) :=
  setItem (redirect old new moves) old new

/-- Following the renamings takes the key to the destination at one go: its own entry leads there, and no
    later one leads on. -/
def Settled (moves : List (α × α)) (key dest : α) : Prop :=
  (key ∉ keys moves ∧ dest = key) ∨
    ∃ before after, moves = before ++ (key, dest) :: after ∧ key ∉ keys before ∧ dest ∉ keys after

/-- No entry that would be redirected from `old` to `new` stands before an entry for `new`. -/
def Onward (old new : α) : List (α × α) → Prop
  | [] => True
  | move :: rest => (move.2 = old → new ∉ keys rest) ∧ Onward old new rest

instance (old new : α) : (moves : List (α × α)) → Decidable (Onward old new moves)
  | [] => isTrue trivial
  | move :: rest =>
    have : Decidable (Onward old new rest) := instDecidableOnward old new rest
    inferInstanceAs (Decidable ((move.2 = old → new ∉ keys rest) ∧ _))

@[simp] theorem keys_append (xs ys : List (α × α)) : keys (xs ++ ys) = keys xs ++ keys ys := List.map_append

@[simp] theorem keys_cons (move : α × α) (moves : List (α × α)) :
    keys (move :: moves) = move.1 :: keys moves := rfl

theorem mem_keys_of_mem {moves : List (α × α)} {move : α × α} (member : move ∈ moves) :
    move.1 ∈ keys moves := List.mem_map_of_mem member

theorem follow_append (xs ys : List (α × α)) (key : α) :
    follow (xs ++ ys) key = follow ys (follow xs key) := List.foldl_append ..

theorem follow_absent {moves : List (α × α)} {key : α} (absent : key ∉ keys moves) :
    follow moves key = key := by
  induction moves with
  | nil => rfl
  | cons move rest ih =>
    rw [keys_cons, List.mem_cons, not_or] at absent
    rw [follow, List.foldl_cons, if_neg absent.1]
    exact ih absent.2

theorem Settled.follow_eq {moves : List (α × α)} {key dest : α} (settled : Settled moves key dest) :
    follow moves key = dest := by
  rcases settled with ⟨absent, rfl⟩ | ⟨before, after, rfl, fresh, stays⟩
  · exact follow_absent absent
  · rw [follow_append, follow_absent fresh]
    show follow after (if key = key then dest else key) = dest
    rw [if_pos rfl, follow_absent stays]

theorem Settled.entry {moves : List (α × α)} {key dest : α} (settled : Settled moves key dest)
    (known : key ∈ keys moves) : (key, dest) ∈ moves := by
  rcases settled with ⟨absent, -⟩ | ⟨before, after, rfl, -, -⟩
  · exact absurd known absent
  · simp

@[simp] theorem keys_redirect (old new : α) (moves : List (α × α)) :
    keys (redirect old new moves) = keys moves := by
  induction moves with
  | nil => rfl
  | cons move rest ih =>
    show (if move.2 = old then (move.1, new) else move).1 :: keys (redirect old new rest) = _
    rw [ih]
    split <;> rfl

theorem Onward.split {old new : α} {before after : List (α × α)} {move : α × α}
    (onward : Onward old new (before ++ move :: after)) : move.2 = old → new ∉ keys after := by
  induction before with
  | nil => exact onward.1
  | cons first rest ih => exact ih onward.2

theorem mem_keys_setItem {moves : List (α × α)} {old new key : α} :
    key ∈ keys (setItem moves old new) ↔ key ∈ keys moves ∨ key = old := by
  unfold setItem
  by_cases present : old ∈ keys moves
  · rw [if_pos present]
    have same : keys (moves.map fun move => if move.1 = old then (old, new) else move) = keys moves := by
      simp only [keys, List.map_map]
      apply List.map_congr_left
      intro move _
      by_cases here : move.1 = old <;> simp [here]
    rw [same]
    constructor
    · exact .inl
    · rintro (here | rfl)
      · exact here
      · exact present
  · rw [if_neg present]
    simp [keys]

theorem mem_keys_record {moves : List (α × α)} {old new key : α} :
    key ∈ keys (record moves old new) ↔ key ∈ keys moves ∨ key = old := by
  rw [record, mem_keys_setItem, keys_redirect]

theorem follow_cons (move : α × α) (moves : List (α × α)) (key : α) :
    follow (move :: moves) key = follow moves (if key = move.1 then move.2 else key) := rfl

theorem follow_idle {moves : List (α × α)} {key : α} (idle : ∀ move ∈ moves, move.1 = key → move.2 = key) :
    follow moves key = key := by
  induction moves with
  | nil => rfl
  | cons move rest ih =>
    have later := ih fun other inside => idle other (List.mem_cons_of_mem _ inside)
    rw [follow_cons]
    by_cases here : key = move.1
    · rw [if_pos here, idle move (by simp) here.symm, later]
    · rw [if_neg here, later]

theorem record_eq {moves : List (α × α)} {old new : α} (idle : ∀ move ∈ moves, move.1 = old → move.2 = old) :
    record moves old new =
      if old ∈ keys moves then redirect old new moves else redirect old new moves ++ [(old, new)] := by
  unfold record setItem
  rw [keys_redirect]
  by_cases present : old ∈ keys moves
  · rw [if_pos present, if_pos present]
    conv_rhs => rw [← List.map_id (redirect old new moves)]
    apply List.map_congr_left
    intro move member
    by_cases here : move.1 = old
    · obtain ⟨first, inside, rfl⟩ := List.mem_map.mp member
      have first_old : first.1 = old := by
        by_cases points : first.2 = old <;> simpa [points] using here
      simp [idle first inside first_old, first_old]
    · simp [here]
  · rw [if_neg present, if_neg present]

theorem follow_redirect {moves : List (α × α)} {old new : α} (key : α)
    (idle : ∀ move ∈ moves, move.1 = old → move.2 = old) (onward : Onward old new moves) :
    follow (redirect old new moves) key =
      if follow moves key = old ∧ (key = old → old ∈ keys moves) then new else follow moves key := by
  induction moves generalizing key with
  | nil => by_cases same : key = old <;> simp [redirect, follow, keys, same]
  | cons move rest ih =>
    have rest_idle : ∀ other ∈ rest, other.1 = old → other.2 = old :=
      fun other inside => idle other (List.mem_cons_of_mem _ inside)
    have next := fun key => ih key rest_idle onward.2
    show follow (redirect old new rest) (if key = (if move.2 = old then (move.1, new) else move).1
      then (if move.2 = old then (move.1, new) else move).2 else key) = _
    rw [follow_cons]
    by_cases here : key = move.1
    · by_cases points : move.2 = old
      · have stays : follow (redirect old new rest) new = new :=
          follow_absent (by rw [keys_redirect]; exact onward.1 points)
        have ends : follow rest old = old := follow_idle rest_idle
        simp only [here, points, stays, ends, keys_cons, List.mem_cons, if_true, true_and]
        rw [if_pos fun same => .inl same.symm]
      · have lands := next move.2
        simp only [here, points, if_false, if_true] at lands ⊢
        have free : move.1 = old → old ∈ keys (move :: rest) := fun same => by simp [same]
        rw [lands]
        by_cases ends : follow rest move.2 = old
        · rw [if_pos ⟨ends, False.elim⟩, if_pos ⟨ends, free⟩]
        · rw [if_neg fun both => ends both.1, if_neg fun both => ends both.1]
    · have lands := next key
      have first : (if move.2 = old then (move.1, new) else move).1 = move.1 := by split <;> rfl
      rw [first, if_neg here, if_neg here, lands]
      by_cases at_old : key = old
      · have differ : old ≠ move.1 := at_old ▸ here
        simp [at_old, keys_cons, differ]
      · simp [at_old]

/-- After one more renaming a key ends where that renaming takes its old end. -/
theorem follow_record {moves : List (α × α)} {key old new : α} (differ : old ≠ new)
    (idle : ∀ move ∈ moves, move.1 = old → move.2 = old) (onward : Onward old new moves) :
    follow (record moves old new) key = if follow moves key = old then new else follow moves key := by
  have redirected := follow_redirect key idle onward
  rw [record_eq idle]
  by_cases present : old ∈ keys moves
  · rw [if_pos present, redirected]
    simp [present]
  · rw [if_neg present, follow_append, redirected]
    have last : ∀ x, follow [(old, new)] x = if x = old then new else x := fun _ => rfl
    by_cases ends : follow moves key = old
    · by_cases at_old : key = old
      · simp [last, at_old, present]
      · simp [last, ends, at_old, differ.symm]
    · simp [last, ends]

/-- Recording keeps a settled key settled, at the new destination when its old one is renamed. -/
theorem Settled.record {moves : List (α × α)} {key dest old new : α} (settled : Settled moves key dest)
    (differ : old ≠ new) (idle : ∀ move ∈ moves, move.1 = old → move.2 = old)
    (onward : Onward old new moves) :
    Settled (record moves old new) key (if dest = old then new else dest) := by
  rw [record_eq idle]
  rcases settled with ⟨absent, rfl⟩ | ⟨before, after, rfl, fresh, stays⟩
  · by_cases same : dest = old
    · subst same
      rw [if_neg absent, if_pos rfl]
      exact .inr ⟨redirect dest new moves, [], rfl, by rwa [keys_redirect], by simp [keys]⟩
    · left
      rw [if_neg same]
      have out : dest ∉ keys (Renaming.record moves old new) := by
        rw [mem_keys_record, not_or]
        exact ⟨absent, same⟩
      rw [record_eq idle] at out
      exact ⟨out, rfl⟩
  · -- The entry of the key keeps its place; only its destination may change.
    have moved : redirect old new (before ++ (key, dest) :: after) =
        redirect old new before ++ (key, if dest = old then new else dest) :: redirect old new after := by
      simp only [redirect, List.map_append, List.map_cons]
      by_cases same : dest = old <;> simp [same]
    have leads : (if dest = old then new else dest) ∉ keys (redirect old new after) := by
      rw [keys_redirect]
      by_cases same : dest = old
      · rw [if_pos same]
        exact onward.split same
      · rwa [if_neg same]
    have other : (if dest = old then new else dest) ≠ old := by
      by_cases same : dest = old
      · rw [if_pos same]
        exact differ.symm
      · rwa [if_neg same]
    rw [moved]
    by_cases present : old ∈ keys (before ++ (key, dest) :: after)
    · rw [if_pos present]
      exact .inr ⟨_, _, rfl, by rwa [keys_redirect], leads⟩
    · rw [if_neg present]
      refine .inr ⟨redirect old new before, redirect old new after ++ [(old, new)], by simp,
        by rwa [keys_redirect], ?_⟩
      rw [keys_append, List.mem_append, not_or]
      exact ⟨leads, by simpa [keys] using other⟩

theorem Settled.append {moves : List (α × α)} {key dest : α} (settled : Settled moves key dest)
    {more : List (α × α)} (fresh : dest ∉ keys more) : Settled (moves ++ more) key dest := by
  rcases settled with ⟨absent, rfl⟩ | ⟨before, after, rfl, first, stays⟩
  · exact .inl ⟨by simp [absent, fresh], rfl⟩
  · refine .inr ⟨before, after ++ more, by simp, first, ?_⟩
    simp [stays, fresh]

theorem setItem_of_mem {moves : List (α × α)} (distinct : (keys moves).Nodup) {old new : α}
    (member : (old, new) ∈ moves) : setItem moves old new = moves := by
  have present : old ∈ keys moves := List.mem_map_of_mem member
  rw [Renaming.setItem, if_pos present]
  conv_rhs => rw [← List.map_id moves]
  apply List.map_congr_left
  intro move inside
  by_cases here : move.1 = old
  · have same : move = (old, new) := List.inj_on_of_nodup_map distinct inside member here
    simp [same]
  · simp [here]

theorem keys_setItem_nodup {moves : List (α × α)} (distinct : (keys moves).Nodup) (old new : α) :
    (keys (setItem moves old new)).Nodup := by
  unfold setItem
  by_cases present : old ∈ keys moves
  · rw [if_pos present]
    have same : keys (moves.map fun move => if move.1 = old then (old, new) else move) = keys moves := by
      simp only [keys, List.map_map]
      apply List.map_congr_left
      intro move _
      by_cases here : move.1 = old <;> simp [here]
    rwa [same]
  · rw [if_neg present, keys_append, List.nodup_append]
    refine ⟨distinct, by simp [keys], ?_⟩
    rintro key inside last here rfl
    simp only [keys, List.map_cons, List.map_nil, List.mem_singleton] at here
    exact present (here ▸ inside)

theorem keys_record_nodup {moves : List (α × α)} (distinct : (keys moves).Nodup) (old new : α) :
    (keys (record moves old new)).Nodup :=
  keys_setItem_nodup (by rwa [keys_redirect]) old new

theorem keys_filter_subset (moves : List (α × α)) (test : α × α → Bool) {key : α}
    (member : key ∈ keys (moves.filter test)) : key ∈ keys moves := by
  obtain ⟨move, inside, rfl⟩ := List.mem_map.mp member
  exact List.mem_map_of_mem (List.mem_filter.mp inside).1

/-- Without the renamings of some names, a key either ends where it did or stops at one of them. -/
theorem follow_without {moves : List (α × α)} (distinct : (keys moves).Nodup) (names : List α) (key : α) :
    follow (moves.filter fun move => move.1 ∉ names) key = follow moves key ∨
      ∃ name ∈ names, follow (moves.filter fun move => move.1 ∉ names) key = name ∧ name ∈ keys moves ∧
        follow moves name = follow moves key := by
  induction moves generalizing key with
  | nil => exact .inl rfl
  | cons move rest ih =>
    rw [keys_cons, List.nodup_cons] at distinct
    -- A later name goes past the first renaming.
    have past : ∀ name ∈ keys rest, follow (move :: rest) name = follow rest name := by
      intro name inside
      have differ : name ≠ move.1 := fun same => distinct.1 (same ▸ inside)
      rw [follow_cons, if_neg differ]
    by_cases named : move.1 ∈ names
    · rw [List.filter_cons_of_neg (by simpa using named)]
      by_cases here : key = move.1
      · refine .inr ⟨move.1, named, ?_, by simp, by rw [here]⟩
        rw [here]
        exact follow_absent fun inside => distinct.1 (keys_filter_subset _ _ inside)
      · rw [follow_cons, if_neg here]
        rcases ih distinct.2 key with same | ⟨name, listed, stops, inside, joins⟩
        · exact .inl same
        · exact .inr ⟨name, listed, stops, by simp [inside], (past name inside).trans joins⟩
    · rw [List.filter_cons_of_pos (by simpa using named), follow_cons, follow_cons]
      rcases ih distinct.2 (if key = move.1 then move.2 else key) with same | ⟨name, listed, stops, inside, joins⟩
      · exact .inl same
      · exact .inr ⟨name, listed, stops, by simp [inside], (past name inside).trans joins⟩

theorem follow_filter_idle {moves : List (α × α)} {test : α × α → Bool}
    (idle : ∀ move ∈ moves, test move = false → move.1 = move.2) (key : α) :
    follow (moves.filter test) key = follow moves key := by
  induction moves generalizing key with
  | nil => rfl
  | cons move rest ih =>
    have later := fun key => ih (fun other inside => idle other (List.mem_cons_of_mem _ inside)) key
    cases kept : test move with
    | true => rw [List.filter_cons_of_pos kept, follow_cons, follow_cons, later]
    | false =>
      have same := idle move (by simp) kept
      rw [List.filter_cons_of_neg (by simp [kept]), follow_cons, later]
      congr 1
      split
      · rename_i here
        rw [here, same]
      · rfl

theorem follow_ne {moves : List (α × α)} {name key : α} (named : ∀ move ∈ moves, move.2 ≠ name)
    (differ : key ≠ name) : follow moves key ≠ name := by
  induction moves generalizing key with
  | nil => exact differ
  | cons move rest ih =>
    rw [follow_cons]
    refine ih (fun other inside => named other (List.mem_cons_of_mem _ inside)) ?_
    split
    · exact named move (by simp)
    · exact differ

/-- `dict.update`. -/
def update (moves more : List (α × α)) : List (α × α) :=
  more.foldl (fun moves move => setItem moves move.1 move.2) moves

/-- An update that agrees with what is recorded only adds the new keys. -/
theorem update_agreeing {moves more : List (α × α)} (distinct : (keys moves).Nodup)
    (distinct_more : (keys more).Nodup) (agrees : ∀ move ∈ more, move.1 ∈ keys moves → move ∈ moves) :
    update moves more = moves ++ more.filter fun move => move.1 ∉ keys moves := by
  induction more generalizing moves with
  | nil => simp [update]
  | cons move rest ih =>
    rw [keys_cons, List.nodup_cons] at distinct_more
    show update (setItem moves move.1 move.2) rest = _
    by_cases known : move.1 ∈ keys moves
    · rw [setItem_of_mem distinct (agrees move (by simp) known),
        ih distinct distinct_more.2 fun other inside => agrees other (List.mem_cons_of_mem _ inside),
        List.filter_cons_of_neg (by simpa using known)]
    · have added : setItem moves move.1 move.2 = moves ++ [move] := by
        rw [setItem, if_neg known]
      have distinct' := keys_setItem_nodup distinct move.1 move.2
      rw [added] at distinct' ⊢
      have differ : ∀ other ∈ rest, other.1 ≠ move.1 := fun other inside same =>
        distinct_more.1 (same ▸ List.mem_map_of_mem inside)
      rw [ih distinct' distinct_more.2, List.filter_cons_of_pos (by simpa using known), List.append_assoc]
      · congr 1
        rw [List.singleton_append]
        congr 1
        apply List.filter_congr
        intro other inside
        have single : keys [move] = [move.1] := rfl
        rw [keys_append, single]
        simp [differ other inside]
      · intro other inside listed
        rw [keys_append, List.mem_append] at listed
        refine List.mem_append_left _ (agrees other (List.mem_cons_of_mem _ inside) (listed.resolve_right ?_))
        simpa [keys] using differ other inside

/-- Dropping renamings that do not end at the destination leaves the key settled. -/
theorem Settled.filter {moves : List (α × α)} {key dest : α} (settled : Settled moves key dest)
    {test : α × α → Bool} (kept : test (key, dest) = true) : Settled (moves.filter test) key dest := by
  rcases settled with ⟨absent, rfl⟩ | ⟨before, after, rfl, first, stays⟩
  · exact .inl ⟨fun member => absent (keys_filter_subset _ _ member), rfl⟩
  · refine .inr ⟨before.filter test, after.filter test, ?_,
      fun member => first (keys_filter_subset _ _ member),
      fun member => stays (keys_filter_subset _ _ member)⟩
    rw [List.filter_append, List.filter_cons_of_pos kept]

theorem destination_cons (move : α × α) (moves : List (α × α)) (key : α) :
    destination (move :: moves) key = if key = move.1 then move.2 else destination moves key := by
  by_cases same : key = move.1
  · simp [destination, same]
  · have differ : ¬ move.1 = key := fun equal => same equal.symm
    simp [destination, same, differ]

theorem destination_absent {moves : List (α × α)} {key : α} (absent : key ∉ keys moves) :
    destination moves key = key := by
  induction moves with
  | nil => rfl
  | cons move rest ih =>
    rw [keys_cons, List.mem_cons, not_or] at absent
    rw [destination_cons, if_neg absent.1, ih absent.2]

theorem destination_of_mem {moves : List (α × α)} (distinct : (keys moves).Nodup) {move : α × α}
    (member : move ∈ moves) : destination moves move.1 = move.2 := by
  induction moves with
  | nil => cases member
  | cons first rest ih =>
    rw [keys_cons, List.nodup_cons] at distinct
    rw [destination_cons]
    rcases List.mem_cons.mp member with rfl | later
    · rw [if_pos rfl]
    · have differ : move.1 ≠ first.1 := fun equal => distinct.1 (equal ▸ List.mem_map_of_mem later)
      rw [if_neg differ, ih distinct.2 later]

end Renaming
