import Mathlib.Data.Finmap
import Mathlib.Data.List.Induction
import Mathlib.Order.Bounds.Basic
import Rdst.Lib.Assoc

/-! The greatest value of every key, and a list without what a member of it dominates. -/

namespace Maxima

open Assoc

section Table

variable {Key Value Rank : Type} [DecidableEq Key] [LinearOrder Rank] (rank : Value → Rank)

/-- Write a value at a key that has none as great. -/
def noteMax (table : Dict Key Value) (key : Key) (value : Value) : Dict Key Value :=
  match table.lookup key with
  | some best => if rank best < rank value then table.insert key value else table
  | none => table.insert key value

/-- Every key with values has one of the greatest, and the others have none. -/
def Best (table : Dict Key Value) (values : Key → Set Value) : Prop :=
  ∀ key, match table.lookup key with
    | some best => best ∈ values key ∧ ∀ value ∈ values key, rank value ≤ rank best
    | none => values key = ∅

variable {rank} {table : Dict Key Value} {values more : Key → Set Value}

theorem Best.empty : Best rank (∅ : Dict Key Value) fun _ => ∅ := fun _ => rfl

theorem Best.congr (best : Best rank table values) (same : ∀ key, values key = more key) : Best rank table more := by
  have equal : values = more := funext same
  rwa [← equal]

theorem noteMax_other {key k : Key} (value : Value) (other : k ≠ key) :
    (noteMax rank table key value).lookup k = table.lookup k := by
  unfold noteMax
  split
  · split
    · exact AList.lookup_insert_ne other
    · rfl
  · exact AList.lookup_insert_ne other

theorem noteMax_own (table : Dict Key Value) (key : Key) (value : Value) :
    (noteMax rank table key value).lookup key =
      match table.lookup key with
      | some best => if rank best < rank value then some value else some best
      | none => some value := by
  unfold noteMax
  cases found : table.lookup key with
  | none => exact AList.lookup_insert table
  | some best =>
    simp only
    split
    · exact AList.lookup_insert table
    · exact found

theorem noteMax_local : Local (noteMax rank : Dict Key Value → Key → Value → Dict Key Value) where
  other table key value k other := noteMax_other value other
  own table table' key value same := by rw [noteMax_own, noteMax_own, same]

/-- The values of two tables in one. -/
theorem Best.merge {table' : Dict Key Value} (best : Best rank table values) (best' : Best rank table' more) :
    Best rank (forItems table' table (noteMax rank)) fun key => values key ∪ more key := by
  intro key
  have here := best key
  have there := best' key
  rw [forItems_lookup noteMax_local]
  cases found' : table'.lookup key with
  | none =>
    rw [found'] at there
    simp only [there, Set.union_empty]
    exact here
  | some value =>
    rw [found'] at there
    simp only [noteMax_own]
    cases found : table.lookup key with
    | none =>
      rw [found] at here
      simp only [here, Set.empty_union]
      exact there
    | some stored =>
      rw [found] at here
      simp only at here there ⊢
      by_cases less : rank stored < rank value
      · rw [if_pos less]
        refine ⟨.inr there.1, ?_⟩
        rintro other (old | new)
        · exact (here.2 other old).trans less.le
        · exact there.2 other new
      · rw [if_neg less]
        refine ⟨.inl here.1, ?_⟩
        rintro other (old | new)
        · exact here.2 other old
        · exact (there.2 other new).trans (not_lt.mp less)

/-- One more value. -/
theorem Best.note (best : Best rank table values) (key : Key) (value : Value) :
    Best rank (noteMax rank table key value) fun k => values k ∪ {v | k = key ∧ v = value} := by
  have single : Best rank (AList.singleton key value : Dict Key Value) fun k => {v | k = key ∧ v = value} := by
    intro k
    by_cases same : k = key
    · subst same
      simp [AList.singleton, AList.lookup]
    · simp [AList.singleton, AList.lookup, same]
  exact best.merge single

theorem Best.lookup {key : Key} {value : Value} (best : Best rank table values) (member : value ∈ values key) :
    ∃ greatest, table.lookup key = some greatest := by
  have here := best key
  cases found : table.lookup key with
  | some greatest => exact ⟨greatest, rfl⟩
  | none =>
    rw [found] at here
    rw [here] at member
    cases member

theorem Best.isGreatest {key : Key} {greatest : Value} (best : Best rank table values)
    (found : table.lookup key = some greatest) : IsGreatest (rank '' values key) (rank greatest) := by
  have here := best key
  rw [found] at here
  refine ⟨⟨greatest, here.1, rfl⟩, ?_⟩
  rintro _ ⟨value, member, rfl⟩
  exact here.2 value member

theorem Best.mem {key : Key} {greatest : Value} (best : Best rank table values)
    (found : table.lookup key = some greatest) : greatest ∈ values key := by
  have here := best key
  rw [found] at here
  exact here.1

end Table

section Thinning

variable {α : Type} (dominated : α → α → Bool)

/-- The members of a list in turn, without those that one kept before dominates. -/
def thin (list : List α) : List α :=
  list.foldl (fun kept a => if kept.any (dominated a) then kept else kept ++ [a]) []

theorem thin_snoc (list : List α) (a : α) : thin dominated (list ++ [a]) =
    if (thin dominated list).any (dominated a) then thin dominated list else thin dominated list ++ [a] := by
  unfold thin
  rw [List.foldl_append, List.foldl_cons, List.foldl_nil]

theorem thin_sublist (list : List α) : (thin dominated list).Sublist list := by
  induction list using List.reverseRecOn with
  | nil => exact List.Sublist.slnil
  | append_singleton front a ih =>
    rw [thin_snoc]
    split
    · exact ih.trans (List.sublist_append_left front [a])
    · exact ih.append (List.Sublist.refl [a])

/-- What is left out is dominated by what is kept. -/
theorem thin_dominates (reflexive : ∀ a, dominated a a = true) {list : List α} {a : α} (member : a ∈ list) :
    ∃ b ∈ thin dominated list, dominated a b = true := by
  induction list using List.reverseRecOn with
  | nil => cases member
  | append_singleton front c ih =>
    rw [thin_snoc]
    rcases List.mem_append.mp member with before | here
    · obtain ⟨b, kept, dominates⟩ := ih before
      refine ⟨b, ?_, dominates⟩
      split
      · exact kept
      · exact List.mem_append_left [c] kept
    · have same := List.mem_singleton.mp here
      subst same
      split
      next covered => exact List.any_eq_true.mp covered
      next => exact ⟨a, List.mem_append_right _ here, reflexive a⟩

end Thinning

end Maxima
