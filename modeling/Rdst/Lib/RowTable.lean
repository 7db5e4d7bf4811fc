import Mathlib.Data.List.Basic
import Mathlib.Data.List.Pairwise
import Mathlib.Data.List.Count
import Mathlib.Data.List.Perm.Subperm

namespace RowTable

set_option linter.unusedSectionVars false

variable {α : Type*}

/-- A table whose rows have a rowid, in the order of their ids. -/
structure Table (α : Type*) where
  rows : List (Nat × α)
  ordered : rows.Pairwise fun a b => a.1 < b.1

def Table.empty : Table α := ⟨[], List.Pairwise.nil⟩

/-- A new row takes the id after the greatest one, so that the id of a deleted row can come again. -/
def Table.nextId (t : Table α) : Nat :=
  match t.rows.getLast? with
  | some row => row.1 + 1
  | none => 1

theorem Table.lt_nextId (t : Table α) {row : Nat × α} (member : row ∈ t.rows) : row.1 < t.nextId := by
  obtain ⟨rows, ordered⟩ := t
  rcases List.eq_nil_or_concat rows with rfl | ⟨init, last, rfl⟩
  · cases member
  · simp only [List.concat_eq_append] at ordered member ⊢
    have next : Table.nextId ⟨init ++ [last], ordered⟩ = last.1 + 1 := by simp [Table.nextId]
    rw [next]
    rcases List.mem_append.mp member with early | here
    · have := (List.pairwise_append.mp ordered).2.2 row early last (by simp)
      omega
    · rw [List.mem_singleton.mp here]
      omega

def Table.insert (t : Table α) (a : α) : Table α where
  rows := t.rows ++ [(t.nextId, a)]
  ordered := List.pairwise_append.mpr ⟨t.ordered, List.pairwise_singleton _ _, by
    intro row member last here
    rw [List.mem_singleton.mp here]
    exact t.lt_nextId member⟩

def Table.update (t : Table α) (change : Nat → α → α) : Table α where
  rows := t.rows.map fun row => (row.1, change row.1 row.2)
  ordered := List.pairwise_map.mpr t.ordered

def Table.delete (t : Table α) (gone : Nat → α → Bool) : Table α where
  rows := t.rows.filter fun row => !gone row.1 row.2
  ordered := t.ordered.filter _

def Table.lookup (t : Table α) (id : Nat) : Option α := (t.rows.find? fun row => row.1 = id).map Prod.snd

theorem Table.mem_rows_iff (t : Table α) {id : Nat} {a : α} : (id, a) ∈ t.rows ↔ t.lookup id = some a := by
  obtain ⟨rows, ordered⟩ := t
  unfold Table.lookup
  induction rows with
  | nil => simp
  | cons row rest ih =>
    obtain ⟨first, b⟩ := row
    rw [List.pairwise_cons] at ordered
    by_cases same : first = id
    · subst same
      have later : (first, a) ∉ rest := fun member => absurd (ordered.1 _ member) (Nat.lt_irrefl _)
      have here : (first, a) ∈ (first, b) :: rest ↔ a = b := by
        simp [List.mem_cons, later]
      rw [here, List.find?_cons_of_pos (by simp)]
      simp [eq_comm]
    · have other : id ≠ first := fun equal => same equal.symm
      rw [List.find?_cons_of_neg (by simpa using same), ← ih ordered.2]
      simp [List.mem_cons, other]

theorem Table.lookup_none (t : Table α) {id : Nat} : t.lookup id = none ↔ ∀ row ∈ t.rows, row.1 ≠ id := by
  constructor
  · rintro absent ⟨id', a⟩ member rfl
    rw [t.mem_rows_iff.mp member] at absent
    cases absent
  · intro outside
    cases found : t.lookup id with
    | none => rfl
    | some a => exact absurd rfl (outside _ (t.mem_rows_iff.mpr found))

@[simp] theorem Table.lookup_update (t : Table α) (change : Nat → α → α) (id : Nat) :
    (t.update change).lookup id = (t.lookup id).map (change id) := by
  obtain ⟨rows, ordered⟩ := t
  simp only [Table.lookup, Table.update]
  induction rows with
  | nil => rfl
  | cons row rest ih =>
    rw [List.pairwise_cons] at ordered
    by_cases same : row.1 = id
    · subst same
      simp
    · simpa [List.find?_cons_of_neg, same] using ih ordered.2

@[simp] theorem Table.lookup_delete (t : Table α) (gone : Nat → α → Bool) (id : Nat) :
    (t.delete gone).lookup id = (t.lookup id).filter fun a => !gone id a := by
  cases found : t.lookup id with
  | none =>
    rw [Option.filter_none, Table.lookup_none]
    intro row member
    exact t.lookup_none.mp found row (List.mem_of_mem_filter member)
  | some a =>
    have member := t.mem_rows_iff.mpr found
    by_cases removed : gone id a = true
    · have rest : (some a).filter (fun a => !gone id a) = none := by simp [removed]
      rw [rest, Table.lookup_none]
      rintro ⟨id', b⟩ inside rfl
      obtain ⟨inside, stays⟩ := List.mem_filter.mp inside
      have same := t.mem_rows_iff.mp inside
      rw [found] at same
      cases same
      simp [removed] at stays
    · have rest : (some a).filter (fun a => !gone id a) = some a := by simp [removed]
      rw [rest, ← Table.mem_rows_iff]
      exact List.mem_filter.mpr ⟨member, by simp [removed]⟩

theorem Table.lookup_nextId (t : Table α) : t.lookup t.nextId = none := by
  rw [Table.lookup_none]
  intro row member same
  have := t.lt_nextId member
  omega

theorem Table.lookup_insert (t : Table α) (a : α) (id : Nat) :
    (t.insert a).lookup id = if id = t.nextId then some a else t.lookup id := by
  by_cases new : id = t.nextId
  · subst new
    rw [if_pos rfl, ← Table.mem_rows_iff]
    exact List.mem_append.mpr (.inr (List.mem_singleton.mpr rfl))
  · rw [if_neg new]
    simp only [Table.lookup, Table.insert, List.find?_append]
    rw [List.find?_cons_of_neg (by simpa using fun same => new same.symm)]
    simp

@[simp] theorem Table.lookup_empty (id : Nat) : (Table.empty : Table α).lookup id = none := rfl

/-- The row with the greatest id among those that pass the test. -/
def Table.last (t : Table α) (test : α → Bool) : Option (Nat × α) := (t.rows.filter fun row => test row.2).getLast?

theorem Table.last_none (t : Table α) {test : α → Bool} :
    t.last test = none ↔ ∀ id a, t.lookup id = some a → test a = false := by
  rw [Table.last, List.getLast?_eq_none_iff, List.filter_eq_nil_iff]
  constructor
  · intro fails id a found
    simpa using fails (id, a) (t.mem_rows_iff.mpr found)
  · rintro fails ⟨id, a⟩ member
    simpa using fails id a (t.mem_rows_iff.mp member)

theorem Table.last_some (t : Table α) {test : α → Bool} {row : Nat × α} (found : t.last test = some row) :
    t.lookup row.1 = some row.2 ∧ test row.2 = true := by
  have member := List.mem_of_getLast? found
  obtain ⟨inside, passes⟩ := List.mem_filter.mp member
  exact ⟨t.mem_rows_iff.mp inside, passes⟩

/-- How many rows pass the test. -/
def Table.count (t : Table α) (test : α → Bool) : Nat := t.rows.countP fun row => test row.2

@[simp] theorem Table.count_empty (test : α → Bool) : (Table.empty : Table α).count test = 0 := rfl

theorem Table.rows_nodup (t : Table α) : (t.rows.map Prod.fst).Nodup := by
  rw [List.nodup_iff_pairwise_ne, List.pairwise_map]
  exact t.ordered.imp fun before => Nat.ne_of_lt before

/-- A count is the number of the ids that pass. -/
theorem Table.count_eq (t : Table α) (test : α → Bool) :
    t.count test = ((t.rows.filter fun row => test row.2).map Prod.fst).length := by
  rw [List.length_map, Table.count, List.countP_eq_length_filter]

theorem Table.mem_passing (t : Table α) (test : α → Bool) {id : Nat} :
    id ∈ (t.rows.filter fun row => test row.2).map Prod.fst ↔ ∃ a, t.lookup id = some a ∧ test a = true := by
  constructor
  · intro member
    obtain ⟨row, inside, rfl⟩ := List.mem_map.mp member
    obtain ⟨inside, passes⟩ := List.mem_filter.mp inside
    exact ⟨row.2, t.mem_rows_iff.mp inside, passes⟩
  · rintro ⟨a, found, passes⟩
    exact List.mem_map.mpr ⟨(id, a), List.mem_filter.mpr ⟨t.mem_rows_iff.mpr found, passes⟩, rfl⟩

theorem Table.passing_nodup (t : Table α) (test : α → Bool) :
    ((t.rows.filter fun row => test row.2).map Prod.fst).Nodup :=
  (List.filter_sublist.map Prod.fst).nodup t.rows_nodup

/-- A count does not grow where every row that passes passed before. -/
theorem Table.count_le {t later : Table α} {test : α → Bool}
    (before : ∀ id a, later.lookup id = some a → test a = true → ∃ b, t.lookup id = some b ∧ test b = true) :
    later.count test ≤ t.count test := by
  rw [Table.count_eq, Table.count_eq]
  apply List.Subperm.length_le
  apply List.subperm_of_subset (later.passing_nodup test)
  intro id member
  obtain ⟨a, found, passes⟩ := (later.mem_passing test).mp member
  exact (t.mem_passing test).mpr (before id a found passes)

/-- It grows by one at most where a single row is the exception. -/
theorem Table.count_le_succ {t later : Table α} {test : α → Bool} (special : Nat)
    (before : ∀ id a, id ≠ special → later.lookup id = some a → test a = true →
      ∃ b, t.lookup id = some b ∧ test b = true) :
    later.count test ≤ t.count test + 1 := by
  rw [Table.count_eq, Table.count_eq, show ((t.rows.filter fun row => test row.2).map Prod.fst).length + 1 =
    (special :: (t.rows.filter fun row => test row.2).map Prod.fst).length from rfl]
  apply List.Subperm.length_le
  apply List.subperm_of_subset (later.passing_nodup test)
  intro id member
  obtain ⟨a, found, passes⟩ := (later.mem_passing test).mp member
  by_cases same : id = special
  · rw [same]
    exact List.mem_cons_self
  · exact List.mem_cons_of_mem _ ((t.mem_passing test).mpr (before id a same found passes))

theorem Table.count_eq_zero (t : Table α) {test : α → Bool} :
    t.count test = 0 ↔ ∀ id a, t.lookup id = some a → test a = false := by
  rw [Table.count, List.countP_eq_zero]
  constructor
  · intro fails id a found
    simpa using fails (id, a) (t.mem_rows_iff.mpr found)
  · rintro fails ⟨id, a⟩ member
    simp [fails id a (t.mem_rows_iff.mp member)]

section One

variable {t : Table α} {id : Nat} {a : α} {change : α → α}

theorem Table.update_same {change : Nat → α → α} (same : ∀ row ∈ t.rows, change row.1 row.2 = row.2) :
    t.update change = t := by
  have rows : (t.update change).rows = t.rows := by
    apply (List.map_congr_left _).trans (List.map_id _)
    intro row member
    rw [same row member]
    rfl
  cases t
  simp only [Table.update] at rows ⊢
  congr

theorem Table.update_congr {change change' : Nat → α → α}
    (same : ∀ row ∈ t.rows, change row.1 row.2 = change' row.1 row.2) : t.update change = t.update change' := by
  have rows : t.rows.map (fun row => (row.1, change row.1 row.2)) =
      t.rows.map fun row => (row.1, change' row.1 row.2) := by
    apply List.map_congr_left
    intro row member
    rw [same row member]
  simp only [Table.update, rows]

theorem Table.update_update (change change' : Nat → α → α) :
    (t.update change).update change' = t.update fun id a => change' id (change id a) := by
  simp only [Table.update, List.map_map, Function.comp_def]

/-- An update of one row takes it from the rows that pass a test it fails then. -/
theorem Table.filter_update_one {test : Nat × α → Bool} (fails : ∀ a, t.lookup id = some a → test (id, change a) = false) :
    (t.update fun other a => if other = id then change a else a).rows.filter test =
      (t.rows.filter test).filter fun row => row.1 ≠ id := by
  have rows : ∀ row ∈ t.rows, row.1 = id → test (id, change row.2) = false := by
    intro row member same
    apply fails
    rw [← same]
    exact t.mem_rows_iff.mp member
  simp only [Table.update]
  generalize t.rows = list at rows
  induction list with
  | nil => rfl
  | cons row rest ih =>
    have others := ih fun other member => rows other (List.mem_cons_of_mem row member)
    have first := rows row List.mem_cons_self
    by_cases same : row.1 = id
    · have out : test (row.1, if row.1 = id then change row.2 else row.2) = false := by
        rw [if_pos same, same]
        exact first same
      rw [List.map_cons, List.filter_cons_of_neg (by simp [out]), others, List.filter_filter, List.filter_filter,
        List.filter_cons_of_neg (by simp [same])]
    · have kept : (row.1, if row.1 = id then change row.2 else row.2) = row := by rw [if_neg same]
      rw [List.map_cons, kept, List.filter_cons, List.filter_cons]
      split
      · rw [List.filter_cons_of_pos (by simp [same]), others]
      · exact others

/-- And adds it to those that pass a test it failed before. -/
theorem Table.count_update_one {test : α → Bool} (found : t.lookup id = some a) (failed : test a = false) :
    (t.update fun other a => if other = id then change a else a).count test =
      t.count test + if test (change a) = true then 1 else 0 := by
  have member : (id, a) ∈ t.rows := t.mem_rows_iff.mpr found
  have distinct := t.rows_nodup
  simp only [Table.count, Table.update]
  generalize t.rows = list at member distinct
  induction list with
  | nil => cases member
  | cons row rest ih =>
    obtain ⟨apart, distinct⟩ := List.nodup_cons.mp distinct
    rcases List.mem_cons.mp member with same | later
    · subst same
      have others : rest.map (fun row => (row.1, if row.1 = id then change row.2 else row.2)) = rest := by
        apply (List.map_congr_left _).trans (List.map_id _)
        intro row inside
        have other : row.1 ≠ id := by
          intro same
          apply apart
          exact List.mem_map.mpr ⟨row, inside, same⟩
        rw [if_neg other]
        rfl
      rw [List.map_cons, others, List.countP_cons, List.countP_cons]
      simp [failed]
    · have other : row.1 ≠ id := fun same => apart (same ▸ List.mem_map_of_mem later)
      rw [List.map_cons, List.countP_cons, List.countP_cons, ih later distinct, if_neg other, Nat.add_right_comm]

end One

/-- Two tables that agree on the rows that pass a test list them alike. -/
theorem Table.filter_rows_congr {t later : Table α} {test : Nat × α → Bool}
    (same : ∀ row, test row = true → (row ∈ later.rows ↔ row ∈ t.rows)) : later.rows.filter test = t.rows.filter test := by
  have distinct (t : Table α) : (t.rows.filter test).Nodup := by
    apply (t.ordered.filter _).imp
    rintro a _ before rfl
    exact Nat.lt_irrefl _ before
  have perm : (later.rows.filter test).Perm (t.rows.filter test) := by
    rw [List.perm_ext_iff_of_nodup (distinct later) (distinct t)]
    intro row
    rw [List.mem_filter, List.mem_filter, and_congr_left_iff]
    exact same row
  refine perm.eq_of_pairwise ?_ (later.ordered.filter _) (t.ordered.filter _)
  intro a b _ _ before after
  exact absurd before (Nat.lt_asymm after)

end RowTable
