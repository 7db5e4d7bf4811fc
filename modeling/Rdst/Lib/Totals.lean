import Mathlib.Algebra.BigOperators.Group.List.Basic
import Mathlib.Data.List.Dedup
import Rdst.Lib.Assoc

namespace Totals

variable {Row Entry Group M : Type*} [AddCommMonoid M]

/-- What the entries that meet a condition add up to. -/
def total (value : Entry → M) (test : Entry → Prop) [DecidablePred test] (entries : List Entry) : M :=
  ((entries.filter fun entry => test entry).map value).sum

section Total

variable {value : Entry → M} {test other : Entry → Prop} [DecidablePred test] [DecidablePred other]
  {entries : List Entry}

@[simp] theorem total_nil : total value test [] = 0 := rfl

theorem total_cons (entry : Entry) (rest : List Entry) :
    total value test (entry :: rest) = (if test entry then value entry else 0) + total value test rest := by
  unfold total
  by_cases met : test entry <;> simp [met]

theorem total_append (first second : List Entry) :
    total value test (first ++ second) = total value test first + total value test second := by
  simp [total]

theorem total_congr {worth : Entry → M} (same : ∀ entry ∈ entries, test entry ↔ other entry)
    (values : ∀ entry ∈ entries, other entry → value entry = worth entry) :
    total value test entries = total worth other entries := by
  unfold total
  have filtered : (entries.filter fun entry => test entry) = entries.filter fun entry => other entry :=
    List.filter_congr fun entry member => by simp [same entry member]
  rw [filtered]
  congr 1
  apply List.map_congr_left
  intro entry member
  have both := List.mem_filter.mp member
  exact values entry both.1 (by simpa using both.2)

theorem total_eq_sum (value : Entry → M) (test : Entry → Prop) [DecidablePred test] (entries : List Entry) :
    total value test entries = (entries.map fun entry => (if test entry then 1 else 0) • value entry).sum := by
  induction entries with
  | nil => rfl
  | cons entry rest ih =>
    rw [total_cons, ih, List.map_cons, List.sum_cons]
    by_cases met : test entry
    · rw [if_pos met, if_pos met, one_nsmul]
    · rw [if_neg met, if_neg met, zero_nsmul]

/-- The entries of a condition are those that meet a second one, and the others. -/
theorem total_split (second : Entry → Prop) [DecidablePred second] :
    total value test entries = total value (fun entry => test entry ∧ second entry) entries +
      total value (fun entry => test entry ∧ ¬ second entry) entries := by
  induction entries with
  | nil => simp
  | cons entry rest ih =>
    simp only [total_cons, ih]
    by_cases met : test entry <;> by_cases also : second entry <;> simp [met, also, add_assoc, add_left_comm]

theorem total_perm {rest : List Entry} (same : entries.Perm rest) : total value test entries = total value test rest :=
  ((same.filter _).map _).sum_eq

theorem total_map {Source : Type*} (make : Source → Entry) (sources : List Source) :
    total value test (sources.map make) = total (fun x => value (make x)) (fun x => test (make x)) sources := by
  simp only [total, List.filter_map, List.map_map, Function.comp_def]

theorem total_hom {N : Type*} [AddCommMonoid N] (f : M →+ N) :
    f (total value test entries) = total (fun entry => f (value entry)) test entries := by
  simp only [total, map_list_sum, List.map_map, Function.comp_def]

theorem total_filter (entries : List Entry) :
    ((entries.filter fun entry => test entry).map value).sum = total value test entries := rfl

theorem total_eq_zero (none : ∀ entry ∈ entries, ¬ test entry) : total value test entries = 0 := by
  have filtered : (entries.filter fun entry => test entry) = [] := by simpa using none
  simp [total, filtered]

end Total

section Cover

variable (inside : Row → Entry → Prop) [∀ row, DecidablePred (inside row)]

/-- How many rows an entry is inside of. -/
def cover (rows : List Row) (entry : Entry) : Nat := rows.countP fun row => inside row entry

variable {inside} {rows : List Row} {entries : List Entry} {value : Entry → M}

theorem cover_cons (row : Row) (rest : List Row) (entry : Entry) :
    cover inside (row :: rest) entry = cover inside rest entry + if inside row entry then 1 else 0 := by
  unfold cover
  by_cases held : inside row entry <;> simp [held]

/-- The rows together count an entry as often as they cover it. -/
theorem sum_totals (rows : List Row) (entries : List Entry) (value : Entry → M) :
    (rows.map fun row => total value (inside row) entries).sum =
      (entries.map fun entry => cover inside rows entry • value entry).sum := by
  induction rows with
  | nil => simp [cover]
  | cons row rest ih =>
    rw [List.map_cons, List.sum_cons, ih, total_eq_sum, ← List.sum_map_add]
    congr 1
    apply List.map_congr_left
    intro entry _
    rw [cover_cons, add_nsmul, add_comm]

/-- Rows that cover the entries of a condition once, and no others, add up to what these entries do. -/
theorem sum_of_cover {test : Entry → Prop} [DecidablePred test]
    (exact : ∀ entry ∈ entries, cover inside rows entry = if test entry then 1 else 0) :
    (rows.map fun row => total value (inside row) entries).sum = total value test entries := by
  rw [sum_totals]
  induction entries with
  | nil => rfl
  | cons entry later ih =>
    have head := exact entry List.mem_cons_self
    have tail := ih fun e member => exact e (List.mem_cons_of_mem _ member)
    rw [List.map_cons, List.sum_cons, head, tail, total_cons]
    by_cases met : test entry
    · rw [if_pos met, if_pos met, one_nsmul]
    · rw [if_neg met, if_neg met, zero_nsmul]

theorem cover_eq_zero {entry : Entry} (none : ∀ row ∈ rows, ¬ inside row entry) : cover inside rows entry = 0 :=
  List.countP_eq_zero.mpr (by simpa using none)

theorem cover_le_one (apart : rows.Pairwise fun a b => ∀ entry, ¬ (inside a entry ∧ inside b entry)) (entry : Entry) :
    cover inside rows entry ≤ 1 := by
  induction rows with
  | nil => simp [cover]
  | cons row rest ih =>
    have ⟨first, later⟩ := List.pairwise_cons.mp apart
    rw [cover_cons]
    by_cases held : inside row entry
    · have none : cover inside rest entry = 0 :=
        cover_eq_zero fun other member both => first other member entry ⟨held, both⟩
      simp [held, none]
    · simpa [held] using ih later

theorem cover_pos_iff {entry : Entry} : 0 < cover inside rows entry ↔ ∃ row ∈ rows, inside row entry := by
  simp [cover, List.countP_pos_iff]

/-- Rows that are apart cover an entry once where one of them holds it. -/
theorem cover_eq_one_iff (apart : rows.Pairwise fun a b => ∀ entry, ¬ (inside a entry ∧ inside b entry)) {entry : Entry} :
    cover inside rows entry = 1 ↔ ∃ row ∈ rows, inside row entry := by
  rw [← cover_pos_iff]
  have := cover_le_one apart entry
  omega

end Cover

section Grouped

variable [DecidableEq Group] {key : Row → Group} {value : Row → M} {rows : List Row}

/-- `GROUP BY`: every key that occurs, with its rows. -/
def grouped (key : Row → Group) (rows : List Row) : List (Group × List Row) :=
  (rows.map key).dedup.map fun group => (group, rows.filter fun row => key row = group)

theorem mem_grouped {group : Group × List Row} (member : group ∈ grouped key rows) :
    group.2 = rows.filter fun row => key row = group.1 := by
  unfold grouped at member
  obtain ⟨name, _, rfl⟩ := List.mem_map.mp member
  rfl

/-- The rows of a condition that reads their group only add up to what the groups of that condition do. -/
theorem sum_grouped (test : Group → Prop) [DecidablePred test] :
    total (fun group => (group.2.map value).sum) (fun group => test group.1) (grouped key rows) =
      total value (fun row => test (key row)) rows := by
  have covered : ∀ row ∈ rows, cover (fun group row => key row = group)
      ((rows.map key).dedup.filter fun group => test group) row = if test (key row) then 1 else 0 := by
    intro row member
    have distinct : ((rows.map key).dedup.filter fun group => test group).Pairwise
        fun a b => ∀ row, ¬ (key row = a ∧ key row = b) :=
      (((List.nodup_dedup _).filter _).imp fun ne row both => ne (both.1.symm.trans both.2))
    by_cases met : test (key row)
    · rw [if_pos met, cover_eq_one_iff distinct]
      exact ⟨key row, by simpa [met] using ⟨row, member, rfl⟩, rfl⟩
    · rw [if_neg met]
      apply cover_eq_zero
      intro group chosen same
      simp [← same, met] at chosen
  rw [← sum_of_cover covered]
  simp only [grouped, total, List.filter_map, List.map_map, Function.comp_def]

end Grouped

section GroupSums

open Assoc

variable {Key : Type} [DecidableEq Key] {N : Type} [AddCommMonoid N]

/-- `GROUP BY` with a sum for each key that occurs. -/
def groupSums (key : Row → Key) (value : Row → N) (rows : List Row) : Dict Key N where
  entries := (rows.map key).dedup.map fun name => ⟨name, total value (fun row => key row = name) rows⟩
  nodupKeys := by
    unfold List.NodupKeys List.keys
    rw [List.map_map]
    simpa [Function.comp_def] using List.nodup_dedup (rows.map key)

theorem groupSums_lookup (key : Row → Key) (value : Row → N) (rows : List Row) (name : Key) :
    (groupSums key value rows).lookup name =
      if ∃ row ∈ rows, key row = name then some (total value (fun row => key row = name) rows) else none := by
  apply Option.ext
  intro sum
  have member : sum ∈ (groupSums key value rows).lookup name ↔
      (∃ row ∈ rows, key row = name) ∧ total value (fun row => key row = name) rows = sum := by
    rw [AList.mem_lookup_iff]
    constructor
    · intro found
      obtain ⟨other, occurs, same⟩ := List.mem_map.mp found
      obtain ⟨rfl, sums⟩ := Sigma.mk.inj same
      exact ⟨List.mem_map.mp (List.mem_dedup.mp occurs), eq_of_heq sums⟩
    · intro both
      rw [← both.2]
      exact List.mem_map.mpr ⟨name, List.mem_dedup.mpr (List.mem_map.mpr both.1), rfl⟩
  rw [← Option.mem_def, member]
  by_cases occurs : ∃ row ∈ rows, key row = name <;> simp [occurs]

end GroupSums

section SumWhere

open Assoc

variable {Key : Type} [DecidableEq Key] {N : Type} [AddCommMonoid N]

/-- What the values of some keys of a mapping add up to. -/
def sumWhere (test : Key → Prop) [DecidablePred test] (dict : Dict Key N) : N :=
  total Sigma.snd (fun entry => test entry.1) dict.entries

variable {test other : Key → Prop} [DecidablePred test] [DecidablePred other] {dict next : Dict Key N}

/-- Only the values at those keys count. -/
theorem sumWhere_congr (same : ∀ key, test key → dict.lookup key = next.lookup key) :
    sumWhere test dict = sumWhere test next := by
  have entries : (dict.entries.filter fun entry => test entry.1).Perm (next.entries.filter fun entry => test entry.1) := by
    apply (List.perm_ext_iff_of_nodup ((List.NodupKeys.nodup dict.nodupKeys).filter _)
      ((List.NodupKeys.nodup next.nodupKeys).filter _)).mpr
    intro entry
    rw [List.mem_filter, List.mem_filter, decide_eq_true_eq]
    apply and_congr_left
    intro met
    obtain ⟨key, value⟩ := entry
    have first : (⟨key, value⟩ : Sigma fun _ : Key => N) ∈ dict.entries ↔ value ∈ dict.lookup key :=
      AList.mem_lookup_iff.symm
    have second : (⟨key, value⟩ : Sigma fun _ : Key => N) ∈ next.entries ↔ value ∈ next.lookup key :=
      AList.mem_lookup_iff.symm
    rw [first, second, same key met]
  exact (entries.map Sigma.snd).sum_eq

theorem sumWhere_one (dict : Dict Key N) (key : Key) :
    sumWhere (fun other => other = key) dict = (dict.lookup key).getD 0 := by
  obtain ⟨entries, nodup⟩ := dict
  show total Sigma.snd (fun entry => entry.1 = key) entries = (entries.dlookup key).getD 0
  induction entries with
  | nil => rfl
  | cons entry rest ih =>
    obtain ⟨name, value⟩ := entry
    rw [List.nodupKeys_cons] at nodup
    rw [total_cons]
    by_cases same : name = key
    · subst same
      have none_later : total Sigma.snd (fun entry : Sigma fun _ : Key => N => entry.1 = name) rest = 0 := by
        apply total_eq_zero
        intro later member here
        exact nodup.1 (List.mem_map.mpr ⟨later, member, here⟩)
      rw [if_pos rfl, none_later, List.dlookup_cons_eq, add_zero]
      rfl
    · rw [if_neg same, zero_add, ih nodup.2, List.dlookup_cons_ne _ _ (Ne.symm same)]

omit [DecidableEq Key] in
theorem sumWhere_split (second : Key → Prop) [DecidablePred second] :
    sumWhere test dict = sumWhere (fun key => test key ∧ second key) dict +
      sumWhere (fun key => test key ∧ ¬ second key) dict :=
  total_split fun entry : Sigma fun _ : Key => N => second entry.1

omit [DecidableEq Key] in
theorem sumWhere_keepKeys (keep : Key → Bool) (dict : Dict Key N) :
    sumWhere test (keepKeys keep dict) = sumWhere (fun key => test key ∧ keep key = true) dict := by
  unfold sumWhere total keepKeys
  rw [List.filter_filter]
  congr 2
  apply List.filter_congr
  intro entry _
  by_cases met : test entry.1 <;> by_cases kept : keep entry.1 = true <;> simp [met, kept]

/-- A value that is added at a key. -/
theorem sumWhere_added {key : Key} {value : N}
    (added : ∀ k, next.lookup k = if k = key then some ((dict.lookup key).getD 0 + value) else dict.lookup k) :
    sumWhere test next = sumWhere test dict + if test key then value else 0 := by
  have parts : ∀ dict : Dict Key N, sumWhere test dict = sumWhere (fun k => test k ∧ k = key) dict +
      sumWhere (fun k => test k ∧ ¬ k = key) dict := fun _ => sumWhere_split fun k => k = key
  rw [parts, parts dict]
  have rest : sumWhere (fun k => test k ∧ ¬ k = key) next = sumWhere (fun k => test k ∧ ¬ k = key) dict := by
    apply sumWhere_congr
    intro k met
    rw [added k, if_neg met.2]
  have alone : ∀ dict : Dict Key N, sumWhere (fun k => test k ∧ k = key) dict =
      if test key then (dict.lookup key).getD 0 else 0 := by
    intro dict
    by_cases met : test key
    · rw [if_pos met, ← sumWhere_one]
      apply total_congr
      · intro entry _
        constructor
        · exact fun both => both.2
        · exact fun same => ⟨same ▸ met, same⟩
      · exact fun _ _ _ => rfl
    · rw [if_neg met]
      apply total_eq_zero
      intro entry _ both
      exact met (both.2 ▸ both.1)
  rw [rest, alone, alone, added key, if_pos rfl]
  by_cases met : test key
  · simp only [if_pos met, Option.getD_some]
    rw [add_right_comm]
  · simp only [if_neg met, add_zero]

theorem sumWhere_groupSums {Source : Type} (key : Source → Key) (value : Source → N) (rows : List Source) :
    sumWhere test (groupSums key value rows) = total value (fun row => test (key row)) rows := by
  rw [← sum_grouped]
  unfold sumWhere groupSums grouped
  rw [total_map, total_map]
  rfl

end SumWhere

end Totals
