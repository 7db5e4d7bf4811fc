import Mathlib.Data.List.Nodup
import Mathlib.Data.List.Perm.Basic

namespace Chunks

variable {Row Key : Type*} [DecidableEq Key]

section Delete

variable (key : Row → Key) (victims : List Row → List Row) (chunk : Nat)

/-- One transaction: delete the rows whose keys a query finds, up to its limit. -/
def deleteBatch (rows : List Row) : List Row :=
  let batch := ((victims rows).take chunk).map key
  rows.filter fun row => key row ∉ batch

/-- One transaction after the other until one deletes fewer than a chunk; nothing where the fuel is short. -/
def deleteChunks : Nat → List Row → Option (List Row)
  | 0, _ => none
  | fuel + 1, rows =>
    let left := deleteBatch key victims chunk rows
    if rows.length - left.length < chunk then some left else deleteChunks fuel left

end Delete

/-- The query finds the doomed rows, and a row stays as doomed as it was when others that are doomed go. -/
structure Sweeps (victims : List Row → List Row) (doomed : List Row → Row → Bool) : Prop where
  finds : ∀ rows, (victims rows).Perm (rows.filter (doomed rows))
  stable : ∀ rows (keep : Row → Bool), (∀ row ∈ rows, doomed rows row = false → keep row = true) →
    ∀ row ∈ rows, keep row = true → doomed (rows.filter keep) row = doomed rows row

variable {key : Row → Key} {victims : List Row → List Row} {doomed : List Row → Row → Bool} {chunk : Nat}
  {rows : List Row}

theorem Sweeps.mem_victims (sweeps : Sweeps victims doomed) {row : Row} :
    row ∈ victims rows ↔ row ∈ rows ∧ doomed rows row = true :=
  (sweeps.finds rows).mem_iff.trans List.mem_filter

omit [DecidableEq Key] in
theorem mem_batch (sweeps : Sweeps victims doomed) (distinct : (rows.map key).Nodup) {row : Row} (member : row ∈ rows) :
    key row ∈ ((victims rows).take chunk).map key ↔ row ∈ (victims rows).take chunk := by
  constructor
  · intro named
    obtain ⟨victim, taken, same⟩ := List.mem_map.mp named
    have inside := (sweeps.mem_victims.mp (List.mem_of_mem_take taken)).1
    rwa [← List.inj_on_of_nodup_map distinct inside member same]
  · exact fun taken => List.mem_map_of_mem taken

theorem deleteBatch_sublist (key : Row → Key) (victims : List Row → List Row) (chunk : Nat) (rows : List Row) :
    (deleteBatch key victims chunk rows).Sublist rows := List.filter_sublist

omit [DecidableEq Key] in
/-- A transaction deletes doomed rows only. -/
theorem spared (sweeps : Sweeps victims doomed) (distinct : (rows.map key).Nodup) {row : Row} (member : row ∈ rows)
    (safe : doomed rows row = false) : key row ∉ ((victims rows).take chunk).map key := by
  rw [mem_batch sweeps distinct member]
  intro taken
  have fallen := (sweeps.mem_victims.mp (List.mem_of_mem_take taken)).2
  rw [safe] at fallen
  cases fallen

theorem deleteBatch_spares (chunk : Nat) (sweeps : Sweeps victims doomed) (distinct : (rows.map key).Nodup) :
    ∃ keep : Row → Bool, deleteBatch key victims chunk rows = rows.filter keep ∧
      ∀ row ∈ rows, doomed rows row = false → keep row = true := by
  refine ⟨_, rfl, ?_⟩
  intro row member safe
  exact decide_eq_true (spared sweeps distinct member safe)

theorem doomed_deleteBatch (sweeps : Sweeps victims doomed) (distinct : (rows.map key).Nodup) {row : Row}
    (left : row ∈ deleteBatch key victims chunk rows) :
    doomed (deleteBatch key victims chunk rows) row = doomed rows row := by
  obtain ⟨keep, same, spares⟩ := deleteBatch_spares chunk sweeps distinct
  rw [same] at left ⊢
  obtain ⟨member, kept⟩ := List.mem_filter.mp left
  exact sweeps.stable rows keep spares row member kept

theorem deleted_length (sweeps : Sweeps victims doomed) (distinct : (rows.map key).Nodup) :
    rows.length - (deleteBatch key victims chunk rows).length = ((victims rows).take chunk).length := by
  have parts := rows.length_eq_length_filter_add fun row => decide (key row ∉ ((victims rows).take chunk).map key)
  have gone : (rows.filter fun row => !decide (key row ∉ ((victims rows).take chunk).map key)).Perm
      ((victims rows).take chunk) := by
    have once : rows.Nodup := distinct.of_map
    have found : (victims rows).Nodup := (sweeps.finds rows).nodup_iff.mpr (once.filter _)
    rw [List.perm_ext_iff_of_nodup (once.filter _) (found.sublist (List.take_sublist _ _))]
    intro row
    simp only [List.mem_filter, decide_not, Bool.not_not, decide_eq_true_eq]
    constructor
    · rintro ⟨member, named⟩
      exact (mem_batch sweeps distinct member).mp named
    · intro taken
      have member := (sweeps.mem_victims.mp (List.mem_of_mem_take taken)).1
      exact ⟨member, (mem_batch sweeps distinct member).mpr taken⟩
  rw [← gone.length_eq, deleteBatch]
  omega

/-- Whatever its chunk, the loop ends, and it has deleted the doomed rows. -/
theorem deleteChunks_eq (sweeps : Sweeps victims doomed) (positive : 0 < chunk) (distinct : (rows.map key).Nodup)
    {fuel : Nat} (enough : rows.length < fuel) :
    deleteChunks key victims chunk fuel rows = some (rows.filter fun row => !doomed rows row) := by
  induction fuel generalizing rows with
  | zero => omega
  | succ fuel ih =>
    have length : rows.length - (deleteBatch key victims chunk rows).length = ((victims rows).take chunk).length :=
      deleted_length sweeps distinct
    rw [deleteChunks]
    split
    · rename_i last
      have whole : (victims rows).take chunk = victims rows := by
        rw [length, List.length_take] at last
        exact List.take_of_length_le (by omega)
      congr 1
      apply List.filter_congr
      intro row member
      have named : key row ∈ ((victims rows).take chunk).map key ↔ row ∈ (victims rows).take chunk :=
        mem_batch sweeps distinct member
      rw [whole, sweeps.mem_victims] at named
      rw [whole]
      cases fate : doomed rows row with
      | true => simp [named.mpr ⟨member, fate⟩]
      | false =>
        have safe : key row ∉ (victims rows).map key := fun inside => by simpa [fate] using named.mp inside
        simp [safe]
    · rename_i more
      have shorter := (deleteBatch_sublist key victims chunk rows).length_le
      have rest : (deleteBatch key victims chunk rows).length < fuel := by omega
      rw [ih (distinct.sublist ((deleteBatch_sublist key victims chunk rows).map key)) rest]
      congr 1
      have same : (deleteBatch key victims chunk rows).filter
          (fun row => !doomed (deleteBatch key victims chunk rows) row) =
          (deleteBatch key victims chunk rows).filter fun row => !doomed rows row := by
        apply List.filter_congr
        intro row left
        rw [doomed_deleteBatch sweeps distinct left]
      rw [same, deleteBatch, List.filter_filter]
      apply List.filter_congr
      intro row member
      cases fate : doomed rows row with
      | true => rfl
      | false => simpa using spared sweeps distinct member fate

/-- A test that looks at the row alone. -/
theorem Sweeps.of_filter (test : Row → Bool) : Sweeps (fun rows => rows.filter test) fun _ row => test row where
  finds _ := List.Perm.refl _
  stable _ _ _ _ _ _ := rfl

section Groups

variable {Group : Type*} [DecidableEq Group] (group : Row → Group) (cut : List Row → Row → Bool)

/-- Delete from one group what a test finds that is made once, from the rows of the group. -/
def deleteGroup (key : Row → Key) (chunk : Nat) (rows : List Row) (own : Group) : Option (List Row) :=
  let test := cut (rows.filter fun row => group row = own)
  deleteChunks key (fun rows => rows.filter fun row => group row = own && test row) chunk (rows.length + 1) rows

theorem deleteGroup_eq (positive : 0 < chunk) (distinct : (rows.map key).Nodup) (own : Group) :
    deleteGroup group cut key chunk rows own =
      some (rows.filter fun row => !(group row = own && cut (rows.filter fun other => group other = own) row)) :=
  deleteChunks_eq (Sweeps.of_filter _) positive distinct (Nat.lt_succ_self _)

/-- Each group loses what its own rows condemn. -/
theorem deleteGroups_eq (positive : 0 < chunk) {groups : List Group} (once : groups.Nodup)
    (distinct : (rows.map key).Nodup) :
    groups.foldlM (deleteGroup group cut key chunk) rows =
      some (rows.filter fun row =>
        !(group row ∈ groups && cut (rows.filter fun other => group other = group row) row)) := by
  induction groups generalizing rows with
  | nil => simp
  | cons own rest ih =>
    obtain ⟨absent, tail⟩ := List.nodup_cons.mp once
    have sublist : (rows.filter fun row =>
        !(decide (group row = own) && cut (rows.filter fun other => group other = own) row)).Sublist rows :=
      List.filter_sublist
    rw [List.foldlM_cons, deleteGroup_eq group cut positive distinct, Option.bind_eq_bind, Option.bind_some,
      ih tail (distinct.sublist (sublist.map key)), List.filter_filter]
    congr 1
    apply List.filter_congr
    intro row _
    by_cases here : group row = own
    · simp [here, absent]
    · have untouched : (rows.filter fun row =>
          !(decide (group row = own) && cut (rows.filter fun other => group other = own) row)).filter
          (fun other => decide (group other = group row)) = rows.filter fun other => decide (group other = group row) := by
        rw [List.filter_filter]
        apply List.filter_congr
        intro other _
        by_cases same : group other = group row
        · simp [same, here]
        · simp [same]
      simp only [here, untouched, List.mem_cons, false_or, decide_false, Bool.false_and, Bool.not_false, Bool.and_true]

end Groups

end Chunks
