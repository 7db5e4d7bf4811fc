import Mathlib.Data.List.Nodup
import Mathlib.Data.List.Perm.Subperm

namespace Ranks

variable {Row : Type*} (rank : Row → Nat)

/-- The ranks of some rows are 1 up to their number, each once. -/
def Ranked (rows : List Row) : Prop := (rows.map rank).Perm (List.range' 1 rows.length)

variable {rank} {rows : List Row}

theorem Ranked.nodup (ranked : Ranked rank rows) : (rows.map rank).Nodup := ranked.nodup_iff.mpr List.nodup_range'

theorem Ranked.mem (ranked : Ranked rank rows) {n : Nat} : n ∈ rows.map rank ↔ 1 ≤ n ∧ n ≤ rows.length := by
  rw [ranked.mem_iff, List.mem_range'_1]
  omega

theorem Ranked.perm (ranked : Ranked rank rows) {others : List Row} (same : rows.Perm others) : Ranked rank others := by
  have ranks := (same.map rank).symm.trans ranked
  rw [same.length_eq] at ranks
  exact ranks

/-- Distinct ranks that are closed downwards are ranks from 1 on. -/
theorem ranked_of_closed (distinct : (rows.map rank).Nodup) (positive : ∀ row ∈ rows, 1 ≤ rank row)
    (closed : ∀ row ∈ rows, ∀ n, 1 ≤ n → n ≤ rank row → n ∈ rows.map rank) : Ranked rank rows := by
  have bounded : rows.map rank ⊆ List.range' 1 rows.length := by
    intro n member
    obtain ⟨row, inside, rfl⟩ := List.mem_map.mp member
    have below : List.range' 1 (rank row) ⊆ rows.map rank := by
      intro m small
      rw [List.mem_range'_1] at small
      exact closed row inside m small.1 (by omega)
    have places : (List.range' 1 (rank row)).Nodup := List.nodup_range'
    have count := (places.subperm below).length_le
    rw [List.length_range', List.length_map] at count
    have first := positive row inside
    rw [List.mem_range'_1]
    omega
  have within := distinct.subperm bounded
  exact within.perm_of_length_le (by simp)

/-- Some of the rows keep being ranked when what is taken away are the last ranks. -/
theorem ranked_filter (ranked : Ranked rank rows) (keep : Row → Bool) :
    Ranked rank (rows.filter keep) ↔
      ∀ row ∈ rows, keep row = true → ∀ other ∈ rows, keep other = false → rank row < rank other := by
  have distinct := ranked.nodup
  constructor
  · intro left row member kept other outside dropped
    by_contra above
    have whole := ranked.mem.mp (List.mem_map_of_mem outside)
    have top := left.mem.mp (List.mem_map_of_mem (List.mem_filter.mpr ⟨member, kept⟩))
    obtain ⟨third, inside, same⟩ := List.mem_map.mp (left.mem.mpr ⟨whole.1, (by omega : rank other ≤ _)⟩)
    obtain ⟨there, taken⟩ := List.mem_filter.mp inside
    rw [List.inj_on_of_nodup_map distinct there outside same, dropped] at taken
    exact Bool.noConfusion taken
  · intro last
    apply ranked_of_closed
    · exact distinct.sublist (List.filter_sublist.map rank)
    · intro row member
      exact (ranked.mem.mp (List.mem_map_of_mem (List.mem_filter.mp member).1)).1
    · intro row member n positive below
      obtain ⟨there, kept⟩ := List.mem_filter.mp member
      have whole := ranked.mem.mp (List.mem_map_of_mem there)
      obtain ⟨other, inside, rfl⟩ := List.mem_map.mp (ranked.mem.mpr ⟨positive, Nat.le_trans below whole.2⟩)
      apply List.mem_map_of_mem
      apply List.mem_filter.mpr
      cases taken : keep other with
      | true => exact ⟨inside, rfl⟩
      | false =>
        have before := last row there kept other inside taken
        omega

/-- Ranks that are places in a list. -/
theorem ranked_idxOf [DecidableEq Row] (distinct : rows.Nodup) : Ranked (fun row => 1 + rows.idxOf row) rows := by
  have places : rows.map (fun row => 1 + rows.idxOf row) = List.range' 1 rows.length := by
    apply List.ext_getElem
    · simp
    · intro i _ _
      simp [distinct.idxOf_getElem]
  unfold Ranked
  rw [places]

end Ranks
