import Mathlib.Data.List.Sort

/-! The first few of a list in a total order: what `ORDER BY ... LIMIT n` reads. -/

namespace Front

variable {α : Type*} (before : α → α → Prop) [DecidableRel before]

def front (n : Nat) (rows : List α) : List α := (rows.insertionSort before).take n

variable {before} {n : Nat} {rows : List α}

theorem mem_of_front {x : α} (member : x ∈ front before n rows) : x ∈ rows :=
  List.mem_insertionSort before |>.mp (List.mem_of_mem_take member)

theorem length_front (n : Nat) (rows : List α) : (front before n rows).length = min n rows.length := by
  rw [front, List.length_take, List.length_insertionSort]

section Total

variable [Std.Total before] [IsTrans α before]

/-- A row that is left out comes after `n` others. -/
theorem left_out {x : α} (member : x ∈ rows) (out : x ∉ front before n rows) :
    (front before n rows).length = n ∧ ∀ y ∈ front before n rows, before y x := by
  have parts := List.take_append_drop n (rows.insertionSort before)
  have sorted := List.pairwise_insertionSort before rows
  rw [← parts, List.pairwise_append] at sorted
  have rest : x ∈ (rows.insertionSort before).drop n := by
    have whole := List.mem_insertionSort before |>.mpr member
    rw [← parts] at whole
    exact (List.mem_append.mp whole).resolve_left out
  constructor
  · have some_ := List.length_pos_of_mem rest
    rw [List.length_drop] at some_
    rw [length_front, ← List.length_insertionSort before rows]
    omega
  · exact fun y inside => sorted.2.2 y inside x rest

end Total

end Front
