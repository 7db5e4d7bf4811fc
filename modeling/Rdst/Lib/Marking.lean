import Rdst.Lib.Regex

/-! Names that follow a mark. -/

namespace Regex

variable {α : Type*}

/-- How such a name is written: its mark, what bars it in front of the mark, its first character and those after it. -/
structure Marking (α : Type*) where
  mark : α → Bool
  barred : α → Bool
  first : α → Bool
  inside : α → Bool
  first_inside : ∀ x, first x = true → inside x = true
  mark_outside : ∀ x, inside x = true → mark x = false

namespace Marking

variable (m : Marking α)

/-- A name is spelled from the character on. -/
def Begins (before : Option α) (x : α) (rest : List α) : Prop :=
  m.mark x = true ∧ before.any m.barred = false ∧ rest.head?.any m.first = true

instance (before : Option α) (x : α) (rest : List α) : Decidable (m.Begins before x rest) :=
  inferInstanceAs (Decidable (_ ∧ _ ∧ _))

/-- The names that a text spells, with their marks, from left to right. -/
def spellings : Option α → List α → List (List α)
  | _, [] => []
  | before, x :: rest =>
    if m.Begins before x rest then (x :: rest.takeWhile m.inside) :: spellings (some x) rest else spellings (some x) rest

def pattern : Pattern α := .seq (.char m.mark) (.seq (.char m.first) (.star (.char m.inside)))

/-- Where no mark stands, no name begins. -/
theorem spellings_unmarked {run : List α} (unmarked : ∀ x ∈ run, m.mark x = false) (before : Option α) (after : List α) :
    m.spellings before (run ++ after) = m.spellings (run.getLast?.or before) after := by
  induction run generalizing before with
  | nil => rfl
  | cons x run ih =>
    have none_ : ¬ m.Begins before x (run ++ after) := by simp [Begins, unmarked x List.mem_cons_self]
    have later := ih (fun y member => unmarked y (List.mem_cons_of_mem _ member)) (some x)
    rw [List.cons_append, spellings, if_neg none_, later]
    cases run with
    | nil => rfl
    | cons y run => simp [List.getLast?_cons]

theorem spellings_head {before : Option α} {text token : List α} (member : token ∈ m.spellings before text) :
    ∃ x ∈ token.head?, m.mark x = true := by
  induction text generalizing before with
  | nil => cases member
  | cons x rest ih =>
    rw [spellings] at member
    split at member
    · rename_i begins
      rcases List.mem_cons.mp member with rfl | later
      · exact ⟨x, rfl, begins.1⟩
      · exact ih later
    · exact ih member

theorem spellings_begins {before : Option α} {x y : α} {run after : List α} (mark : m.mark x = true)
    (apart : before.any m.barred = false) (first : m.first y = true) (inner : ∀ z ∈ run, m.inside z = true)
    (stops : ∀ z ∈ after.head?, m.inside z = false) :
    m.spellings before (x :: (y :: run ++ after)) = (x :: y :: run) :: m.spellings ((y :: run).getLast?) after := by
  have begins : m.Begins before x (y :: run ++ after) := ⟨mark, apart, by simpa using first⟩
  have inside : ∀ z ∈ y :: run, m.inside z = true := by
    intro z member
    rcases List.mem_cons.mp member with rfl | later
    · exact m.first_inside z first
    · exact inner z later
  have taken : (y :: run ++ after).takeWhile m.inside = y :: run := by
    rw [List.takeWhile_append_of_pos inside]
    cases after with
    | nil => simp
    | cons z after => simp [stops z rfl]
  rw [spellings, if_pos begins, taken, m.spellings_unmarked fun z member => m.mark_outside z (inside z member)]
  simp [List.getLast?_cons]

theorem matchAt_pattern {x y : α} {run after : List α} (mark : m.mark x = true) (first : m.first y = true)
    (inner : ∀ z ∈ run, m.inside z = true) (stops : ∀ z ∈ after.head?, m.inside z = false) (before : List α) :
    matchAt m.pattern ⟨before, x :: (y :: run ++ after), []⟩ = some ⟨(y :: run).reverse ++ (x :: before), after, []⟩ := by
  obtain ⟨others, whole⟩ := successes_name first inner stops (x :: before) []
  have taken : successes m.pattern ⟨before, x :: (y :: run ++ after), []⟩ =
      ⟨(y :: run).reverse ++ (x :: before), after, []⟩ :: others := by
    rw [← whole, pattern, successes]
    simp [successes, mark, Cursor.next]
  have shorter : after.length < (x :: (y :: run ++ after)).length := by
    simp only [List.length_cons, List.length_append]
    omega
  unfold matchAt
  rw [taken]
  simp only [shorter, if_true]

/-- The pattern matches where a name begins, and takes it whole. -/
theorem match_pattern (before : List α) (x : α) (rest : List α) :
    matchNotAfter m.barred m.pattern ⟨before, x :: rest, []⟩ =
      if m.Begins before.head? x rest then
        some ⟨(rest.takeWhile m.inside).reverse ++ (x :: before), rest.dropWhile m.inside, []⟩
      else none := by
  by_cases begins : m.Begins before.head? x rest
  · have ⟨mark, apart, first⟩ := begins
    rw [if_pos begins, matchNotAfter, apart, if_neg (by simp)]
    cases rest with
    | nil => cases first
    | cons y more =>
      have starts : m.first y = true := by simpa using first
      have inside := m.first_inside y starts
      have stops : ∀ z ∈ (more.dropWhile m.inside).head?, m.inside z = false := by
        intro z head
        have drops := List.head?_dropWhile_not m.inside more
        rw [head] at drops
        exact drops
      have inner : ∀ z ∈ more.takeWhile m.inside, m.inside z = true := List.all_eq_true.mp List.all_takeWhile
      have whole := m.matchAt_pattern mark starts inner stops before
      rw [List.cons_append, List.takeWhile_append_dropWhile] at whole
      rw [whole, List.takeWhile_cons_of_pos inside, List.dropWhile_cons_of_pos inside]
  · rw [if_neg begins, Option.eq_none_iff_forall_ne_some]
    intro d found
    rw [matchNotAfter] at found
    split at found
    · cases found
    rename_i apart
    obtain ⟨e, ⟨z, others, text, mark, rfl⟩, e', ⟨y, more, text', first, rfl⟩, -⟩ := moves_of_matchAt found
    cases text
    have shape : rest = y :: more := text'
    exact begins ⟨mark, by simpa using apart, by simpa [shape] using first⟩

/-- The matches of the pattern are the names that the text spells. -/
theorem finditer_spellings (text : List α) :
    (finditer (matchNotAfter m.barred m.pattern) text).map (fun found => matched found.1 found.2) =
      m.spellings none text := by
  have run : ∀ fuel before rest, rest.length < fuel →
      (finditerFrom (matchNotAfter m.barred m.pattern) fuel ⟨before, rest, []⟩).map (fun found => matched found.1 found.2) =
        m.spellings before.head? rest := by
    intro fuel
    induction fuel with
    | zero => omega
    | succ fuel ih =>
      intro before rest enough
      cases rest with
      | nil =>
        have none_ : matchNotAfter m.barred m.pattern ⟨before, [], []⟩ = none := by
          simp [matchNotAfter, matchAt, pattern, successes]
        simp [finditerFrom, none_, spellings]
      | cons x rest =>
        rw [List.length_cons] at enough
        rw [finditerFrom, m.match_pattern, spellings]
        by_cases begins : m.Begins before.head? x rest
        · have inside : ∀ y ∈ rest.takeWhile m.inside, m.inside y = true := List.all_eq_true.mp List.all_takeWhile
          have shorter := (List.dropWhile_suffix (l := rest) m.inside).length_le
          have split := List.takeWhile_append_dropWhile (p := m.inside) (l := rest)
          have later := ih ((rest.takeWhile m.inside).reverse ++ (x :: before)) (rest.dropWhile m.inside) (by omega)
          have token : matched ⟨before, x :: rest, []⟩
              ⟨(rest.takeWhile m.inside).reverse ++ (x :: before), rest.dropWhile m.inside, []⟩ =
                x :: rest.takeWhile m.inside := by
            have whole := matched_append before ((rest.takeWhile m.inside).reverse ++ (x :: before))
              (x :: rest.takeWhile m.inside) (rest.dropWhile m.inside) [] []
            rwa [List.cons_append, split] at whole
          have after : m.spellings (some x) rest =
              m.spellings ((rest.takeWhile m.inside).reverse ++ (x :: before)).head? (rest.dropWhile m.inside) := by
            nth_rewrite 1 [← split]
            rw [m.spellings_unmarked fun y member => m.mark_outside y (inside y member)]
            simp [List.head?_append]
          rw [if_pos begins, if_pos begins]
          simp only [List.map_cons, token, later, after]
        · rw [if_neg begins, if_neg begins]
          exact ih (x :: before) rest (by omega)
  exact run _ [] text (Nat.lt_succ_self _)

end Marking

end Regex
