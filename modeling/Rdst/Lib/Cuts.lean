import Rdst.Lib.Regex

/-! A text cut at the matches of an expression. -/

namespace Regex

variable {α β : Type*}

/-- The characters that stay, and the matches. -/
def cutFrom (found : Cursor α → Option (Cursor α)) : Nat → Cursor α → List (α ⊕ List α)
  | 0, _ => []
  | fuel + 1, c =>
    match found c with
    | some d => .inr (matched c d) :: cutFrom found fuel { d with groups := [] }
    | none =>
      match c.rest with
      | [] => []
      | x :: rest => .inl x :: cutFrom found fuel (c.next x rest)

def cut (found : Cursor α → Option (Cursor α)) (text : List α) : List (α ⊕ List α) :=
  cutFrom found (text.length + 1) (start text)

def uncut (pieces : List (α ⊕ List α)) : List α := pieces.flatMap (Sum.elim (fun x => [x]) id)

/-- A match takes a part of what is in front of it. -/
def Takes (found : Cursor α → Option (Cursor α)) : Prop :=
  ∀ c d, found c = some d → ∃ word, word ≠ [] ∧ c.rest = word ++ d.rest ∧ d.before = word.reverse ++ c.before

theorem matched_word {c d : Cursor α} {word : List α} (text : c.rest = word ++ d.rest) : matched c d = word := by
  rw [matched, text, List.length_append, Nat.add_sub_cancel, List.take_left]

theorem takes_matchAt (p : Pattern α) : Takes (matchAt p) := by
  intro c d found
  obtain ⟨word, text, passed⟩ := (moves_of_matchAt found).splits
  refine ⟨word, ?_, text, passed⟩
  rintro rfl
  unfold matchAt at found
  split at found
  · cases found
  · split at found
    · rename_i shorter
      rw [Option.some.inj found, text] at shorter
      simp at shorter
    · cases found

theorem Takes.guarded {found : Cursor α → Option (Cursor α)} (takes : Takes found) (bars : Cursor α → Prop) [DecidablePred bars] :
    Takes fun c => if bars c then none else found c := by
  intro c d hit
  by_cases barred : bars c
  · simp only [if_pos barred] at hit
    cases hit
  · simp only [if_neg barred] at hit
    exact takes c d hit

theorem uncut_cut {found : Cursor α → Option (Cursor α)} (takes : Takes found) (text : List α) : uncut (cut found text) = text := by
  have all : ∀ fuel c, c.rest.length < fuel → uncut (cutFrom found fuel c) = c.rest := by
    intro fuel
    induction fuel with
    | zero => omega
    | succ fuel ih =>
      intro c enough
      unfold cutFrom
      cases hit : found c with
      | some d =>
        obtain ⟨word, some_, text, -⟩ := takes c d hit
        have shorter : d.rest.length < c.rest.length := by
          rw [text, List.length_append]
          have := List.length_pos_of_ne_nil some_
          omega
        have later := ih { d with groups := [] } (by simp only; omega)
        rw [show uncut (Sum.inr (matched c d) :: cutFrom found fuel { d with groups := [] }) =
          matched c d ++ uncut (cutFrom found fuel { d with groups := [] }) from rfl, later, matched_word text, text]
      | none =>
        cases rest : c.rest with
        | nil => rfl
        | cons x rest' =>
          rw [rest] at enough
          have later := ih (c.next x rest') (by simpa [Cursor.next] using enough)
          exact congrArg (x :: ·) later
  exact all _ (start text) (Nat.lt_succ_self _)

/-- Replacing the matches is replacing what is cut out. -/
theorem sub_cut (p : Pattern α) (replace : List α → List α) (text : List α) :
    sub p replace text = (cut (matchAt p) text).flatMap (Sum.elim (fun x => [x]) replace) := by
  have all : ∀ fuel c, subFrom p replace fuel c =
      (cutFrom (matchAt p) fuel c).flatMap (Sum.elim (fun x => [x]) replace) := by
    intro fuel
    induction fuel with
    | zero => exact fun _ => rfl
    | succ fuel ih =>
      intro c
      rw [subFrom, cutFrom]
      cases matchAt p c with
      | some d => exact congrArg (replace (matched c d) ++ ·) (ih { d with groups := [] })
      | none =>
        cases c.rest with
        | nil => rfl
        | cons x rest => exact congrArg (x :: ·) (ih (c.next x rest))
  exact all _ _

/-- What is cut out was found. -/
theorem mem_cut {found : Cursor α → Option (Cursor α)} {text word : List α} (inside : Sum.inr word ∈ cut found text) :
    ∃ c d, found c = some d ∧ matched c d = word := by
  have all : ∀ fuel c, Sum.inr word ∈ cutFrom found fuel c → ∃ c d, found c = some d ∧ matched c d = word := by
    intro fuel
    induction fuel with
    | zero =>
      intro c member
      cases member
    | succ fuel ih =>
      intro c member
      unfold cutFrom at member
      split at member
      · rename_i d hit
        rcases List.mem_cons.mp member with here | later
        · exact ⟨c, d, hit, (Sum.inr.inj here).symm⟩
        · exact ih _ later
      · split at member
        · cases member
        · rcases List.mem_cons.mp member with here | later
          · cases here
          · exact ih _ later
  exact all _ _ inside

section Letters

/-- The expression over letters that stand for others. -/
def Pattern.comap (f : α → β) : Pattern β → Pattern α
  | .empty => .empty
  | .char accepts => .char (accepts ∘ f)
  | .seq first second => .seq (first.comap f) (second.comap f)
  | .alt first second => .alt (first.comap f) (second.comap f)
  | .star body => .star (body.comap f)
  | .lazyStar body => .lazyStar (body.comap f)
  | .boundary isWord => .boundary (isWord ∘ f)
  | .ahead body => .ahead (body.comap f)
  | .notAhead body => .notAhead (body.comap f)
  | .group number body => .group number (body.comap f)

def Cursor.map (f : α → β) (c : Cursor α) : Cursor β := ⟨c.before.map f, c.rest.map f, c.groups⟩

variable (f : α → β)

theorem rest_map (c : Cursor α) : (c.map f).rest.length = c.rest.length := List.length_map _

theorem greedy_map {body : Cursor α → List (Cursor α)} {body' : Cursor β → List (Cursor β)}
    (same : ∀ c, (body c).map (Cursor.map f) = body' (c.map f)) (fuel : Nat) (c : Cursor α) :
    (greedy body fuel c).map (Cursor.map f) = greedy body' fuel (c.map f) := by
  induction fuel generalizing c with
  | zero => rfl
  | succ fuel ih =>
    rw [greedy, greedy, List.map_append, ← same, List.flatMap_map, List.map_flatMap]
    congr 1
    refine List.flatMap_congr fun d _ => ?_
    rw [rest_map, rest_map]
    split
    · exact ih d
    · rfl

theorem reluctant_map {body : Cursor α → List (Cursor α)} {body' : Cursor β → List (Cursor β)}
    (same : ∀ c, (body c).map (Cursor.map f) = body' (c.map f)) (fuel : Nat) (c : Cursor α) :
    (reluctant body fuel c).map (Cursor.map f) = reluctant body' fuel (c.map f) := by
  induction fuel generalizing c with
  | zero => rfl
  | succ fuel ih =>
    rw [reluctant, reluctant, List.map_cons, ← same, List.flatMap_map, List.map_flatMap]
    congr 1
    refine List.flatMap_congr fun d _ => ?_
    rw [rest_map, rest_map]
    split
    · exact ih d
    · rfl

theorem boundary_map (isWord : β → Bool) (c : Cursor α) : atBoundary (isWord ∘ f) c = atBoundary isWord (c.map f) := by
  obtain ⟨before, rest, groups⟩ := c
  cases before <;> cases rest <;> rfl

/-- What an expression sees of a letter is what it stands for. -/
theorem successes_comap (p : Pattern β) (c : Cursor α) :
    (successes (p.comap f) c).map (Cursor.map f) = successes p (c.map f) := by
  induction p generalizing c with
  | empty => rfl
  | char accepts =>
    obtain ⟨before, rest, groups⟩ := c
    cases rest with
    | nil => rfl
    | cons x rest => by_cases accepted : accepts (f x) = true <;> simp [Pattern.comap, successes, Cursor.map, Cursor.next, accepted]
  | seq first second ih ih' =>
    rw [Pattern.comap, successes, successes, ← ih, List.flatMap_map, List.map_flatMap]
    exact List.flatMap_congr fun d _ => ih' d
  | alt first second ih ih' => rw [Pattern.comap, successes, successes, List.map_append, ih, ih']
  | star body ih =>
    rw [Pattern.comap, successes, successes, rest_map]
    exact greedy_map f ih _ c
  | lazyStar body ih =>
    rw [Pattern.comap, successes, successes, rest_map]
    exact reluctant_map f ih _ c
  | boundary isWord =>
    rw [Pattern.comap, successes, successes, boundary_map]
    split <;> rfl
  | ahead body ih =>
    rw [Pattern.comap, successes, successes, ← ih, List.isEmpty_map]
    split <;> rfl
  | notAhead body ih =>
    rw [Pattern.comap, successes, successes, ← ih, List.isEmpty_map]
    split <;> rfl
  | group number body ih =>
    rw [Pattern.comap, successes, successes, ← ih, List.map_map, List.map_map]
    refine List.map_congr_left fun d _ => ?_
    simp [Cursor.map, Cursor.offset]

theorem matchAt_comap (p : Pattern β) (c : Cursor α) : (matchAt (p.comap f) c).map (Cursor.map f) = matchAt p (c.map f) := by
  unfold matchAt
  rw [← successes_comap]
  cases successes (p.comap f) c with
  | nil => rfl
  | cons d others =>
    simp only [List.map_cons, rest_map]
    split <;> rfl

theorem cutFrom_map {found : Cursor α → Option (Cursor α)} {found' : Cursor β → Option (Cursor β)}
    (same : ∀ c, (found c).map (Cursor.map f) = found' (c.map f)) (fuel : Nat) (c : Cursor α) :
    (cutFrom found fuel c).map (Sum.map f (List.map f)) = cutFrom found' fuel (c.map f) := by
  induction fuel generalizing c with
  | zero => rfl
  | succ fuel ih =>
    unfold cutFrom
    rw [← same]
    cases found c with
    | some d =>
      have word : (matched c d).map f = matched (c.map f) (d.map f) := by
        simp [matched, Cursor.map, List.map_take]
      simp only [Option.map_some, List.map_cons, Sum.map_inr, word, ih]
      rfl
    | none =>
      obtain ⟨before, rest, groups⟩ := c
      cases rest with
      | nil => rfl
      | cons x rest => exact congrArg (Sum.inl (f x) :: ·) (ih _)

theorem cut_map {found : Cursor α → Option (Cursor α)} {found' : Cursor β → Option (Cursor β)}
    (same : ∀ c, (found c).map (Cursor.map f) = found' (c.map f)) (text : List α) :
    (cut found text).map (Sum.map f (List.map f)) = cut found' (text.map f) := by
  rw [cut, cut, List.length_map]
  exact cutFrom_map f same _ (start text)

end Letters

end Regex
