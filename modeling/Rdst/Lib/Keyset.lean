import Mathlib.Data.List.Sort

/-! Pages of ordered rows that go on from a row's key. -/

namespace Keyset

variable {α κ : Type*}

structure Strict (before : κ → κ → Prop) : Prop where
  irrefl : ∀ a, ¬ before a a
  trans : ∀ a b c, before a b → before b c → before a c
  connex : ∀ a b, before a b ∨ a = b ∨ before b a

variable (before : κ → κ → Prop) [DecidableRel before] (key : α → κ)

/-- `ORDER BY` a key. -/
def ordered (rows : List α) : List α := rows.insertionSort fun a b => ¬ before (key b) (key a)

/-- The rows after a key, all of them where there is none. -/
def after (cursor : Option κ) (rows : List α) : List α :=
  match cursor with
  | none => rows
  | some start => rows.filter fun row => before start (key row)

/-- A page, with the key to go on from where there are more rows. -/
def page (limit : Nat) (rows : List α) : List α × Option κ :=
  (rows.take limit, if limit < rows.length then (rows.take limit).getLast?.map key else none)

/-- Follow the keys from page to page; nothing where a page fails or the fuel is out. -/
def follow {γ : Type*} (next : Option γ → Option (List α × Option γ)) : Nat → Option γ → Option (List (List α))
  | 0, _ => none
  | fuel + 1, cursor =>
    match next cursor with
    | none => none
    | some (rows, none) => some [rows]
    | some (rows, some more) => (follow next fuel (some more)).map (rows :: ·)

variable {before key}

theorem ordered_perm (rows : List α) : (ordered before key rows).Perm rows := List.perm_insertionSort _ _

theorem ordered_sorted (strict : Strict before) {rows : List α} (distinct : (rows.map key).Nodup) :
    (ordered before key rows).Pairwise fun a b => before (key a) (key b) := by
  have weak : (ordered before key rows).Pairwise fun a b => ¬ before (key b) (key a) := by
    have total : Std.Total fun a b : α => ¬ before (key b) (key a) := by
      refine ⟨fun a b => ?_⟩
      by_cases first : before (key b) (key a)
      · right
        intro second
        exact strict.irrefl _ (strict.trans _ _ _ first second)
      · exact .inl first
    have trans : IsTrans α fun a b : α => ¬ before (key b) (key a) := by
      refine ⟨fun a b c first second third => ?_⟩
      rcases strict.connex (key b) (key a) with down | same | up
      · exact first down
      · exact second (same ▸ third)
      · exact second (strict.trans _ _ _ third up)
    exact List.pairwise_insertionSort _ rows
  have apart : (ordered before key rows).Pairwise fun a b => key a ≠ key b := by
    rw [← List.pairwise_map (R := (· ≠ ·))]
    exact ((ordered_perm rows).map key).nodup_iff.mpr distinct
  refine (weak.and apart).imp ?_
  rintro a b ⟨notAfter, differ⟩
  rcases strict.connex (key a) (key b) with up | same | down
  · exact up
  · exact absurd same differ
  · exact absurd down notAfter

omit [DecidableRel before] in
/-- There is one order of rows with distinct keys. -/
theorem sorted_unique (strict : Strict before) {rows rows' : List α}
    (first : rows.Pairwise fun a b => before (key a) (key b)) (second : rows'.Pairwise fun a b => before (key a) (key b))
    (perm : rows.Perm rows') : rows = rows' := by
  refine perm.eq_of_pairwise ?_ first second
  intro a b _ _ up down
  exact absurd (strict.trans _ _ _ up down) (strict.irrefl _)

theorem ordered_filter (strict : Strict before) {rows : List α} (distinct : (rows.map key).Nodup) (test : α → Bool) :
    ordered before key (rows.filter test) = (ordered before key rows).filter test := by
  have kept : ((rows.filter test).map key).Nodup := distinct.sublist (List.filter_sublist.map key)
  apply sorted_unique strict (ordered_sorted strict kept) ((ordered_sorted strict distinct).filter test)
  exact (ordered_perm _).trans ((ordered_perm rows).filter test).symm

theorem take_append_take (n : Nat) (first second : List α) :
    (first.take n ++ second.take n).take n = (first ++ second).take n := by
  rw [List.take_append, List.take_append, List.take_take, min_self, List.take_take, List.length_take]
  congr 2
  omega

/-- Two seeks, each cut short, are merged into the first rows of both. -/
theorem merge_seeks (strict : Strict before) {rows : List α} (distinct : (rows.map key).Nodup) (first second : α → Bool)
    (apart : ∀ a b, first a = true → second b = true → before (key a) (key b)) (n : Nat) :
    (ordered before key ((ordered before key (rows.filter second)).take n ++
      (ordered before key (rows.filter first)).take n)).take n =
        ((ordered before key rows).filter fun row => first row || second row).take n := by
  rw [ordered_filter strict distinct, ordered_filter strict distinct]
  have sorted := ordered_sorted strict distinct
  generalize ordered before key rows = all at sorted
  have joined : ∀ front back : List α, front.Sublist (all.filter first) → back.Sublist (all.filter second) →
      (front ++ back).Pairwise fun a b => before (key a) (key b) := by
    intro front back ofFirst ofSecond
    rw [List.pairwise_append]
    refine ⟨(sorted.filter first).sublist ofFirst, (sorted.filter second).sublist ofSecond, ?_⟩
    intro a inFront b inBack
    exact apart a b (List.mem_filter.mp (ofFirst.subset inFront)).2 (List.mem_filter.mp (ofSecond.subset inBack)).2
  have both : (all.filter fun row => first row || second row) = all.filter first ++ all.filter second := by
    refine sorted_unique strict (sorted.filter _) (joined _ _ (List.Sublist.refl _) (List.Sublist.refl _)) ?_
    have split := List.filter_append_perm first (all.filter fun row => first row || second row)
    rw [List.filter_filter, List.filter_filter] at split
    have rest : ∀ row ∈ all, (!first row && (first row || second row)) = second row := by
      intro row _
      cases met : first row with
      | false => simp
      | true =>
        cases also : second row with
        | false => rfl
        | true => exact absurd (apart row row met also) (strict.irrefl _)
    rw [List.filter_congr rest] at split
    have same : ∀ row ∈ all, (first row && (first row || second row)) = first row := by
      intro row _
      cases first row <;> simp
    rw [List.filter_congr same] at split
    exact split.symm
  have merged : ordered before key ((all.filter second).take n ++ (all.filter first).take n) =
      (all.filter first).take n ++ (all.filter second).take n := by
    have target := joined _ _ (List.take_sublist n (all.filter first)) (List.take_sublist n (all.filter second))
    have apartKeys : (((all.filter first).take n ++ (all.filter second).take n).map key).Nodup := by
      rw [List.Nodup, List.pairwise_map]
      refine target.imp ?_
      intro a b up same
      rw [same] at up
      exact strict.irrefl _ up
    have perm : ((all.filter second).take n ++ (all.filter first).take n).Perm
        ((all.filter first).take n ++ (all.filter second).take n) := List.perm_append_comm
    have source : (ordered before key ((all.filter second).take n ++ (all.filter first).take n)).Pairwise
        fun a b => before (key a) (key b) := ordered_sorted strict ((perm.map key).nodup_iff.mpr apartKeys)
    exact sorted_unique strict source target ((ordered_perm _).trans perm)
  rw [merged, take_append_take, both]

/-- Rows that go on from the last one of a page are the rows after it. -/
theorem after_last (strict : Strict before) {front back : List α} {last : α}
    (sorted : (front ++ last :: back).Pairwise fun a b => before (key a) (key b)) :
    (front ++ last :: back).filter (fun row => before (key last) (key row)) = back := by
  rw [List.pairwise_append, List.pairwise_cons] at sorted
  obtain ⟨-, ⟨later, -⟩, earlier⟩ := sorted
  have none_ : front.filter (fun row => before (key last) (key row)) = [] := by
    rw [List.filter_eq_nil_iff]
    intro row member
    rw [decide_eq_true_eq]
    intro up
    exact strict.irrefl _ (strict.trans _ _ _ up (earlier row member last List.mem_cons_self))
  have all : back.filter (fun row => before (key last) (key row)) = back := by
    rw [List.filter_eq_self]
    intro row member
    exact decide_eq_true (later row member)
  rw [List.filter_append, none_, List.nil_append, List.filter_cons, if_neg (by simpa using strict.irrefl (key last)), all]

/-- What is after a later key is found among what is after an earlier one. -/
theorem after_after (strict : Strict before) {start stop : κ} (up : before start stop) (rows : List α) :
    (rows.filter fun row => before start (key row)).filter (fun row => before stop (key row)) =
      rows.filter fun row => before stop (key row) := by
  rw [List.filter_filter]
  apply List.filter_congr
  intro row _
  rw [Bool.and_eq_left_iff_imp, decide_eq_true_eq, decide_eq_true_eq]
  exact strict.trans _ _ _ up

/-- From any key on, pages give every row after it once, in order. -/
theorem follow_from (strict : Strict before) {rows : List α} (sorted : rows.Pairwise fun a b => before (key a) (key b))
    {limit : Nat} (positive : 0 < limit) (fuel : Nat) (cursor : Option κ)
    (enough : (after before key cursor rows).length < fuel) :
    ∃ pages, follow (fun cursor => some (page key limit (after before key cursor rows))) fuel cursor = some pages ∧
      pages.flatten = after before key cursor rows ∧ ∀ page ∈ pages, page.length ≤ limit := by
  induction fuel generalizing cursor with
  | zero => omega
  | succ fuel ih =>
    have sortedRest : (after before key cursor rows).Pairwise fun a b => before (key a) (key b) := by
      cases cursor with
      | none => exact sorted
      | some start => exact sorted.filter _
    unfold follow
    simp only [page]
    by_cases more : limit < (after before key cursor rows).length
    · have short : ((after before key cursor rows).take limit).length = limit := by
        rw [List.length_take]
        omega
      obtain ⟨front, last, ends⟩ : ∃ front last, (after before key cursor rows).take limit = front ++ [last] := by
        rcases List.eq_nil_or_concat ((after before key cursor rows).take limit) with none_ | found
        · rw [none_] at short
          simp at short
          omega
        · simpa using found
      have split : front ++ last :: (after before key cursor rows).drop limit = after before key cursor rows := by
        conv_rhs => rw [← List.take_append_drop limit (after before key cursor rows), ends]
        simp
      have rest : after before key (some (key last)) rows = (after before key cursor rows).drop limit := by
        have filtered := after_last strict (split ▸ sortedRest)
        rw [split] at filtered
        cases cursor with
        | none => exact filtered
        | some start =>
          have up : before start (key last) := by
            have member : last ∈ after before key (some start) rows := split ▸ by simp
            simpa using (List.mem_filter.mp member).2
          rw [← filtered]
          exact (after_after strict up rows).symm
      obtain ⟨pages, found, flat, small⟩ := ih (some (key last)) (by
        rw [rest, List.length_drop]
        omega)
      refine ⟨(after before key cursor rows).take limit :: pages, ?_, ?_, ?_⟩
      · have key_last : ((after before key cursor rows).take limit).getLast?.map key = some (key last) := by
          rw [ends, List.getLast?_concat, Option.map_some]
        simp only [page] at found
        rw [if_pos more, key_last]
        simp only [found, Option.map_some]
      · rw [List.flatten_cons, flat, rest, List.take_append_drop]
      · intro page member
        rcases List.mem_cons.mp member with rfl | member
        · exact short.le
        · exact small page member
    · refine ⟨[(after before key cursor rows).take limit], ?_, ?_, ?_⟩
      · simp only [if_neg more]
      · rw [List.flatten_singleton, List.take_of_length_le (by omega)]
      · intro page member
        rw [List.mem_singleton.mp member, List.length_take]
        omega

/-- Every row comes once, in order, on pages of at most `limit` rows. -/
theorem follow_all (strict : Strict before) {rows : List α} (sorted : rows.Pairwise fun a b => before (key a) (key b))
    {limit : Nat} (positive : 0 < limit) :
    ∃ pages, follow (fun cursor => some (page key limit (after before key cursor rows))) (rows.length + 1) none =
      some pages ∧ pages.flatten = rows ∧ ∀ page ∈ pages, page.length ≤ limit :=
  follow_from strict sorted positive _ none (Nat.lt_succ_self _)

/-- Pages whose keys are written and read back in between. -/
theorem follow_written {γ : Type*} (write : κ → γ) (next : Option κ → List α × Option κ)
    {next' : Option γ → Option (List α × Option γ)}
    (same : ∀ cursor, next' (cursor.map write) = some ((next cursor).1, (next cursor).2.map write)) (fuel : Nat)
    (cursor : Option κ) : follow next' fuel (cursor.map write) = follow (fun cursor => some (next cursor)) fuel cursor := by
  induction fuel generalizing cursor with
  | zero => rfl
  | succ fuel ih =>
    unfold follow
    rw [same]
    obtain ⟨rows, more⟩ := next cursor
    cases more with
    | none => rfl
    | some start =>
      have rest := ih (some start)
      rw [Option.map_some] at rest
      simp only [Option.map_some, rest]

end Keyset
