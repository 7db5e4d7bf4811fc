import Mathlib.Logic.Relation
import Mathlib.Data.List.Basic

namespace Regex

set_option linter.unusedSectionVars false

variable {α : Type*}

/-- A place in a text: what stands before it, nearest first, and the rest. A group is recorded with its
    number and its two offsets, the latest first. -/
structure Cursor (α : Type*) where
  before : List α
  rest : List α
  groups : List (Nat × Nat × Nat)

inductive Pattern (α : Type*)
  | empty
  | char (accepts : α → Bool)
  | seq (first second : Pattern α)
  | alt (first second : Pattern α)
  | star (body : Pattern α)
  | lazyStar (body : Pattern α)
  | boundary (isWord : α → Bool)
  | ahead (body : Pattern α)
  | notAhead (body : Pattern α)
  | group (number : Nat) (body : Pattern α)

def Cursor.offset (c : Cursor α) : Nat := c.before.length

/-- Where a group stands in the text. -/
def Cursor.span (c : Cursor α) (number : Nat) : Option (Nat × Nat) :=
  (c.groups.find? fun g => g.1 = number).map Prod.snd

def Cursor.next (c : Cursor α) (x : α) (rest : List α) : Cursor α := { c with before := x :: c.before, rest := rest }

def atBoundary (isWord : α → Bool) (c : Cursor α) : Bool :=
  (c.before.head?.any isWord) != (c.rest.head?.any isWord)

/-- Repeat as often as it goes, then give one round back after another; a round that consumes nothing
    is not repeated. -/
def greedy (body : Cursor α → List (Cursor α)) : Nat → Cursor α → List (Cursor α)
  | 0, c => [c]
  | fuel + 1, c =>
    (body c).flatMap (fun d => if d.rest.length < c.rest.length then greedy body fuel d else []) ++ [c]

def reluctant (body : Cursor α → List (Cursor α)) : Nat → Cursor α → List (Cursor α)
  | 0, c => [c]
  | fuel + 1, c =>
    c :: (body c).flatMap (fun d => if d.rest.length < c.rest.length then reluctant body fuel d else [])

/-- The places where a match that begins at the cursor may end, in the order of backtracking. -/
def successes : Pattern α → Cursor α → List (Cursor α)
  | .empty, c => [c]
  | .char accepts, c =>
    match c.rest with
    | [] => []
    | x :: rest => if accepts x then [c.next x rest] else []
  | .seq first second, c => (successes first c).flatMap (successes second)
  | .alt first second, c => successes first c ++ successes second c
  | .star body, c => greedy (successes body) c.rest.length c
  | .lazyStar body, c => reluctant (successes body) c.rest.length c
  | .boundary isWord, c => if atBoundary isWord c then [c] else []
  | .ahead body, c => if (successes body c).isEmpty then [] else [c]
  | .notAhead body, c => if (successes body c).isEmpty then [c] else []
  | .group number body, c =>
    (successes body c).map fun d => { d with groups := (number, c.offset, d.offset) :: d.groups }

def optional (body : Pattern α) : Pattern α := .alt body .empty

def plus (body : Pattern α) : Pattern α := .seq body (.star body)

def sequence (parts : List (Pattern α)) : Pattern α := parts.foldr .seq .empty

def choice : List (Pattern α) → Pattern α
  | [] => .notAhead .empty
  | [last] => last
  | first :: rest => .alt first (choice rest)

def times (count : Nat) (body : Pattern α) : Pattern α := sequence (List.replicate count body)

def literal [DecidableEq α] (word : List α) : Pattern α :=
  sequence (word.map fun x => .char fun y => decide (y = x))

/-- The match that begins at the cursor. An empty match counts as none. -/
def matchAt (p : Pattern α) (c : Cursor α) : Option (Cursor α) :=
  match successes p c with
  | [] => none
  | d :: _ => if d.rest.length < c.rest.length then some d else none

def start (text : List α) : Cursor α := ⟨[], text, []⟩

def searchFrom (p : Pattern α) : Nat → Cursor α → Option (Cursor α × Cursor α)
  | 0, _ => none
  | fuel + 1, c =>
    match matchAt p c with
    | some d => some (c, d)
    | none =>
      match c.rest with
      | [] => none
      | x :: rest => searchFrom p fuel (c.next x rest)

/-- The leftmost match: where it begins and where it ends. -/
def search (p : Pattern α) (text : List α) : Option (Cursor α × Cursor α) :=
  searchFrom p (text.length + 1) (start text)

def matched (c d : Cursor α) : List α := c.rest.take (c.rest.length - d.rest.length)

theorem matched_append (before after taken rest : List α) (groups groups' : List (Nat × Nat × Nat)) :
    matched ⟨before, taken ++ rest, groups⟩ ⟨after, rest, groups'⟩ = taken := by
  show (taken ++ rest).take ((taken ++ rest).length - rest.length) = taken
  rw [List.length_append, Nat.add_sub_cancel, List.take_left]

def findallFrom (p : Pattern α) : Nat → Cursor α → List (List α)
  | 0, _ => []
  | fuel + 1, c =>
    match matchAt p c with
    | some d => matched c d :: findallFrom p fuel { d with groups := [] }
    | none =>
      match c.rest with
      | [] => []
      | x :: rest => findallFrom p fuel (c.next x rest)

/-- Where the matches begin and end, from left to right, none overlapping the one before. -/
def finditerFrom (found : Cursor α → Option (Cursor α)) : Nat → Cursor α → List (Cursor α × Cursor α)
  | 0, _ => []
  | fuel + 1, c =>
    match found c with
    | some d => (c, d) :: finditerFrom found fuel { d with groups := [] }
    | none =>
      match c.rest with
      | [] => []
      | x :: rest => finditerFrom found fuel (c.next x rest)

def finditer (found : Cursor α → Option (Cursor α)) (text : List α) : List (Cursor α × Cursor α) :=
  finditerFrom found (text.length + 1) (start text)

/-- A match that begins after none of the barred characters. -/
def matchNotAfter (barred : α → Bool) (p : Pattern α) (c : Cursor α) : Option (Cursor α) :=
  if c.before.head?.any barred = true then none else matchAt p c

/-- The texts of the matches from left to right, none overlapping the one before. -/
def findall (p : Pattern α) (text : List α) : List (List α) := findallFrom p (text.length + 1) (start text)

def subFrom (p : Pattern α) (replace : List α → List α) : Nat → Cursor α → List α
  | 0, _ => []
  | fuel + 1, c =>
    match matchAt p c with
    | some d => replace (matched c d) ++ subFrom p replace fuel { d with groups := [] }
    | none =>
      match c.rest with
      | [] => []
      | x :: rest => x :: subFrom p replace fuel (c.next x rest)

def sub (p : Pattern α) (replace : List α → List α) (text : List α) : List α :=
  subFrom p replace (text.length + 1) (start text)

/-- What a pattern can consume, without the order of the attempts. -/
def Moves : Pattern α → Cursor α → Cursor α → Prop
  | .empty, c, d => d = c
  | .char accepts, c, d => ∃ x rest, c.rest = x :: rest ∧ accepts x = true ∧ d = c.next x rest
  | .seq first second, c, d => ∃ e, Moves first c e ∧ Moves second e d
  | .alt first second, c, d => Moves first c d ∨ Moves second c d
  | .star body, c, d | .lazyStar body, c, d =>
    Relation.ReflTransGen (fun a b => Moves body a b ∧ b.rest.length < a.rest.length) c d
  | .boundary isWord, c, d => atBoundary isWord c = true ∧ d = c
  | .ahead body, c, d => (∃ e, Moves body c e) ∧ d = c
  | .notAhead body, c, d => (¬ ∃ e, Moves body c e) ∧ d = c
  | .group number body, c, d =>
    ∃ e, Moves body c e ∧ d = { e with groups := (number, c.offset, e.offset) :: e.groups }

section Backtracking

variable {body : Cursor α → List (Cursor α)} {moves : Cursor α → Cursor α → Prop}

theorem mem_greedy (sound : ∀ c d, d ∈ body c ↔ moves c d) {fuel : Nat} {c d : Cursor α}
    (enough : c.rest.length ≤ fuel) : d ∈ greedy body fuel c ↔
      Relation.ReflTransGen (fun a b => moves a b ∧ b.rest.length < a.rest.length) c d := by
  induction fuel generalizing c with
  | zero =>
    rw [greedy, List.mem_singleton]
    constructor
    · rintro rfl
      exact .refl
    · intro path
      cases path.cases_head with
      | inl same => exact same.symm
      | inr first =>
        obtain ⟨e, ⟨-, shorter⟩, -⟩ := first
        omega
  | succ fuel ih =>
    simp only [greedy, List.mem_append, List.mem_flatMap, List.mem_singleton]
    constructor
    · rintro (⟨e, inside, later⟩ | rfl)
      · by_cases shorter : e.rest.length < c.rest.length
        · rw [if_pos shorter] at later
          exact .head ⟨(sound c e).mp inside, shorter⟩ ((ih (by omega)).mp later)
        · rw [if_neg shorter] at later
          cases later
      · exact .refl
    · intro path
      rcases path.cases_head with same | ⟨e, ⟨step, shorter⟩, rest⟩
      · exact .inr same.symm
      · refine .inl ⟨e, (sound c e).mpr step, ?_⟩
        rw [if_pos shorter]
        exact (ih (by omega)).mpr rest

theorem mem_reluctant (fuel : Nat) (c d : Cursor α) : d ∈ reluctant body fuel c ↔ d ∈ greedy body fuel c := by
  induction fuel generalizing c with
  | zero => rfl
  | succ fuel ih =>
    simp only [greedy, reluctant, List.mem_cons, List.mem_append, List.mem_flatMap, List.not_mem_nil, or_false]
    rw [or_comm]
    refine or_congr_left (exists_congr fun e => and_congr_right fun _ => ?_)
    split
    · exact ih e
    · rfl

end Backtracking

/-- Backtracking tries everything that the pattern can consume. -/
theorem mem_successes {p : Pattern α} {c d : Cursor α} : d ∈ successes p c ↔ Moves p c d := by
  induction p generalizing c d with
  | empty => exact List.mem_singleton
  | char accepts =>
    rw [successes, Moves]
    cases text : c.rest with
    | nil => simp
    | cons x rest =>
      by_cases accepted : accepts x = true
      · simp [accepted]
      · simp [accepted]
  | seq first second ih ih' => simp only [successes, Moves, List.mem_flatMap, ih, ih']
  | alt first second ih ih' => simp only [successes, Moves, List.mem_append, ih, ih']
  | star body ih => exact mem_greedy (fun _ _ => ih) (Nat.le_refl _)
  | lazyStar body ih =>
    rw [successes, mem_reluctant]
    exact mem_greedy (fun _ _ => ih) (Nat.le_refl _)
  | boundary isWord =>
    rw [successes, Moves]
    split <;> simp [*]
  | ahead body ih =>
    rw [successes, Moves]
    cases found : successes body c with
    | nil =>
      have none_moves : ¬ ∃ e, Moves body c e := by
        rintro ⟨e, moves⟩
        rw [← ih, found] at moves
        cases moves
      simp [none_moves]
    | cons e rest =>
      have some_move : ∃ e, Moves body c e := ⟨e, ih.mp (by rw [found]; exact List.mem_cons_self)⟩
      simp [some_move]
  | notAhead body ih =>
    rw [successes, Moves]
    cases found : successes body c with
    | nil =>
      have none_moves : ¬ ∃ e, Moves body c e := by
        rintro ⟨e, moves⟩
        rw [← ih, found] at moves
        cases moves
      simp [none_moves]
    | cons e rest =>
      have some_move : ∃ e, Moves body c e := ⟨e, ih.mp (by rw [found]; exact List.mem_cons_self)⟩
      simp [some_move]
  | group number body ih =>
    rw [successes, Moves, List.mem_map]
    refine exists_congr fun e => ?_
    rw [ih]
    exact and_congr_right fun _ => eq_comm

/-- A match stays in its text: what it consumes lies between its two ends. -/
theorem Moves.splits {p : Pattern α} {c d : Cursor α} (moves : Moves p c d) :
    ∃ word, c.rest = word ++ d.rest ∧ d.before = word.reverse ++ c.before := by
  induction p generalizing c d with
  | empty => exact ⟨[], by rw [show d = c from moves]; simp⟩
  | char accepts =>
    obtain ⟨x, rest, text, -, rfl⟩ := moves
    exact ⟨[x], text, rfl⟩
  | seq first second ih ih' =>
    obtain ⟨e, one, two⟩ := moves
    obtain ⟨u, text, passed⟩ := ih one
    obtain ⟨v, text', passed'⟩ := ih' two
    exact ⟨u ++ v, by rw [text, text', List.append_assoc], by rw [passed', passed]; simp⟩
  | alt first second ih ih' => exact moves.elim ih ih'
  | star body ih | lazyStar body ih =>
    have path : Relation.ReflTransGen (fun a b => Moves body a b ∧ b.rest.length < a.rest.length) c d := moves
    induction path with
    | refl => exact ⟨[], by simp⟩
    | tail _ step done =>
      obtain ⟨u, text, passed⟩ := done ‹_›
      obtain ⟨v, text', passed'⟩ := ih step.1
      exact ⟨u ++ v, by rw [text, text', List.append_assoc], by rw [passed', passed]; simp⟩
  | boundary isWord => exact ⟨[], by rw [show d = c from moves.2]; simp⟩
  | ahead body => exact ⟨[], by rw [show d = c from moves.2]; simp⟩
  | notAhead body => exact ⟨[], by rw [show d = c from moves.2]; simp⟩
  | group number body ih =>
    obtain ⟨e, inner, rfl⟩ := moves
    obtain ⟨word, text, passed⟩ := ih inner
    exact ⟨word, text, passed⟩

section Shapes

variable {c d : Cursor α}

theorem moves_chars {accepts : α → Bool} : Moves (.star (.char accepts)) c d ↔
    ∃ word, c.rest = word ++ d.rest ∧ (∀ x ∈ word, accepts x = true) ∧
      d = ⟨word.reverse ++ c.before, d.rest, c.groups⟩ := by
  constructor
  · intro path
    have steps : Relation.ReflTransGen
        (fun a b => Moves (.char accepts) a b ∧ b.rest.length < a.rest.length) c d := path
    induction steps with
    | refl => exact ⟨[], by simp, by simp, rfl⟩
    | tail _ step done =>
      obtain ⟨word, text, accepted, same⟩ := done ‹_›
      obtain ⟨⟨x, rest, here, fits, rfl⟩, -⟩ := step
      refine ⟨word ++ [x], ?_, ?_, ?_⟩
      · rw [text, here]
        simp [Cursor.next]
      · intro y inside
        rcases List.mem_append.mp inside with early | last
        · exact accepted y early
        · rw [List.mem_singleton.mp last]
          exact fits
      · rw [same]
        simp [Cursor.next]
  · rintro ⟨word, text, accepted, same⟩
    rw [same]
    clear same
    obtain ⟨before, rest, groups⟩ := c
    simp only at text ⊢
    subst text
    show Relation.ReflTransGen _ _ _
    induction word generalizing before with
    | nil => exact .refl
    | cons x xs ih =>
      refine .head ⟨⟨x, xs ++ d.rest, rfl, accepted x (by simp), rfl⟩, by simp [Cursor.next]⟩ ?_
      have later := ih (fun y inside => accepted y (List.mem_cons_of_mem _ inside)) (x :: before)
      simpa [Cursor.next] using later

theorem moves_literal [DecidableEq α] {word : List α} : Moves (literal word) c d ↔
    c.rest = word ++ d.rest ∧ d = ⟨word.reverse ++ c.before, d.rest, c.groups⟩ := by
  induction word generalizing c with
  | nil =>
    show d = c ↔ _
    constructor
    · rintro rfl
      simp
    · rintro ⟨text, same⟩
      rw [same]
      obtain ⟨before, rest, groups⟩ := c
      simp only [List.nil_append] at text
      simp [text]
  | cons x xs ih =>
    show (∃ e, Moves (.char fun y => decide (y = x)) c e ∧ Moves (literal xs) e d) ↔ _
    constructor
    · rintro ⟨e, ⟨y, rest, here, fits, rfl⟩, later⟩
      obtain ⟨text, same⟩ := ih.mp later
      rw [decide_eq_true_eq] at fits
      refine ⟨?_, ?_⟩
      · rw [here, fits]
        simpa [Cursor.next] using text
      · rw [same]
        simp [Cursor.next, fits]
    · rintro ⟨text, same⟩
      refine ⟨c.next x (xs ++ d.rest), ⟨x, xs ++ d.rest, text, by simp, rfl⟩, ih.mpr ⟨rfl, ?_⟩⟩
      rw [same]
      simp [Cursor.next]

end Shapes

/-- A greedy run over one class of characters takes all of them first. -/
theorem successes_chars {accepts : α → Bool} {word after : List α} (accepted : ∀ x ∈ word, accepts x = true)
    (stops : ∀ x ∈ after.head?, accepts x = false) (before : List α) (groups : List (Nat × Nat × Nat)) :
    ∃ others, successes (.star (.char accepts)) ⟨before, word ++ after, groups⟩ =
      ⟨word.reverse ++ before, after, groups⟩ :: others := by
  have run : ∀ fuel, (word ++ after).length ≤ fuel → ∃ others,
      greedy (successes (.char accepts)) fuel ⟨before, word ++ after, groups⟩ =
        ⟨word.reverse ++ before, after, groups⟩ :: others := by
    induction word generalizing before with
    | nil =>
      intro fuel _
      cases fuel with
      | zero => exact ⟨[], rfl⟩
      | succ fuel =>
        refine ⟨[], ?_⟩
        cases after with
        | nil => rfl
        | cons x rest => simp [greedy, successes, stops x (by simp)]
    | cons x xs ih =>
      intro fuel enough
      cases fuel with
      | zero => simp at enough
      | succ fuel =>
        have fits : accepts x = true := accepted x (by simp)
        obtain ⟨others, later⟩ := ih (fun y inside => accepted y (List.mem_cons_of_mem _ inside)) (x :: before) fuel
          (by simpa using enough)
        have one : successes (.char accepts) ⟨before, x :: (xs ++ after), groups⟩ =
            [⟨x :: before, xs ++ after, groups⟩] := by
          simp [successes, fits, Cursor.next]
        refine ⟨others ++ [⟨before, x :: xs ++ after, groups⟩], ?_⟩
        rw [List.cons_append, greedy, one, List.flatMap_cons, List.flatMap_nil, List.append_nil, if_pos (by simp),
          later]
        simp
  exact run _ (Nat.le_refl _)

section Searching

variable {p : Pattern α}

/-- Every match takes something. -/
def Consumes (p : Pattern α) : Prop := ∀ c d, Moves p c d → d.rest.length < c.rest.length

theorem Moves.length_le {c d : Cursor α} (moves : Moves p c d) : d.rest.length ≤ c.rest.length := by
  obtain ⟨word, text, -⟩ := moves.splits
  rw [text, List.length_append]
  omega

theorem Consumes.before {q : Pattern α} (consumes : Consumes p) : Consumes (.seq p q) := by
  rintro c d ⟨e, first, second⟩
  have := consumes c e first
  have := second.length_le
  omega

theorem Consumes.after {q : Pattern α} (consumes : Consumes q) : Consumes (.seq p q) := by
  rintro c d ⟨e, first, second⟩
  have := first.length_le
  have := consumes e d second
  omega

theorem Consumes.either {q : Pattern α} (first : Consumes p) (second : Consumes q) : Consumes (.alt p q) := by
  rintro c d (moves | moves)
  · exact first c d moves
  · exact second c d moves

theorem consumes_char (accepts : α → Bool) : Consumes (.char accepts) := by
  rintro c d ⟨x, rest, text, -, rfl⟩
  simp [Cursor.next, text]

theorem matchAt_of_moves {c d : Cursor α} (consumes : Consumes p) (moves : Moves p c d) :
    ∃ e, matchAt p c = some e := by
  unfold matchAt
  have inside := mem_successes.mpr moves
  cases found : successes p c with
  | nil =>
    rw [found] at inside
    cases inside
  | cons e rest =>
    have shorter := consumes c e (mem_successes.mp (by rw [found]; exact List.mem_cons_self))
    exact ⟨e, if_pos shorter⟩

theorem moves_of_matchAt {c d : Cursor α} (found : matchAt p c = some d) : Moves p c d := by
  unfold matchAt at found
  cases run : successes p c with
  | nil =>
    rw [run] at found
    cases found
  | cons e others =>
    rw [run] at found
    have moves : Moves p c e := mem_successes.mp (by rw [run]; exact List.mem_cons_self)
    by_cases shorter : e.rest.length < c.rest.length
    · simp only [if_pos shorter, Option.some.injEq] at found
      exact found ▸ moves
    · simp [if_neg shorter] at found

theorem searchFrom_moves {fuel : Nat} {s c d : Cursor α} (found : searchFrom p fuel s = some (c, d)) :
    Moves p c d ∧ c.before.reverse ++ c.rest = s.before.reverse ++ s.rest := by
  induction fuel generalizing s with
  | zero => cases found
  | succ fuel ih =>
    unfold searchFrom at found
    cases here : matchAt p s with
    | some e =>
      rw [here] at found
      cases found
      exact ⟨moves_of_matchAt here, rfl⟩
    | none =>
      rw [here] at found
      cases shape : s.rest with
      | nil =>
        rw [shape] at found
        cases found
      | cons x rest =>
        rw [shape] at found
        have later := ih found
        simpa [Cursor.next] using later

/-- What is found in a text is a match of some part of it. -/
theorem search_moves {text : List α} {c d : Cursor α} (found : search p text = some (c, d)) :
    Moves p c d ∧ c.before.reverse ++ c.rest = text := by
  simpa [start] using searchFrom_moves found

theorem searchFrom_of_match {passed rest : List α} {fuel : Nat} {before : List α} {groups : List (Nat × Nat × Nat)}
    (enough : passed.length + rest.length < fuel)
    (found : ∀ groups, ∃ e, matchAt p ⟨passed.reverse ++ before, rest, groups⟩ = some e) :
    (searchFrom p fuel ⟨before, passed ++ rest, groups⟩).isSome = true := by
  induction fuel generalizing passed before with
  | zero => omega
  | succ fuel ih =>
    unfold searchFrom
    cases here : matchAt p ⟨before, passed ++ rest, groups⟩ with
    | some d => rfl
    | none =>
      cases passed with
      | nil =>
        obtain ⟨e, there⟩ := found groups
        simp only [List.reverse_nil, List.nil_append] at there here
        rw [there] at here
        cases here
      | cons x xs =>
        simp only [List.cons_append, Cursor.next]
        refine ih ?_ ?_
        · simp only [List.length_cons] at enough
          omega
        · simpa using found

/-- A pattern that can match somewhere is found. -/
theorem search_isSome (consumes : Consumes p) {before rest : List α}
    (somewhere : ∀ groups, ∃ d, Moves p ⟨before.reverse, rest, groups⟩ d) :
    (search p (before ++ rest)).isSome = true := by
  refine searchFrom_of_match (by simp) fun groups => ?_
  obtain ⟨d, moves⟩ := somewhere groups
  simpa using matchAt_of_moves consumes moves

/-- A match is found where none that begins before it runs into it. -/
theorem findallFrom_mem {passed word rest before : List α} {fuel : Nat}
    (enough : passed.length + word.length + rest.length < fuel)
    (here : ∃ groups, matchAt p ⟨passed.reverse ++ before, word ++ rest, []⟩ =
      some ⟨word.reverse ++ (passed.reverse ++ before), rest, groups⟩)
    (clear : ∀ early late d, passed = early ++ late → late ≠ [] →
      matchAt p ⟨early.reverse ++ before, late ++ (word ++ rest), []⟩ = some d →
      ∃ taken left, late = taken ++ left ∧ d.rest = left ++ (word ++ rest) ∧
        d.before = taken.reverse ++ (early.reverse ++ before) ∧ taken ≠ []) :
    word ∈ findallFrom p fuel ⟨before, passed ++ (word ++ rest), []⟩ := by
  induction fuel generalizing passed before with
  | zero => omega
  | succ fuel ih =>
    unfold findallFrom
    cases passed with
    | nil =>
      obtain ⟨groups, found⟩ := here
      simp only [List.reverse_nil, List.nil_append] at found ⊢
      rw [found]
      simp [matched]
    | cons x xs =>
      cases first : matchAt p ⟨before, x :: xs ++ (word ++ rest), []⟩ with
      | none =>
        simp only [List.cons_append, Cursor.next]
        refine ih ?_ ?_ ?_
        · simp only [List.length_cons] at enough
          omega
        · simpa using here
        · intro early late d split some_late found
          have later := clear (x :: early) late d (by rw [split]; rfl) some_late
          simp only [List.reverse_cons, List.append_assoc, List.singleton_append] at later
          exact later found
      | some d =>
        obtain ⟨taken, left, split, text, passed, some_taken⟩ := clear [] (x :: xs) d rfl (by simp) (by simpa using first)
        simp only [List.mem_cons]
        right
        have shape : ({ d with groups := [] } : Cursor α) = ⟨taken.reverse ++ before, left ++ (word ++ rest), []⟩ := by
          simp [text, passed]
        rw [shape]
        have shorter : left.length < (x :: xs).length := by
          rw [split, List.length_append]
          have := List.length_pos_iff.mpr some_taken
          omega
        refine ih ?_ ?_ ?_
        · simp only [List.length_cons] at enough shorter
          omega
        · rw [split] at here
          simpa using here
        · intro early late d' split' some_late found
          have later := clear (taken ++ early) late d' (by rw [split, split', List.append_assoc]) some_late
          simp only [List.reverse_append, List.append_assoc] at later
          exact later found

end Searching

section Runs

/-- A text with every run of one class of characters written as one character. -/
def collapse (accepts : α → Bool) (gap : α) : Bool → List α → List α
  | _, [] => []
  | inside, x :: rest =>
    if accepts x then
      if inside then collapse accepts gap true rest else gap :: collapse accepts gap true rest
    else x :: collapse accepts gap false rest

theorem collapse_inside (accepts : α → Bool) (gap : α) (text : List α) :
    collapse accepts gap true text = collapse accepts gap false (text.dropWhile accepts) := by
  induction text with
  | nil => rfl
  | cons x rest ih =>
    by_cases fits : accepts x = true
    · simpa [collapse, fits] using ih
    · simp [collapse, fits]

theorem matchAt_run (accepts : α → Bool) (x : α) (rest before : List α) (groups : List (Nat × Nat × Nat)) :
    matchAt (plus (.char accepts)) ⟨before, x :: rest, groups⟩ =
      if accepts x then
        some ⟨(rest.takeWhile accepts).reverse ++ (x :: before), rest.dropWhile accepts, groups⟩
      else none := by
  by_cases fits : accepts x = true
  · have accepted : ∀ y ∈ rest.takeWhile accepts, accepts y = true :=
      List.all_eq_true.mp List.all_takeWhile
    have stops : ∀ y ∈ (rest.dropWhile accepts).head?, accepts y = false := by
      intro y head
      have first := List.head?_dropWhile_not accepts rest
      rw [head] at first
      exact first
    obtain ⟨others, first⟩ := successes_chars accepted stops (x :: before) groups
    rw [List.takeWhile_append_dropWhile] at first
    have run : successes (plus (.char accepts)) ⟨before, x :: rest, groups⟩ =
        ⟨(rest.takeWhile accepts).reverse ++ (x :: before), rest.dropWhile accepts, groups⟩ :: others := by
      rw [← first]
      simp [plus, successes, fits, Cursor.next]
    have shorter := (List.dropWhile_suffix (l := rest) accepts).length_le
    unfold matchAt
    rw [run, if_pos fits]
    exact if_pos (by simp only [List.length_cons]; omega)
  · simp [matchAt, plus, successes, fits]

theorem sub_run (accepts : α → Bool) (gap : α) (text : List α) :
    sub (plus (.char accepts)) (fun _ => [gap]) text = collapse accepts gap false text := by
  have run : ∀ fuel before text, text.length < fuel →
      subFrom (plus (.char accepts)) (fun _ => [gap]) fuel ⟨before, text, []⟩ = collapse accepts gap false text := by
    intro fuel
    induction fuel with
    | zero => omega
    | succ fuel ih =>
      intro before text enough
      cases text with
      | nil => simp [subFrom, matchAt, plus, successes, collapse]
      | cons x rest =>
        have shorter := (List.dropWhile_suffix (l := rest) accepts).length_le
        simp only [List.length_cons] at enough
        unfold subFrom
        rw [matchAt_run]
        by_cases fits : accepts x = true
        · simp only [if_pos fits]
          rw [ih _ _ (by omega), ← collapse_inside]
          simp [collapse, fits]
        · simp only [if_neg fits, Cursor.next]
          rw [ih _ _ (by omega)]
          simp [collapse, fits]
  exact run _ [] text (Nat.lt_succ_self _)

/-- What holds of a text and of the replacements holds of the text after them. -/
theorem mem_sub {p : Pattern α} {replace : List α → List α} {holds : α → Prop} (replaced : ∀ w, ∀ x ∈ replace w, holds x)
    {text : List α} (all : ∀ x ∈ text, holds x) : ∀ x ∈ sub p replace text, holds x := by
  have each : ∀ fuel c, (∀ x ∈ c.rest, holds x) → ∀ x ∈ subFrom p replace fuel c, holds x := by
    intro fuel
    induction fuel with
    | zero => intro c _ x inside; cases inside
    | succ fuel ih =>
      intro c all x inside
      rw [subFrom] at inside
      split at inside
      · rename_i d found
        obtain ⟨word, text, -⟩ := (moves_of_matchAt found).splits
        rcases List.mem_append.mp inside with new | later
        · exact replaced _ x new
        · exact ih { d with groups := [] } (fun y member => all y (text ▸ List.mem_append_right _ member)) x later
      · split at inside
        · cases inside
        · rename_i y rest shape
          rw [shape] at all
          rcases List.mem_cons.mp inside with rfl | later
          · exact all x List.mem_cons_self
          · exact ih _ (fun z member => all z (List.mem_cons_of_mem y member)) x later
  exact each _ _ all

/-- A pattern of a first character and a run takes the run whole first. -/
theorem successes_name {starts inside : α → Bool} {x : α} {xs after : List α} (first : starts x = true)
    (inner : ∀ y ∈ xs, inside y = true) (stops : ∀ y ∈ after.head?, inside y = false) (before : List α)
    (groups : List (Nat × Nat × Nat)) :
    ∃ others, successes (.seq (.char starts) (.star (.char inside))) ⟨before, x :: xs ++ after, groups⟩ =
      ⟨(x :: xs).reverse ++ before, after, groups⟩ :: others := by
  obtain ⟨others, run⟩ := successes_chars inner stops (x :: before) groups
  refine ⟨others, ?_⟩
  rw [List.reverse_cons, List.append_assoc, List.singleton_append, ← run]
  simp [successes, first, Cursor.next]

theorem matchAt_name {starts inside : α → Bool} {x : α} {xs after : List α} (first : starts x = true)
    (inner : ∀ y ∈ xs, inside y = true) (stops : ∀ y ∈ after.head?, inside y = false) (before : List α)
    (groups : List (Nat × Nat × Nat)) :
    matchAt (.seq (.char starts) (.star (.char inside))) ⟨before, x :: xs ++ after, groups⟩ =
      some ⟨(x :: xs).reverse ++ before, after, groups⟩ := by
  obtain ⟨others, whole⟩ := successes_name first inner stops before groups
  have shorter : after.length < (x :: xs ++ after).length := by
    rw [List.length_append, List.length_cons]
    omega
  unfold matchAt
  rw [whole]
  simp only [shorter, if_true]

/-- A run with none of its characters beside it is among the matches. -/
theorem findall_name {starts inside : α → Bool} (fits : ∀ x, starts x = true → inside x = true)
    {before xs after : List α} {x : α} (first : starts x = true) (inner : ∀ y ∈ xs, inside y = true)
    (outside : ∀ y ∈ before.getLast?, inside y = false) (stops : ∀ y ∈ after.head?, inside y = false) :
    x :: xs ∈ findall (.seq (.char starts) (.star (.char inside))) (before ++ (x :: xs ++ after)) := by
  have here := matchAt_name first inner stops before.reverse []
  apply findallFrom_mem (by simp; omega) ⟨[], by simpa using here⟩
  intro early late d split some_late found
  obtain ⟨e, ⟨y, rest, text, starts_, rfl⟩, more⟩ := moves_of_matchAt found
  obtain ⟨word, text', accepted, same⟩ := moves_chars.mp more
  have taken : late ++ (x :: xs ++ after) = (y :: word) ++ d.rest := by
    have begins : late ++ (x :: xs ++ after) = y :: rest := text
    rw [begins]
    simpa [Cursor.next] using text'
  rcases List.append_eq_append_iff.mp taken.symm with ⟨left, late_split, tail⟩ | ⟨extra, word_split, -⟩
  · exact ⟨y :: word, left, late_split, tail, by rw [same]; simp [Cursor.next], by simp⟩
  · -- A match that ran into the run would take the character before it, which is part of none.
    exfalso
    obtain ⟨init, last, shape⟩ := List.eq_nil_or_concat late |>.resolve_left some_late
    have member : last ∈ y :: word := by
      rw [word_split, shape]
      simp
    have edge := outside last (by
      rw [split, shape]
      simp)
    have part : inside last = true := by
      rcases List.mem_cons.mp member with rfl | later
      · exact fits _ starts_
      · exact accepted last later
    rw [part] at edge
    cases edge

theorem findall_name_first {starts inside : α → Bool} {x : α} {xs after : List α} (first : starts x = true)
    (inner : ∀ y ∈ xs, inside y = true) (stops : ∀ y ∈ after.head?, inside y = false) :
    ∃ others, findall (.seq (.char starts) (.star (.char inside))) (x :: xs ++ after) = (x :: xs) :: others := by
  have here := matchAt_name first inner stops [] []
  rw [findall, findallFrom, start, here]
  simp only [matched_append]
  exact ⟨_, rfl⟩

end Runs

end Regex
