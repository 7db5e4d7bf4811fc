import Mathlib.Data.Fintype.Card
import Mathlib.Data.Set.Finite.List
import Mathlib.Order.WellFounded
import Rdst.Lib.Assoc

namespace Weeding

open Assoc

variable {α Key Mark : Type} [DecidableEq Key] {key : α → Key} {mark : α → α → Mark} {covered : α → α → Bool}
  {all : List α}

/-- Take one element at a time, and mark it where an element that is not marked covers it. -/
def weed (key : α → Key) (mark : α → α → Mark) (covered : α → α → Bool) (all order : List α)
    (start : Dict Key Mark) : Dict Key Mark :=
  order.foldl (fun marked x =>
    if key x ∈ marked then marked
    else
      match all.find? fun y => decide (key y ∉ marked) && covered x y with
      | some y => marked.insert (key x) (mark x y)
      | none => marked) start

/-- A strict order among the elements. -/
structure Strict (covered : α → α → Bool) (all : List α) : Prop where
  irrefl : ∀ x ∈ all, covered x x = false
  trans : ∀ x ∈ all, ∀ y ∈ all, ∀ z ∈ all, covered x y = true → covered y z = true → covered x z = true

/-- What is covered is covered by an element that itself is not. -/
theorem Strict.exists_top (strict : Strict covered all) {test : α → Prop} {x : α} (member : x ∈ all)
    (has : ∃ y ∈ all, covered x y = true ∧ test y) :
    ∃ y ∈ all, covered x y = true ∧ test y ∧ ∀ z ∈ all, test z → covered y z = false := by
  let above (z y : {y : α // y ∈ all}) : Prop := covered y.1 z.1 = true
  have : IsTrans _ above := ⟨fun a b c first second => strict.trans _ c.2 _ b.2 _ a.2 second first⟩
  have : Std.Irrefl above := ⟨fun a loop => by
    have never := strict.irrefl a.1 a.2
    rw [show covered a.1 a.1 = true from loop] at never
    cases never⟩
  have : Finite {y : α // y ∈ all} := List.finite_toSet all
  have founded := Finite.wellFounded_of_trans_of_irrefl above
  obtain ⟨y, inside, covers, passes⟩ := has
  obtain ⟨top, ⟨topCovers, topPasses⟩, highest⟩ :=
    founded.has_min {y | covered x y.1 = true ∧ test y.1} ⟨⟨y, inside⟩, covers, passes⟩
  refine ⟨top.1, top.2, topCovers, topPasses, ?_⟩
  intro z member' passes'
  rw [← Bool.not_eq_true]
  intro higher
  exact highest ⟨z, member'⟩ ⟨strict.trans x member _ top.2 z member' topCovers higher, passes'⟩ higher

variable {start : Dict Key Mark}

theorem mem_congr {dict dict' : Dict Key Mark} {k : Key} (same : dict.lookup k = dict'.lookup k) :
    k ∈ dict ↔ k ∈ dict' := by
  rw [← AList.lookup_isSome, same, AList.lookup_isSome]

theorem weed_append (first second : List α) : weed key mark covered all (first ++ second) start =
    weed key mark covered all second (weed key mark covered all first start) := List.foldl_append

/-- One more element: what becomes of the marks. -/
theorem weed_snoc (key : α → Key) (mark : α → α → Mark) (covered : α → α → Bool) (all : List α) (start : Dict Key Mark)
    (order : List α) (x : α) :
    (key x ∉ weed key mark covered all order start ∧ ∃ y ∈ all, covered x y = true ∧
        key y ∉ weed key mark covered all order start ∧
        weed key mark covered all (order ++ [x]) start =
          (weed key mark covered all order start).insert (key x) (mark x y)) ∨
      (key x ∈ weed key mark covered all order start ∨
          ∀ y ∈ all, key y ∉ weed key mark covered all order start → covered x y = false) ∧
        weed key mark covered all (order ++ [x]) start = weed key mark covered all order start := by
  rw [weed_append]
  generalize weed key mark covered all order start = marked
  simp only [weed, List.foldl_cons, List.foldl_nil]
  by_cases already : key x ∈ marked
  · right
    rw [if_pos already]
    exact ⟨.inl already, rfl⟩
  · rw [if_neg already]
    split
    next y found =>
      left
      have test := List.find?_some found
      simp only [Bool.and_eq_true, decide_eq_true_eq] at test
      exact ⟨already, y, List.mem_of_find?_eq_some found, test.2, test.1, rfl⟩
    next absent =>
      right
      refine ⟨.inr ?_, rfl⟩
      intro y inside free
      have test := List.find?_eq_none.mp absent y inside
      simpa [free] using test

/-- Marks that stood keep what they say. -/
theorem lookup_weed {k : Key} (there : k ∈ start) (order : List α) :
    (weed key mark covered all order start).lookup k = start.lookup k := by
  induction order using List.reverseRecOn with
  | nil => rfl
  | append_singleton order x ih =>
    rcases weed_snoc key mark covered all start order x with ⟨free, y, -, -, -, after⟩ | ⟨-, after⟩
    · have other : k ≠ key x := by
        rintro rfl
        exact free ((mem_congr ih).mpr there)
      rw [after, AList.lookup_insert_ne other, ih]
    · rw [after, ih]

/-- The others say what covered the element that was marked. -/
theorem mark_of_weed {k : Key} {m : Mark} (new : k ∉ start) {order : List α}
    (found : (weed key mark covered all order start).lookup k = some m) :
    ∃ x ∈ order, key x = k ∧ ∃ y ∈ all, covered x y = true ∧ key y ∉ start ∧ m = mark x y := by
  induction order using List.reverseRecOn with
  | nil =>
    rw [show (weed key mark covered all [] start).lookup k = start.lookup k from rfl,
      AList.lookup_eq_none.mpr new] at found
    cases found
  | append_singleton order x ih =>
    have earlier : (weed key mark covered all order start).lookup k = some m →
        ∃ x' ∈ order ++ [x], key x' = k ∧ ∃ y ∈ all, covered x' y = true ∧ key y ∉ start ∧ m = mark x' y := by
      intro before
      obtain ⟨x', member, rest⟩ := ih before
      exact ⟨x', List.mem_append_left _ member, rest⟩
    rcases weed_snoc key mark covered all start order x with ⟨-, y, inside, covers, free, after⟩ | ⟨-, after⟩
    · rw [after] at found
      by_cases here : k = key x
      · subst here
        rw [AList.lookup_insert, Option.some.injEq] at found
        refine ⟨x, List.mem_append_right _ List.mem_cons_self, rfl, y, inside, covers, ?_, found.symm⟩
        exact fun before => free ((mem_congr (lookup_weed before order)).mpr before)
      · rw [AList.lookup_insert_ne here] at found
        exact earlier found
    · rw [after] at found
      exact earlier found

/-- In whatever order they are taken, the elements that go are those that one outside the first marks covers. -/
theorem mem_weed (strict : Strict covered all) (distinct : ∀ x ∈ all, ∀ y ∈ all, key x = key y → x = y)
    {order : List α} (inside : ∀ x ∈ order, x ∈ all) {x : α} (member : x ∈ all) :
    key x ∈ weed key mark covered all order start ↔
      key x ∈ start ∨ x ∈ order ∧ ∃ y ∈ all, covered x y = true ∧ key y ∉ start := by
  constructor
  · intro marked
    by_cases before : key x ∈ start
    · exact .inl before
    · right
      obtain ⟨m, found⟩ := Option.isSome_iff_exists.mp (AList.lookup_isSome.mpr marked)
      obtain ⟨x', listed, same, y, member', covers, free, -⟩ := mark_of_weed before found
      have equal := distinct x' (inside x' listed) x member same
      rw [equal] at listed covers
      exact ⟨listed, y, member', covers, free⟩
  · rintro (before | ⟨listed, has⟩)
    · exact (mem_congr (lookup_weed before order)).mpr before
    · obtain ⟨top, member', covers, free, highest⟩ := strict.exists_top member has
      -- nothing covers the top element, so that it is free when `x` comes up
      have stays : ∀ order', (∀ z ∈ order', z ∈ all) → key top ∉ weed key mark covered all order' start := by
        intro order' inside' marked
        obtain ⟨m, found⟩ := Option.isSome_iff_exists.mp (AList.lookup_isSome.mpr marked)
        obtain ⟨x', listed', same, z, member'', covers', free', -⟩ := mark_of_weed free found
        have equal := distinct x' (inside' x' listed') top member' same
        rw [equal, highest z member'' free'] at covers'
        cases covers'
      obtain ⟨front, back, rfl⟩ := List.append_of_mem listed
      have taken : key x ∈ weed key mark covered all (front ++ [x]) start := by
        rcases weed_snoc key mark covered all start front x with ⟨-, y, -, -, -, after⟩ | ⟨already | uncovered, after⟩
        · rw [after]
          exact AList.mem_insert _ |>.mpr (.inl rfl)
        · rw [after]
          exact already
        · have never := uncovered top member' (stays front fun z here => inside z (List.mem_append_left _ here))
          rw [covers] at never
          cases never
      rw [show front ++ x :: back = (front ++ [x]) ++ back by simp, weed_append]
      exact (mem_congr (lookup_weed taken back)).mpr taken

end Weeding
