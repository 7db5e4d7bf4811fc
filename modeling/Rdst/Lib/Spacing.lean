import Rdst.Lib.Regex
import Mathlib.Data.List.TakeWhile
import Mathlib.Data.List.DropRight
import Mathlib.Data.List.Chain

/-! A text up to its white space, where some of the white space has to stay. -/

namespace Spacing

open Regex

variable {α : Type*} (space : α → Bool) (gap : α)

/-- What counts of a text with marks: all but the white space without one. -/
def squeeze (marked : List (Bool × α)) : List (Bool × α) := marked.filter fun p => p.1 || !space p.2

/-- The text is the marked one, up to the white space without a mark. -/
def Alike (marked : List (Bool × α)) (text : List α) : Prop :=
  ∃ other, other.map Prod.snd = text ∧ squeeze space other = squeeze space marked

def trimEnd (text : List α) : List α := (text.reverse.dropWhile space).reverse

def tidy (text : List α) : List α := trimEnd space ((collapse space gap false text).dropWhile space)

/-- White space with a mark is a gap between two characters that are none. -/
def Single : Bool → List (Bool × α) → Prop
  | _, [] => True
  | spaced, p :: rest =>
    (p.1 = true → space p.2 = true → p.2 = gap ∧ spaced = false ∧ ∃ q ∈ rest.head?, space q.2 = false) ∧
      Single (space p.2) rest

/-- White space beside white space has the same mark. -/
def Steady (marked : List (Bool × α)) : Prop :=
  marked.IsChain fun p q => space p.2 = true → space q.2 = true → p.1 = q.1

section Parts

variable {space} {gap} {marked rest : List (Bool × α)} {p : Bool × α} {text : List α}

theorem squeeze_append (first second : List (Bool × α)) :
    squeeze space (first ++ second) = squeeze space first ++ squeeze space second := List.filter_append _ _

theorem squeeze_solid (solid : space p.2 = false) : squeeze space (p :: rest) = p :: squeeze space rest :=
  List.filter_cons_of_pos (by simp [solid])

theorem squeeze_loose (loose : p.1 = false) (blank : space p.2 = true) : squeeze space (p :: rest) = squeeze space rest :=
  List.filter_cons_of_neg (by simp [loose, blank])

theorem squeeze_marked (kept : p.1 = true) : squeeze space (p :: rest) = p :: squeeze space rest :=
  List.filter_cons_of_pos (by simp [kept])

theorem squeeze_blanks {run : List (Bool × α)} (blanks : ∀ q ∈ run, space q.2 = true) : squeeze space run = run.filter Prod.fst :=
  List.filter_congr fun q inside => by simp [blanks q inside]

/-- What is alike has the same characters in the same order, white space apart. -/
theorem Alike.solid (alike : Alike space marked text) :
    text.filter (fun c => !space c) = (marked.map Prod.snd).filter fun c => !space c := by
  obtain ⟨other, rfl, same⟩ := alike
  have solids : ∀ ps : List (Bool × α),
      (ps.map Prod.snd).filter (fun c => !space c) = ((squeeze space ps).filter fun p => !space p.2).map Prod.snd := by
    intro ps
    rw [squeeze, List.filter_filter, List.filter_map]
    refine congrArg _ (List.filter_congr fun p _ => ?_)
    cases blank : space p.2 <;> simp [blank]
  rw [solids, solids, same]

theorem trimEnd_solid {c : α} (solid : space c = false) (text : List α) : trimEnd space (c :: text) = c :: trimEnd space text := by
  rw [trimEnd, List.reverse_cons, List.dropWhile_append]
  split
  · rename_i none_
    rw [List.isEmpty_iff] at none_
    simp [trimEnd, none_, solid]
  · simp [trimEnd]

theorem trimEnd_before {c : α} (some_ : trimEnd space text ≠ []) : trimEnd space (c :: text) = c :: trimEnd space text := by
  have kept : text.reverse.dropWhile space ≠ [] := fun none_ => some_ (by rw [trimEnd, none_]; rfl)
  rw [trimEnd, List.reverse_cons, List.dropWhile_append, if_neg (by simpa using kept)]
  simp [trimEnd]

theorem trimEnd_blank {c : α} (blank : space c = true) : trimEnd space [c] = [] := by simp [trimEnd, blank]

theorem collapse_blanks {run : List α} (some_ : run ≠ []) (blanks : ∀ c ∈ run, space c = true) (later : List α)
    (stops : ∀ c ∈ later.head?, space c = false) :
    collapse space gap false (run ++ later) = gap :: collapse space gap false later := by
  cases run with
  | nil => exact absurd rfl some_
  | cons c run =>
    have first : space c = true := blanks c (by simp)
    have others : (run ++ later).dropWhile space = later := by
      rw [List.dropWhile_append_of_pos fun d inside => blanks d (List.mem_cons_of_mem _ inside)]
      cases later with
      | nil => rfl
      | cons d later => simp [stops d rfl]
    rw [List.cons_append, collapse, if_pos first, if_neg Bool.false_ne_true, collapse_inside, others]

theorem collapse_solid {c : α} (solid : space c = false) (inside : Bool) (text : List α) :
    collapse space gap inside (c :: text) = c :: collapse space gap false text := by
  rw [collapse, if_neg (by simp [solid])]

/-- Two texts of white space up to their first other character. -/
theorem blanks_split {first first' second second' : List (Bool × α)} {q q' : Bool × α}
    (same : first ++ q :: second = first' ++ q' :: second') (blanks : ∀ r ∈ first, space r.2 = true)
    (blanks' : ∀ r ∈ first', space r.2 = true) (solid : space q.2 = false) (solid' : space q'.2 = false) :
    first = first' ∧ q = q' ∧ second = second' := by
  have cut : ∀ (run : List (Bool × α)) (r : Bool × α) (later : List (Bool × α)), (∀ s ∈ run, space s.2 = true) →
      space r.2 = false → (run ++ r :: later).takeWhile (fun s => space s.2) = run := by
    intro run r later all stops
    rw [List.takeWhile_append_of_pos all, List.takeWhile_cons_of_neg (by simp [stops]), List.append_nil]
  have heads : first = first' := by
    rw [← cut first q second blanks solid, same, cut first' q' second' blanks' solid']
  rw [heads] at same
  obtain ⟨rfl, rfl⟩ := List.cons.inj (List.append_cancel_left same)
  exact ⟨heads, rfl, rfl⟩

theorem alike_solid (solid : space p.2 = false) : Alike space (p :: rest) (p.2 :: text) ↔ Alike space rest text := by
  constructor
  · rintro ⟨other, spelled, same⟩
    cases other with
    | nil => cases spelled
    | cons q other =>
      obtain ⟨here, later⟩ := List.cons.inj spelled
      rw [squeeze_solid solid, squeeze_solid (by rw [here]; exact solid)] at same
      exact ⟨other, later, (List.cons.inj same).2⟩
  · rintro ⟨other, rfl, same⟩
    exact ⟨p :: other, rfl, by rw [squeeze_solid solid, squeeze_solid solid, same]⟩

theorem single_solid (solid : space p.2 = false) (spaced : Bool) : Single space gap spaced (p :: rest) ↔ Single space gap false rest := by
  rw [Single, solid]
  simp

theorem steady_run {run : List (Bool × α)} (steady : Steady space (p :: run)) (blank : space p.2 = true)
    (blanks : ∀ q ∈ run, space q.2 = true) : ∀ q ∈ run, q.1 = p.1 := by
  induction run generalizing p with
  | nil => simp
  | cons q run ih =>
    obtain ⟨same, later⟩ := List.isChain_cons_cons.mp steady
    have here : q.1 = p.1 := (same blank (blanks q (by simp))).symm
    intro r inside
    rcases List.mem_cons.mp inside with rfl | inside
    · exact here
    · rw [ih later (blanks q (by simp)) (fun s member => blanks s (List.mem_cons_of_mem _ member)) r inside, here]

/-- A run of white space at the end. -/
theorem single_end {run : List (Bool × α)} (blanks : ∀ q ∈ run, space q.2 = true) (spaced : Bool) :
    Single space gap spaced run ↔ ∀ q ∈ run, q.1 = false := by
  induction run generalizing spaced with
  | nil => simp [Single]
  | cons p run ih =>
    rw [Single, ih (fun q inside => blanks q (List.mem_cons_of_mem _ inside)), List.forall_mem_cons]
    apply and_congr_left
    intro _
    constructor
    · intro kept
      by_contra marked
      obtain ⟨-, -, q, next, solid⟩ := kept (by simpa using marked) (blanks p (by simp))
      have inside : q ∈ run := List.mem_of_mem_head? next
      rw [blanks q (List.mem_cons_of_mem _ inside)] at solid
      cases solid
    · intro loose marked
      rw [loose] at marked
      cases marked

/-- A run of white space between two other characters. -/
theorem single_run {run : List (Bool × α)} (blanks : ∀ q ∈ run, space q.2 = true) (solid : space p.2 = false)
    (spaced : Bool) (loose : ∀ q ∈ run, q.1 = false) :
    Single space gap spaced (run ++ p :: rest) ↔ Single space gap false rest := by
  induction run generalizing spaced with
  | nil => exact single_solid solid spaced
  | cons q run ih =>
    have unmarked : q.1 = false := loose q (by simp)
    rw [List.cons_append, Single,
      ih (fun r inside => blanks r (List.mem_cons_of_mem _ inside)) _ (fun r inside => loose r (List.mem_cons_of_mem _ inside))]
    simp [unmarked]

theorem single_marked {q : Bool × α} {run : List (Bool × α)} (marked : q.1 = true) (blank : space q.2 = true)
    (blanks : ∀ r ∈ run, space r.2 = true) (solid : space p.2 = false) :
    Single space gap false (q :: run ++ p :: rest) ↔ q.2 = gap ∧ run = [] ∧ Single space gap false rest := by
  rw [List.cons_append, Single]
  constructor
  · rintro ⟨kept, later⟩
    obtain ⟨same, -, r, next, stops⟩ := kept marked blank
    cases run with
    | nil => exact ⟨same, rfl, (single_solid solid _).mp later⟩
    | cons s run =>
      have is : s = r := Option.some.inj next
      rw [← is, blanks s (by simp)] at stops
      cases stops
  · rintro ⟨same, rfl, later⟩
    exact ⟨fun _ _ => ⟨same, rfl, p, rfl, solid⟩, (single_solid solid _).mpr later⟩

/-- A text alike with a run of white space in front is alike behind it. -/
theorem alike_run {run : List (Bool × α)} (blanks : ∀ q ∈ run, space q.2 = true) (solid : space p.2 = false)
    (gapBlank : space gap = true) :
    Alike space (run ++ p :: rest) (gap :: p.2 :: text) ↔
      (run.filter Prod.fst = [] ∨ run.filter Prod.fst = [(true, gap)]) ∧ Alike space rest text := by
  have whole : squeeze space (run ++ p :: rest) = run.filter Prod.fst ++ p :: squeeze space rest := by
    rw [squeeze_append, squeeze_blanks blanks, squeeze_solid solid]
  have kept : ∀ q ∈ run.filter Prod.fst, space q.2 = true := fun q inside => blanks q (List.mem_filter.mp inside).1
  constructor
  · rintro ⟨other, spelled, same⟩
    match other, spelled with
    | g :: h :: other, spelled =>
      obtain ⟨gap_eq, later⟩ := List.cons.inj spelled
      obtain ⟨here, last⟩ := List.cons.inj later
      have solid' : space h.2 = false := by rw [here]; exact solid
      have blank : ∀ q ∈ [g].filter Prod.fst, space q.2 = true := by
        intro q inside
        rw [List.mem_singleton.mp (List.mem_filter.mp inside).1, gap_eq]
        exact gapBlank
      have parts : squeeze space (g :: h :: other) = [g].filter Prod.fst ++ h :: squeeze space other := by
        have single : squeeze space [g] = [g].filter Prod.fst := squeeze_blanks (by simp [gap_eq, gapBlank])
        rw [← squeeze_solid solid', ← single, ← squeeze_append]
        rfl
      rw [parts, whole] at same
      obtain ⟨runs, -, tails⟩ := blanks_split same blank kept solid' solid
      refine ⟨?_, other, last, tails⟩
      rw [← runs]
      obtain ⟨mark, c⟩ := g
      have is : c = gap := gap_eq
      subst is
      cases mark
      · left; rfl
      · right; rfl
  · rintro ⟨which, other, rfl, same⟩
    rcases which with none_ | one
    · refine ⟨(false, gap) :: p :: other, rfl, ?_⟩
      rw [whole, none_, squeeze_loose rfl gapBlank, squeeze_solid solid, same]
      rfl
    · refine ⟨(true, gap) :: p :: other, rfl, ?_⟩
      rw [whole, one, squeeze_marked rfl, squeeze_solid solid, same]
      rfl

theorem alike_end {run : List (Bool × α)} (blanks : ∀ q ∈ run, space q.2 = true) :
    Alike space run [] ↔ ∀ q ∈ run, q.1 = false := by
  have none_ : squeeze space run = [] ↔ ∀ q ∈ run, q.1 = false := by
    rw [squeeze_blanks blanks, List.filter_eq_nil_iff]
    simp
  rw [← none_]
  constructor
  · rintro ⟨other, spelled, same⟩
    rw [← same, List.map_eq_nil_iff.mp spelled]
    rfl
  · intro same
    exact ⟨[], rfl, by rw [same]; rfl⟩

theorem Steady.tail {run : List (Bool × α)} (steady : Steady space (run ++ rest)) : Steady space rest :=
  (List.isChain_append.mp steady).2.1

theorem solid_head (stops : ∀ q ∈ rest.head?, space q.2 = false) : ∀ c ∈ (rest.map Prod.snd).head?, space c = false := by
  cases rest with
  | nil => simp
  | cons q rest =>
    intro c head
    rw [← Option.some.inj head]
    exact stops q rfl

/-- One run of white space after another. -/
theorem alike_iff (gapBlank : space gap = true) (steady : Steady space marked) :
    Alike space marked (trimEnd space (collapse space gap false (marked.map Prod.snd))) ↔ Single space gap false marked := by
  induction size : marked.length using Nat.strong_induction_on generalizing marked with
  | _ size_ ih =>
    subst size
    have cut := List.takeWhile_append_dropWhile (p := fun q : Bool × α => space q.2) (l := marked)
    have blanks : ∀ q ∈ marked.takeWhile fun q => space q.2, space q.2 = true :=
      fun q inside => List.mem_takeWhile_imp (p := fun q : Bool × α => space q.2) inside
    have stops : ∀ q ∈ (marked.dropWhile fun q => space q.2).head?, space q.2 = false := by
      intro q head
      have first := List.head?_dropWhile_not (fun q : Bool × α => space q.2) marked
      rw [head] at first
      simpa using first
    generalize marked.takeWhile (fun q => space q.2) = run at cut blanks
    generalize marked.dropWhile (fun q => space q.2) = later at cut stops
    subst cut
    have blanks' : ∀ c ∈ run.map Prod.snd, space c = true := by
      intro c inside
      obtain ⟨q, member, rfl⟩ := List.mem_map.mp inside
      exact blanks q member
    cases later with
    | nil =>
      rw [List.append_nil, single_end blanks, ← alike_end blanks]
      cases run with
      | nil => rfl
      | cons p run =>
        have line : collapse space gap false ((p :: run).map Prod.snd) = [gap] := by
          have whole : collapse space gap false ((p :: run).map Prod.snd ++ []) = gap :: collapse space gap false [] :=
            collapse_blanks (List.cons_ne_nil _ _) blanks' [] (by simp)
          rwa [List.append_nil] at whole
        rw [line, trimEnd_blank gapBlank]
    | cons p rest =>
      have solid : space p.2 = false := stops p rfl
      have steady' : Steady space rest := (List.isChain_append.mp (Steady.tail steady : Steady space ([p] ++ rest))).2.1
      have within := ih rest.length (by simp; omega) steady' rfl
      have tail : trimEnd space (collapse space gap false ((p :: rest).map Prod.snd)) =
          p.2 :: trimEnd space (collapse space gap false (rest.map Prod.snd)) := by
        rw [List.map_cons, collapse_solid solid, trimEnd_solid solid]
      cases run with
      | nil => rw [List.nil_append, tail, alike_solid solid, within, single_solid solid]
      | cons q run =>
        have line : trimEnd space (collapse space gap false ((q :: run ++ p :: rest).map Prod.snd)) =
            gap :: p.2 :: trimEnd space (collapse space gap false (rest.map Prod.snd)) := by
          rw [List.map_append, collapse_blanks (by simp) blanks' _ (by simpa using solid),
            trimEnd_before (by rw [tail]; simp), tail]
        have same : ∀ r ∈ run, r.1 = q.1 := by
          have front : Steady space (q :: run) := (List.isChain_append.mp steady).1
          exact steady_run front (blanks q (by simp)) fun r inside => blanks r (List.mem_cons_of_mem _ inside)
        rw [line, alike_run blanks solid gapBlank, within]
        cases mark : q.1 with
        | false =>
          have loose : ∀ r ∈ q :: run, r.1 = false := by
            intro r inside
            rcases List.mem_cons.mp inside with rfl | inside
            · exact mark
            · rw [same r inside, mark]
          have none_ : (q :: run).filter Prod.fst = [] := List.filter_eq_nil_iff.mpr fun r inside => by simp [loose r inside]
          rw [single_run blanks solid false loose, none_]
          simp
        | true =>
          have all : (q :: run).filter Prod.fst = q :: run := by
            rw [List.filter_eq_self]
            intro r inside
            rcases List.mem_cons.mp inside with rfl | inside
            · exact mark
            · rw [same r inside, mark]
          rw [single_marked mark (blanks q (by simp)) (fun r inside => blanks r (List.mem_cons_of_mem _ inside)) solid, all]
          obtain ⟨m, c⟩ := q
          simp only at mark
          simp [mark, and_assoc]

/-- The tidy text is the text again when the white space with a mark is single. -/
theorem alike_tidy (gapBlank : space gap = true) (steady : Steady space marked)
    (begins : ∀ p ∈ marked.head?, space p.2 = true → p.1 = false) :
    Alike space marked (tidy space gap (marked.map Prod.snd)) ↔ Single space gap false marked := by
  have solids : ∀ ps : List (Bool × α), (∀ p ∈ ps.head?, space p.2 = false) →
      tidy space gap (ps.map Prod.snd) = trimEnd space (collapse space gap false (ps.map Prod.snd)) := by
    intro ps stops
    cases ps with
    | nil => rfl
    | cons p rest =>
      have solid := stops p rfl
      rw [tidy, List.map_cons, collapse_solid solid, List.dropWhile_cons_of_neg (by simp [solid])]
  cases marked with
  | nil =>
    rw [solids [] (by simp)]
    exact alike_iff gapBlank steady
  | cons p rest =>
    cases blank : space p.2 with
    | false =>
      have stops : ∀ q ∈ (p :: rest).head?, space q.2 = false := by
        intro q head
        rwa [← Option.some.inj head]
      rw [solids _ stops]
      exact alike_iff gapBlank steady
    | true =>
      have loose := begins p rfl blank
      have cut := List.takeWhile_append_dropWhile (p := fun q : Bool × α => space q.2) (l := rest)
      have blanks : ∀ q ∈ rest.takeWhile fun q => space q.2, space q.2 = true :=
        fun q inside => List.mem_takeWhile_imp (p := fun q : Bool × α => space q.2) inside
      have stops : ∀ q ∈ (rest.dropWhile fun q => space q.2).head?, space q.2 = false := by
        intro q head
        have first := List.head?_dropWhile_not (fun q : Bool × α => space q.2) rest
        rw [head] at first
        simpa using first
      generalize rest.takeWhile (fun q => space q.2) = run at cut blanks
      generalize rest.dropWhile (fun q => space q.2) = later at cut stops
      subst cut
      have whole : Steady space (p :: run ++ later) := steady
      have loose' : ∀ q ∈ p :: run, q.1 = false := by
        have front : Steady space (p :: run) := (List.isChain_append.mp whole).1
        intro q inside
        rcases List.mem_cons.mp inside with rfl | inside
        · exact loose
        · rw [steady_run front blank blanks q inside, loose]
      have blanks' : ∀ q ∈ p :: run, space q.2 = true := by
        intro q inside
        rcases List.mem_cons.mp inside with rfl | inside
        · exact blank
        · exact blanks q inside
      have none_ : squeeze space (p :: run) = [] := by
        rw [squeeze_blanks blanks', List.filter_eq_nil_iff]
        intro q inside
        simp [loose' q inside]
      have same : ∀ text, Alike space (p :: run ++ later) text ↔ Alike space later text := by
        intro text
        rw [Alike, Alike, squeeze_append, none_, List.nil_append]
      have line : tidy space gap ((p :: run ++ later).map Prod.snd) =
          trimEnd space (collapse space gap false (later.map Prod.snd)) := by
        rw [← solids later stops, tidy, List.map_append, collapse_blanks (by simp)
          (fun c inside => by obtain ⟨q, member, rfl⟩ := List.mem_map.mp inside; exact blanks' q member) _ (solid_head stops),
          List.dropWhile_cons_of_pos gapBlank, tidy]
      rw [← List.cons_append, same, line, alike_iff gapBlank whole.tail]
      cases later with
      | nil =>
        rw [List.append_nil, single_end blanks']
        simpa [Single] using loose'
      | cons q later =>
        have solid := stops q rfl
        rw [single_run blanks' solid false loose', single_solid solid]

/-- Said of the places of the text. -/
theorem single_iff : Single space gap false marked ↔ ∀ before p after, marked = before ++ p :: after → p.1 = true →
    space p.2 = true → p.2 = gap ∧ (∀ q ∈ before.getLast?, space q.2 = false) ∧ ∃ q ∈ after.head?, space q.2 = false := by
  have shifted : ∀ (front : List (Bool × α)), Single space gap (front.getLast?.any fun q => space q.2) marked ↔
      ∀ before p after, marked = before ++ p :: after → p.1 = true → space p.2 = true →
        p.2 = gap ∧ (∀ q ∈ (front ++ before).getLast?, space q.2 = false) ∧ ∃ q ∈ after.head?, space q.2 = false := by
    induction marked with
    | nil => simp [Single]
    | cons p rest ih =>
      intro front
      have later := ih (front ++ [p])
      rw [List.getLast?_concat, Option.any_some] at later
      rw [Single, later]
      have edge : (front.getLast?.any fun q => space q.2) = false ↔ ∀ q ∈ front.getLast?, space q.2 = false := by
        cases front.getLast? <;> simp
      constructor
      · rintro ⟨here, others⟩ before q after split marked blank
        cases before with
        | nil =>
          obtain ⟨rfl, rfl⟩ := List.cons.inj split
          obtain ⟨same, spaced, next⟩ := here marked blank
          rw [List.append_nil]
          exact ⟨same, edge.mp spaced, next⟩
        | cons r before =>
          obtain ⟨rfl, split'⟩ := List.cons.inj split
          simpa using others before q after split' marked blank
      · intro all
        constructor
        · intro marked blank
          obtain ⟨same, before, next⟩ := all [] p rest rfl marked blank
          rw [List.append_nil] at before
          exact ⟨same, edge.mpr before, next⟩
        · intro before q after split marked blank
          have there := all (p :: before) q after (by rw [split]; rfl) marked blank
          simpa using there
  simpa using shifted []

end Parts

section Ends

variable {β : Type*} {space} {blank : β → Bool} {write : β → List α}

theorem trimEnd_cons (c : α) (text : List α) :
    trimEnd space (c :: text) = if trimEnd space text = [] ∧ space c = true then [] else c :: trimEnd space text := by
  by_cases none_ : trimEnd space text = []
  · have all : text.reverse.dropWhile space = [] := List.reverse_eq_nil_iff.mp none_
    cases blank : space c <;> simp [trimEnd, List.dropWhile_append, all, blank]
  · rw [trimEnd_before none_, if_neg fun both => none_ both.1]

/-- White space in front of a text of blocks. -/
theorem dropWhile_flatMap (blanks : ∀ b, blank b = true → ∃ c, write b = [c] ∧ space c = true)
    (solids : ∀ b, blank b = false → ∃ c rest, write b = c :: rest ∧ space c = false) (bs : List β) :
    (bs.flatMap write).dropWhile space = (bs.dropWhile blank).flatMap write := by
  induction bs with
  | nil => rfl
  | cons b bs ih =>
    cases which : blank b with
    | true =>
      obtain ⟨c, one, gap⟩ := blanks b which
      rw [List.flatMap_cons, one, List.singleton_append, List.dropWhile_cons_of_pos gap, ih, List.dropWhile_cons_of_pos which]
    | false =>
      obtain ⟨c, rest, text, solid⟩ := solids b which
      rw [List.dropWhile_cons_of_neg (by simp [which]), List.flatMap_cons, text, List.cons_append,
        List.dropWhile_cons_of_neg (by simp [solid])]

theorem trimEnd_flatMap (blanks : ∀ b, blank b = true → ∃ c, write b = [c] ∧ space c = true)
    (solids : ∀ b, blank b = false → ∃ rest c, write b = rest ++ [c] ∧ space c = false) (bs : List β) :
    trimEnd space (bs.flatMap write) = (trimEnd blank bs).flatMap write := by
  have turned : ((bs.reverse.flatMap fun b => (write b).reverse)).dropWhile space =
      (bs.reverse.dropWhile blank).flatMap fun b => (write b).reverse := by
    refine dropWhile_flatMap (fun b which => ?_) (fun b which => ?_) _
    · obtain ⟨c, one, gap⟩ := blanks b which
      exact ⟨c, by rw [one]; rfl, gap⟩
    · obtain ⟨rest, c, text, solid⟩ := solids b which
      exact ⟨c, rest.reverse, by rw [text, List.reverse_append]; rfl, solid⟩
  rw [trimEnd, List.reverse_flatMap]
  simp only [Function.comp_def] at turned ⊢
  rw [turned, List.reverse_flatMap, trimEnd]
  simp [Function.comp_def]

theorem filterMap_trim {γ : Type*} {part : β → Option γ} (nones : ∀ b, blank b = true → part b = none) (bs : List β) :
    (trimEnd blank (bs.dropWhile blank)).filterMap part = bs.filterMap part := by
  have front : ∀ bs : List β, (bs.dropWhile blank).filterMap part = bs.filterMap part := by
    intro bs
    induction bs with
    | nil => rfl
    | cons b bs ih =>
      cases which : blank b with
      | true => rw [List.dropWhile_cons_of_pos which, List.filterMap_cons_none (nones b which), ih]
      | false => rw [List.dropWhile_cons_of_neg (by simp [which])]
  rw [trimEnd, List.filterMap_reverse, front, List.filterMap_reverse, List.reverse_reverse, front]

variable {gap : α}

theorem filter_dropWhile (text : List α) : (text.dropWhile space).filter (fun c => !space c) = text.filter fun c => !space c := by
  induction text with
  | nil => rfl
  | cons c text ih => cases blank : space c <;> simp [blank, ih]

theorem filter_trimEnd (text : List α) : (trimEnd space text).filter (fun c => !space c) = text.filter fun c => !space c := by
  rw [trimEnd, List.filter_reverse, filter_dropWhile, List.filter_reverse, List.reverse_reverse]

/-- Tidying a text takes white space only. -/
theorem filter_tidy (gapBlank : space gap = true) (text : List α) :
    (tidy space gap text).filter (fun c => !space c) = text.filter fun c => !space c := by
  have collapsed : ∀ inside, (collapse space gap inside text).filter (fun c => !space c) = text.filter fun c => !space c := by
    induction text with
    | nil => simp [collapse]
    | cons c text ih =>
      intro inside
      cases blank : space c <;> cases inside <;> simp [collapse, blank, gapBlank, ih]
  rw [tidy, filter_trimEnd, filter_dropWhile, collapsed]

theorem trimEnd_dropWhile (text : List α) : (trimEnd space text).dropWhile space = trimEnd space (text.dropWhile space) := by
  induction text with
  | nil => rfl
  | cons c text ih =>
    cases blank : space c with
    | false =>
      have solid : ¬ space c = true := by simp [blank]
      rw [trimEnd_solid blank, List.dropWhile_cons_of_neg solid, List.dropWhile_cons_of_neg solid, trimEnd_solid blank]
    | true =>
      rw [List.dropWhile_cons_of_pos blank, ← ih, trimEnd_cons]
      by_cases none_ : trimEnd space text = []
      · rw [if_pos ⟨none_, blank⟩, none_]
      · rw [if_neg fun both => none_ both.1, List.dropWhile_cons_of_pos blank]

theorem trimEnd_blanks {run : List α} (blanks : ∀ c ∈ run, space c = true) (text : List α) :
    trimEnd space (text ++ run) = trimEnd space text := by
  rw [trimEnd, List.reverse_append, List.dropWhile_append_of_pos fun c inside => blanks c (List.mem_reverse.mp inside), trimEnd]

theorem trimEnd_append {run : List α} (solid : ∀ c ∈ run, space c = false) (text : List α) :
    trimEnd space (run ++ text) = run ++ trimEnd space text := by
  induction run with
  | nil => rfl
  | cons c run ih =>
    rw [List.cons_append, trimEnd_solid (solid c List.mem_cons_self), ih fun d inside => solid d (List.mem_cons_of_mem _ inside)]
    rfl

theorem trimEnd_twice (text : List α) : trimEnd space (trimEnd space text) = trimEnd space text := by
  rw [trimEnd, trimEnd, List.reverse_reverse, List.dropWhile_idempotent space]

end Ends

end Spacing
