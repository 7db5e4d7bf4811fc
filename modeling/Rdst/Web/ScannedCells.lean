import Rdst.Lib.SqlLiterals
import Rdst.Web.CapturedFill

namespace Rdst.Web.SqlParameters

open PyText Weaving
open SqlLexer (written encloses encloses_other)

section Local

variable {left left' : List Char}

theorem afterFirst_local {needle taken : List Char} (some_ : needle ≠ []) (found : afterFirst needle (taken ++ left) = some left) :
    afterFirst needle (taken ++ left') = some left' := by
  have long : ∀ taken, afterFirst needle (taken ++ left) = some left → needle.length ≤ taken.length := by
    intro taken found
    obtain ⟨front, split, -⟩ := afterFirst_spec some_ found
    have lengths := congrArg List.length split
    simp only [List.length_append] at lengths
    omega
  induction taken with
  | nil => exact absurd (List.length_eq_zero_iff.mp (Nat.le_zero.mp (long [] found))) some_
  | cons c taken ih =>
    have least := long _ found
    rw [List.cons_append, afterFirst] at found ⊢
    split at found
    · rename_i begins
      have lengths := congrArg List.length (Option.some_inj.mp found)
      simp only [List.length_drop, List.length_cons, List.length_append] at lengths least
      obtain ⟨tail, split⟩ := List.isPrefixOf_iff_prefix.mp begins
      have same : needle = c :: taken := (List.append_inj split (by rw [List.length_cons]; omega)).1
      rw [same, if_pos (by simp), ← List.cons_append, List.drop_left]
    · rename_i other
      have short := long taken found
      rw [if_neg, ih found]
      intro begins
      have inside : needle <+: c :: taken :=
        List.prefix_of_prefix_length_le (List.isPrefixOf_iff_prefix.mp begins) ⟨left', rfl⟩ (by rw [List.length_cons]; omega)
      exact other (List.isPrefixOf_iff_prefix.mpr (inside.trans ⟨left, rfl⟩))

theorem quoted_body {quote : Char} {text : List Char} (region : afterQuoted quote text = left) (some_ : left ≠ []) :
    ∃ body, text = body ++ quote :: left ∧ encloses quote false body = true ∧ left.head? ≠ some quote := by
  fun_induction afterQuoted quote text with
  | case1 => exact absurd region.symm some_
  | case2 further ih =>
    obtain ⟨body, rfl, closed, apart⟩ := ih region
    exact ⟨quote :: quote :: body, rfl, by simpa [encloses] using closed, apart⟩
  | case3 d further closes =>
    subst region
    exact ⟨[], rfl, rfl, by simpa using closes⟩
  | case4 => exact absurd region.symm some_
  | case5 c rest other ih =>
    obtain ⟨body, rfl, closed, apart⟩ := ih region
    exact ⟨c :: body, rfl, by rwa [encloses_other other (by simp)], apart⟩

/-- A quoted run is over at the first quote that is not doubled. -/
theorem quoted_closes {quote : Char} {body : List Char} (closed : encloses quote false body = true) (apart : left.head? ≠ some quote) :
    afterQuoted quote (body ++ quote :: left) = left := by
  fun_induction encloses quote false body with
  | case1 =>
    cases left with
    | nil => simp [afterQuoted]
    | cons d further =>
      have other : d ≠ quote := by simpa using apart
      simp [afterQuoted, other]
  | case2 c' more ih =>
    rw [Bool.and_eq_true, beq_iff_eq] at closed
    obtain ⟨rfl, others⟩ := closed
    simpa [afterQuoted] using ih others
  | case3 => cases closed
  | case4 c other escape => exact absurd escape.2 (by simp)
  | case5 c other escape => exact absurd escape.2 (by simp)
  | case6 c rest other plain ih =>
    rw [List.cons_append, afterQuoted.eq_def]
    simpa only [if_neg other] using ih closed

theorem block_closes {depth : Nat} {text : List Char} (region : afterBlock depth text = left) (some_ : left ≠ []) :
    ∃ body, text = body ++ left ∧ ∀ left', afterBlock depth (body ++ left') = left' := by
  fun_induction afterBlock depth text with
  | case1 text =>
    subst region
    exact ⟨[], rfl, fun left' => by rw [List.nil_append, afterBlock]⟩
  | case2 => exact absurd region.symm some_
  | case3 depth c d further opens ih =>
    obtain ⟨body, rfl, closes⟩ := ih region
    have star : d = '*' := by simpa using opens.2
    exact ⟨c :: d :: body, rfl, fun left' => by simpa [afterBlock, opens.1, star] using closes left'⟩
  | case4 => exact absurd region.symm some_
  | case5 depth c d further opens ends ih =>
    obtain ⟨body, rfl, closes⟩ := ih region
    have slash : d = '/' := by simpa using ends.2
    exact ⟨c :: d :: body, rfl, fun left' => by simpa [afterBlock, ends.1, slash] using closes left'⟩
  | case6 => exact absurd region.symm some_
  | case7 depth c rest opens ends ih =>
    obtain ⟨body, rfl, closes⟩ := ih region
    cases body with
    | nil =>
      -- Inside of a comment one more character is no end.
      have wrong := closes [' ']
      simp [afterBlock] at wrong
    | cons d body =>
      refine ⟨c :: d :: body, rfl, fun left' => ?_⟩
      rw [List.cons_append, afterBlock.eq_def]
      exact (if_neg opens).trans ((if_neg ends).trans (closes left'))

theorem index_closes {needle text : List Char} (some_ : needle ≠ []) (region : afterIndex needle text = left) (left_some : left ≠ []) :
    ∃ taken, text = taken ++ left ∧ ∀ left', afterIndex needle (taken ++ left') = left' := by
  cases found : afterFirst needle text with
  | none =>
    rw [afterIndex, found] at region
    exact absurd region.symm left_some
  | some rest =>
    rw [afterIndex, found, Option.getD_some] at region
    subst region
    obtain ⟨front, split, -⟩ := afterFirst_spec some_ found
    refine ⟨front ++ needle, by rw [split, List.append_assoc], fun left' => ?_⟩
    rw [split, ← List.append_assoc] at found
    rw [afterIndex, afterFirst_local some_ found, Option.getD_some]

theorem dollarQuoteOpen_spec {text opening body : List Char} (found : dollarQuoteOpen text = some (opening, body)) :
    ∃ name, (∀ c ∈ name, inName c = true) ∧ name.head?.all startsName = true ∧ opening = '$' :: (name ++ ['$']) ∧
      text = name ++ '$' :: body := by
  rw [dollarQuoteOpen] at found
  split at found
  · rename_i rest shape
    split at found
    · rename_i starts
      cases found
      refine ⟨text.takeWhile inName, List.all_eq_true.mp List.all_takeWhile, starts, rfl, ?_⟩
      rw [← shape, List.takeWhile_append_dropWhile]
    · cases found
  · cases found

theorem dollarQuoteOpen_name {name : List Char} (inside : ∀ c ∈ name, inName c = true) (body : List Char) :
    dollarQuoteOpen (name ++ '$' :: body) = if name.head?.all startsName = true then some ('$' :: (name ++ ['$']), body) else none := by
  have dollar : inName '$' = false := by decide
  have taken : (name ++ '$' :: body).takeWhile inName = name := by
    rw [List.takeWhile_append_of_pos inside, List.takeWhile_cons_of_neg (by simp [dollar]), List.append_nil]
  have dropped : (name ++ '$' :: body).dropWhile inName = '$' :: body := by
    rw [List.dropWhile_append_of_pos inside, List.dropWhile_cons_of_neg (by simp [dollar])]
  rw [dollarQuoteOpen, dropped]
  simp only [taken]

/-- A region after which something is left ends by itself, whatever else comes after it. -/
theorem region_closes {c : Char} {rest : List Char} (region : regionAt c rest = some left) (some_ : left ≠ []) :
    ∃ taken, rest = taken ++ left ∧ (c ∈ ['\'', '"', '\x60'] → taken.getLast? = some c ∧ left.head? ≠ some c) ∧
      ∀ left', (c ∈ ['\'', '"', '\x60'] → left'.head? ≠ some c) → regionAt c (taken ++ left') = some left' := by
  rw [regionAt] at region
  split at region
  · rename_i quote
    obtain ⟨body, rfl, closed, apart⟩ := quoted_body (Option.some_inj.mp region) some_
    refine ⟨body ++ [c], by simp, fun _ => ⟨by simp, apart⟩, fun left' apart' => ?_⟩
    rw [regionAt, if_pos quote, List.append_assoc, List.singleton_append, quoted_closes closed (apart' quote)]
  rename_i noQuote
  split at region
  · rename_i dashes
    obtain ⟨taken, rfl, closes⟩ := index_closes (by simp) (Option.some_inj.mp region) some_
    refine ⟨taken, rfl, fun quote => absurd quote noQuote, fun left' _ => ?_⟩
    have more : taken ≠ [] := by
      rintro rfl
      exact absurd (closes [' ']) (by decide)
    rw [List.head?_append_of_ne_nil _ more] at dashes
    rw [regionAt, if_neg noQuote, List.head?_append_of_ne_nil _ more, if_pos dashes, closes]
  rename_i noDashes
  split at region
  · rename_i opens
    obtain ⟨rfl, star⟩ := opens
    cases rest with
    | nil => cases star
    | cons d further =>
      obtain ⟨body, rfl, closes⟩ := block_closes (Option.some_inj.mp region) some_
      refine ⟨d :: body, rfl, fun quote => absurd quote noQuote, fun left' _ => ?_⟩
      rw [regionAt, if_neg noQuote, if_neg (by simp), if_pos ⟨rfl, star⟩, List.cons_append, List.tail_cons, closes]
  rename_i noBlock
  split at region
  · rename_i dollar
    obtain ⟨⟨opening, body⟩, found, after⟩ := Option.map_eq_some_iff.mp region
    obtain ⟨name, inside, starts, rfl, rfl⟩ := dollarQuoteOpen_spec found
    obtain ⟨taken, rfl, closes⟩ := index_closes (by simp) after some_
    refine ⟨name ++ '$' :: taken, by simp, fun quote => absurd quote noQuote, fun left' _ => ?_⟩
    subst dollar
    rw [regionAt, if_neg noQuote, if_neg (by simp), if_neg (by simp), if_pos rfl, List.append_assoc, List.cons_append,
      dollarQuoteOpen_name inside, if_pos starts, Option.map_some, closes]
  · cases region

end Local

section Cells

/-- The characters and slots of a text from an index on, each slot with the number of question marks up to it. -/
def cutFrom : Nat → Nat → List Char → List Char → List (Char ⊕ (PlaceholderMatch × Nat))
  | 0, _, _, _ => []
  | _ + 1, _, _, [] => []
  | fuel + 1, n, before, c :: rest =>
    let (slot, left) := scanAt before.head? c rest
    let passed := (c :: rest).take ((c :: rest).length - left.length)
    match slot with
    | none => passed.map .inl ++ cutFrom fuel n (passed.reverse ++ before) left
    | some token =>
      let n' := if token = ['?'] then n + 1 else n
      .inr (⟨token, units before, units before + units token⟩, n') :: cutFrom fuel n' (passed.reverse ++ before) left

def cells (sql : List Char) : List (Char ⊕ (PlaceholderMatch × Nat)) := cutFrom (sql.length + 1) 0 [] sql

theorem written_chars (text : PlaceholderMatch × Nat → List Char) (chars : List Char) (rest : List (Char ⊕ (PlaceholderMatch × Nat))) :
    written text (chars.map .inl ++ rest) = chars ++ written text rest := by
  simp [written, List.flatMap_append, List.flatMap_map]

/-- Cutting does what filling does. -/
theorem weave_cut (text : PlaceholderMatch × Nat → List Char) (fuel n : Nat) (sql done between rest : List Char)
    (split : sql = done ++ (between ++ rest)) (enough : rest.length < fuel) :
    weave (slice sql) (fun place => dropUnits place sql) (fun s => s.1.start) (fun s => s.1.stop) text
      (units done) (numberSlots n (scanFrom fuel (done ++ between).reverse rest)) =
        between ++ written text (cutFrom fuel n (done ++ between).reverse rest) := by
  induction fuel generalizing n done between rest with
  | zero => omega
  | succ fuel ih =>
    cases rest with
    | nil => rw [scanFrom, numberSlots, weave, split, dropUnits_append, cutFrom]; rfl
    | cons c rest =>
      obtain ⟨taken, parts, token_spec⟩ := scanAt_passed (done ++ between).reverse.head? c rest
      rw [scanFrom, cutFrom]
      generalize scanAt (done ++ between).reverse.head? c rest = turn at parts token_spec
      obtain ⟨slot, left⟩ := turn
      change rest = taken ++ left at parts
      subst parts
      rw [List.length_cons, List.length_append] at enough
      simp only [passed_taken]
      cases slot with
      | none =>
        have later := ih n done (between ++ c :: taken) left (by rw [split]; simp) (by omega)
        have same : (c :: taken).reverse ++ (done ++ between).reverse = (done ++ (between ++ c :: taken)).reverse := by simp
        simp only [same, written_chars]
        simpa using later
      | some token =>
        obtain ⟨rfl, -⟩ := token_spec token rfl
        have whole : sql = done ++ between ++ (c :: taken) ++ ([] ++ left) := by rw [split]; simp
        have from_ : units (done ++ between).reverse = units (done ++ between) := units_reverse _
        have to_ : units (done ++ between) + units (c :: taken) = units (done ++ between ++ c :: taken) := (units_append _ _).symm
        have later := fun n' => ih n' (done ++ between ++ c :: taken) [] left whole (by omega)
        have same : (c :: taken).reverse ++ (done ++ between).reverse = (done ++ between ++ c :: taken ++ []).reverse := by simp
        have here : slice sql (units done) (units (done ++ between)) = between := by
          rw [split]
          exact slice_between done between _
        simp only [Option.map_some, Option.toList_some, List.singleton_append, numberSlots, weave, from_, to_, same, later, here]
        rfl

theorem fillSlots_cells (sql : List Char) (text : PlaceholderMatch × Nat → List Char) : fillSlots sql text = written text (cells sql) :=
  weave_cut text _ 0 sql [] [] sql rfl (Nat.lt_succ_self _)

/-- The places are the slots. -/
theorem cut_places (fuel n : Nat) (before rest : List Char) :
    (cutFrom fuel n before rest).filterMap Sum.getRight? = numberSlots n (scanFrom fuel before rest) := by
  induction fuel generalizing n before rest with
  | zero => rfl
  | succ fuel ih =>
    cases rest with
    | nil => rfl
    | cons c rest =>
      rw [scanFrom, cutFrom]
      generalize scanAt before.head? c rest = turn
      obtain ⟨slot, left⟩ := turn
      cases slot with
      | none =>
        simp only [List.filterMap_append, List.filterMap_map, ih]
        simp [Function.comp_def]
      | some token => simp only [List.filterMap_cons, Sum.getRight?_inr, ih, Option.map_some, Option.toList_some,
          List.singleton_append, numberSlots]

end Cells

end Rdst.Web.SqlParameters
