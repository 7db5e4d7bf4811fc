import Rdst.Lib.Numerals
import Rdst.Registry.PromptedValues

namespace Rdst.Registry.Prompted

open PyText Regex Slots SqlLexer ReplaceAll
open Library.Listing (maskStringLiterals pgParam)
open Positional (dollarSlots dollarWidth questionWidth)
open Fallback (stringLiteral)

variable {tables : Tables} {d : Dialect} {sql : List Char} {values : List (Int × Value)}

section Numbers

theorem dollarName_digits (n : Nat) : dollarName ((n : Int) - 1) = '$' :: Nat.toDigits 10 n := by
  rw [dollarName, Int.sub_add_cancel]
  exact congrArg ('$' :: ·) String.toList_ofList

/-- A number whose digits begin another's is not larger. -/
theorem le_of_digits {m n : Nat} (begins : Nat.toDigits 10 m <+: Nat.toDigits 10 n) : m ≤ n := by
  obtain ⟨rest, whole⟩ := begins
  have read := congrArg (fun text => Nat.ofDigitChars 10 text 0) whole
  simp only [Nat.ofDigitChars_append, Nat.ofDigitChars_toDigits (by decide : 1 < 10) (by decide)] at read
  rw [← read, Nat.ofDigitChars_eq_ofDigitChars_zero]
  have wider : 1 ≤ 10 ^ rest.length := Nat.one_le_pow _ _ (by decide)
  nlinarith

end Numbers

section Search

/-- A `$` before a decimal is found. -/
theorem search_dollar (text : List Char) : (search (pgParam tables) text).isSome = true ↔
    ∃ before c rest, text = before ++ '$' :: c :: rest ∧ isDecimal tables c = true := by
  constructor
  · intro found
    obtain ⟨⟨c, e⟩, hit⟩ := Option.isSome_iff_exists.mp found
    obtain ⟨⟨middle, ⟨x, rest, starts, mark, rfl⟩, ⟨last, ⟨y, more, next, decimal, -⟩, -⟩⟩, whole⟩ := search_moves hit
    have dollar : x = '$' := by simpa using mark
    have follows : rest = y :: more := next
    exact ⟨c.before.reverse, y, more, by rw [← whole, starts, dollar, follows], decimal⟩
  · rintro ⟨before, c, rest, rfl, decimal⟩
    apply search_isSome (Consumes.before (consumes_char _))
    intro groups
    exact ⟨_, _, ⟨'$', c :: rest, rfl, rfl, rfl⟩, _, ⟨c, rest, rfl, decimal, rfl⟩, .refl⟩

end Search

section Cells

variable {width : List Char → Option Nat} {index : Nat → List Char → Int}

theorem cellsFrom_pass (s : State) (number n : Nat) (text mask : List Char) :
    cellsFrom d width index s number n text mask =
      cellsFrom d width index (scan d s (text.take n)) number 0 (text.drop n) (mask.drop n) := by
  induction n generalizing s text mask with
  | zero => cases text <;> rfl
  | succ n ih =>
    cases text with
    | nil => rfl
    | cons c text =>
      cases mask with
      | nil => cases hd : text.drop n <;> simp [cellsFrom, hd]
      | cons m mask => exact ih (feed d s c) text mask

/-- The mask shows the text at its slots. -/
def Faithful (width : List Char → Option Nat) (text mask : List Char) : Prop :=
  text.length = mask.length ∧ ∀ i n, width (mask.drop i) = some n →
    0 < n ∧ n ≤ (text.drop i).length ∧ (mask.drop i).take n = (text.drop i).take n

theorem Faithful.drop {text mask : List Char} (faithful : Faithful width text mask) (k : Nat) :
    Faithful width (text.drop k) (mask.drop k) := by
  refine ⟨by rw [List.length_drop, List.length_drop, faithful.1], fun i n wide => ?_⟩
  rw [List.drop_drop] at wide ⊢
  rw [List.drop_drop]
  exact faithful.2 _ n wide

/-- What can be proved of the cells from a slot and the text behind it. -/
theorem cells_induction {motive : State → Nat → List Char → List Char → Prop}
    (nil : ∀ s number, motive s number [] [])
    (char : ∀ s number c m text mask, width (m :: mask) = none → Faithful width text mask →
      motive (feed d s c) number text mask → motive s number (c :: text) (m :: mask))
    (slot : ∀ s number c m text mask n, width (m :: mask) = some (n + 1) → n ≤ text.length →
      (m :: mask).take (n + 1) = (c :: text).take (n + 1) → Faithful width (text.drop n) (mask.drop n) →
      motive (scan d s ((c :: text).take (n + 1))) (number + 1) (text.drop n) (mask.drop n) →
      motive s number (c :: text) (m :: mask))
    (s : State) (number : Nat) (text mask : List Char) (faithful : Faithful width text mask) : motive s number text mask := by
  generalize long : text.length = k
  induction k using Nat.strong_induction_on generalizing s number text mask with
  | _ k ih =>
    cases text with
    | nil =>
      cases mask with
      | nil => exact nil s number
      | cons m mask => exact absurd faithful.1 (by simp)
    | cons c text =>
      cases mask with
      | nil => exact absurd faithful.1 (by simp)
      | cons m mask =>
        have later := faithful.drop 1
        cases wide : width (m :: mask) with
        | none =>
          exact char s number c m text mask wide later (ih text.length (by rw [← long]; exact Nat.lt_succ_self _) _ _ text mask later rfl)
        | some k' =>
          obtain ⟨some_, within, token⟩ := faithful.2 0 k' wide
          obtain ⟨n, rfl⟩ := Nat.exists_eq_succ_of_ne_zero (Nat.ne_of_gt some_)
          have rest := faithful.drop (n + 1)
          refine slot s number c m text mask n wide (Nat.le_of_succ_le_succ within) token rest (ih _ ?_ _ _ _ _ rest rfl)
          rw [← long, List.length_drop, List.length_cons]
          omega

/-- A slot and what stands behind it. -/
theorem cellsFrom_slot (s : State) (number : Nat) (c m : Char) (text mask : List Char) {n : Nat}
    (wide : width (m :: mask) = some (n + 1)) :
    cellsFrom d width index s number 0 (c :: text) (m :: mask) =
      .inr ⟨(m :: mask).take (n + 1), index number ((m :: mask).take (n + 1)), inLiteral d s.mode⟩ ::
        cellsFrom d width index (scan d s ((c :: text).take (n + 1))) (number + 1) 0 (text.drop n) (mask.drop n) := by
  rw [cellsFrom, wide]
  simp only [Nat.add_sub_cancel]
  rw [cellsFrom_pass]
  rfl

theorem cellsFrom_char (s : State) (number : Nat) (c m : Char) (text mask : List Char) (narrow : width (m :: mask) = none) :
    cellsFrom d width index s number 0 (c :: text) (m :: mask) =
      .inl c :: cellsFrom d width index (feed d s c) number 0 text mask := by
  rw [cellsFrom, narrow]

/-- The cells spell the text. -/
theorem spell_cells (s : State) (number : Nat) {text mask : List Char} (faithful : Faithful width text mask) :
    (cellsFrom d width index s number 0 text mask).flatMap (write Spot.token) = text := by
  apply cells_induction (d := d)
    (motive := fun s number text mask => (cellsFrom d width index s number 0 text mask).flatMap (write Spot.token) = text)
    _ _ _ s number text mask faithful
  · intro s number
    rfl
  · intro s number c m text mask narrow _ ih
    rw [cellsFrom_char _ _ _ _ _ _ narrow, List.flatMap_cons, ih]
    rfl
  · intro s number c m text mask n wide _ token _ ih
    rw [cellsFrom_slot _ _ _ _ _ _ wide, List.flatMap_cons, ih, write, Sum.elim_inr, token]
    exact List.take_append_drop (n + 1) (c :: text)

/-- The placeholders of the cells are those of the mask. -/
theorem spots_tokens (s : State) (number : Nat) {text mask : List Char} (faithful : Faithful width text mask) :
    (spots (cellsFrom d width index s number 0 text mask)).map Spot.token = tokens width 0 mask := by
  apply cells_induction (d := d)
    (motive := fun s number text mask =>
      (spots (cellsFrom d width index s number 0 text mask)).map Spot.token = tokens width 0 mask)
    _ _ _ s number text mask faithful
  · intro s number
    rfl
  · intro s number c m text mask narrow _ ih
    rw [cellsFrom_char _ _ _ _ _ _ narrow, tokens, narrow]
    exact ih
  · intro s number c m text mask n wide _ _ _ ih
    rw [cellsFrom_slot _ _ _ _ _ _ wide, tokens, wide]
    simp only [Nat.add_sub_cancel]
    rw [tokens_pass, ← ih]
    rfl

end Cells

section Masks

/-- A slot of the mask is a dollar sign and its number. -/
theorem dollar_slot {b : Positional.Scan} {text : List Char} {n : Nat}
    (wide : dollarWidth tables (Positional.visible tables b text) = some n) :
    ∃ rest, text = '$' :: rest ∧ rest.takeWhile (isDecimal tables) ≠ [] ∧
      n = (rest.takeWhile (isDecimal tables)).length + 1 ∧
      (Positional.visible tables b text).take n = '$' :: rest.takeWhile (isDecimal tables) := by
  cases text with
  | nil => cases wide
  | cons c rest =>
    by_cases slot : c = '$' ∧ Positional.scanNumber tables b rest ≠ []
    · obtain ⟨rfl, some_⟩ := slot
      have code : b = .code := by
        by_contra other
        exact some_ (if_neg other)
      subst code
      rw [Positional.scanNumber, if_pos rfl] at some_
      have same := Positional.visible_number some_
      rw [Positional.visible_slot some_, dollarWidth, same, if_pos ⟨rfl, some_⟩] at wide
      refine ⟨rest, rfl, some_, (Option.some.inj wide).symm, ?_⟩
      rw [Positional.visible_slot some_, ← Option.some.inj wide, List.take_succ_cons, ← same]
      exact congrArg _ (List.prefix_iff_eq_take.mp (List.takeWhile_prefix _)).symm
    · rw [Positional.dollarWidth_none slot] at wide
      cases wide

theorem dollar_faithful (sql : List Char) : Faithful (dollarWidth tables) sql (maskStringLiterals tables sql) := by
  rw [Positional.mask_visible]
  refine ⟨(Positional.visible_length _ _).symm, fun i n wide => ?_⟩
  rw [Positional.visible_drop] at wide ⊢
  obtain ⟨rest, text, some_, rfl, token⟩ := dollar_slot wide
  have shorter := (List.takeWhile_prefix (isDecimal tables) (l := rest)).length_le
  refine ⟨Nat.succ_pos _, by rw [text, List.length_cons]; omega, ?_⟩
  rw [token, text, List.take_succ_cons]
  exact congrArg _ (List.prefix_iff_eq_take.mp (List.takeWhile_prefix _))

/-- Behind a number stands no decimal. -/
theorem dollar_stops (sql : List Char) {n i : Nat} (wide : dollarWidth tables ((maskStringLiterals tables sql).drop i) = some n) :
    ∀ c ∈ (sql.drop (i + n)).head?, isDecimal tables c = false := by
  rw [Positional.mask_visible, Positional.visible_drop] at wide
  obtain ⟨rest, text, -, rfl, -⟩ := dollar_slot wide
  rw [← List.drop_drop, text, List.drop_succ_cons]
  have left : rest.drop (rest.takeWhile (isDecimal tables)).length = rest.dropWhile (isDecimal tables) := by
    have whole := List.takeWhile_append_dropWhile (p := isDecimal tables) (l := rest)
    calc rest.drop (rest.takeWhile (isDecimal tables)).length
        = (rest.takeWhile (isDecimal tables) ++ rest.dropWhile (isDecimal tables)).drop
            (rest.takeWhile (isDecimal tables)).length := by rw [whole]
      _ = rest.dropWhile (isDecimal tables) := List.drop_left
  rw [left]
  intro c first
  have stops := List.head?_dropWhile_not (isDecimal tables) rest
  rw [Option.mem_def.mp first] at stops
  simpa using stops

/-- The mask shows the text outside of the literals. -/
theorem mask_shows (sql : List Char) : List.Forall₂ (fun m c => m = c ∨ m = '\x00') (questionMask sql) sql := by
  have pieces : ∀ pieces : List (Char ⊕ List Char), List.Forall₂ (fun m c => m = c ∨ m = '\x00')
      (pieces.flatMap (Sum.elim (fun x => [x]) fun word => List.replicate word.length '\x00')) (uncut pieces) := by
    intro pieces
    induction pieces with
    | nil => exact .nil
    | cons piece pieces ih =>
      refine List.rel_append ?_ ih
      cases piece with
      | inl c => exact .cons (.inl rfl) .nil
      | inr word =>
        induction word with
        | nil => exact .nil
        | cons c word step => exact .cons (.inr rfl) step
  have whole := pieces (cut (matchAt stringLiteral) sql)
  rwa [← sub_cut, uncut_cut (takes_matchAt _)] at whole

theorem question_faithful (sql : List Char) : Faithful questionWidth sql (questionMask sql) := by
  refine ⟨(mask_shows sql).length_eq.symm, fun i n wide => ?_⟩
  have shows := List.forall₂_drop i (mask_shows sql)
  cases masked : (questionMask sql).drop i with
  | nil =>
    rw [masked] at wide
    cases wide
  | cons m mask =>
    rw [masked] at wide shows
    rw [questionWidth] at wide
    split at wide
    · rename_i mark
      cases wide
      cases text : sql.drop i with
      | nil =>
        rw [text] at shows
        cases shows
      | cons c rest =>
        rw [text] at shows
        cases shows with
        | cons here _ =>
          rcases here with rfl | blank
          · simp
          · rw [mark] at blank
            exact absurd blank (by decide)
    · cases wide

end Masks

section Rounds

variable {cs : List (Char ⊕ Spot)}

/-- No text has a `$` before a digit. -/
def Quiet (text : List Char) : Prop := ∀ before c rest, text = before ++ '$' :: c :: rest → c.isDigit = false

/-- The placeholders are written plainly, and none right behind another. -/
structure Laid (cs : List (Char ⊕ Spot)) : Prop where
  plain : ∀ spot, .inr spot ∈ cs → ∃ n : Nat, spot.index = (n : Int) - 1 ∧ spot.token = '$' :: Nat.toDigits 10 n
  stops : ∀ before spot cell rest, cs = before ++ .inr spot :: cell :: rest → ∃ c, cell = .inl c ∧ c.isDigit = false

variable (tables) (values)

def valueOf (spot : Spot) : List Char := valueText tables (valueAt values spot.index)

/-- The placeholders after the rounds of some positions. -/
def stage (done : List Int) (spot : Spot) : List Char := if spot.index ∈ done then valueOf tables values spot else spot.token

variable {tables} {values}

theorem valueText_some (value : Value) : valueText tables value ≠ [] := by
  cases value with
  | int n =>
    cases n with
    | ofNat n =>
      have shape : (toString n).toList = Nat.toDigits 10 n := String.toList_ofList
      show (toString n).toList ≠ []
      rw [shape]
      exact Nat.toDigits_ne_nil
    | negSucc n =>
      show ("-" ++ toString (n + 1)).toList ≠ []
      simp
  | text s =>
    rw [valueText]
    split
    · rename_i plain
      exact plain.1
    · exact List.cons_ne_nil _ _

/-- Where the filled text goes on with a digit after a part, it does so at the end. -/
theorem head_stage (laid : Laid cs) (done : List Int) {before rest : List (Char ⊕ Spot)} (split : cs = before ++ rest) {x : Char}
    (digit : x.isDigit = true) {tail : List Char} (head : rest.flatMap (write (stage tables values done)) = x :: tail) :
    ∃ tail', rest.flatMap (write (valueOf tables values)) = x :: tail' := by
  cases rest with
  | nil => cases head
  | cons cell rest =>
    rw [List.flatMap_cons] at head ⊢
    cases cell with
    | inl c => exact ⟨_, congrArg (· :: _) (List.cons.inj head).1⟩
    | inr spot =>
      simp only [write, Sum.elim_inr] at head ⊢
      by_cases inside : spot.index ∈ done
      · rw [stage, if_pos inside] at head
        obtain ⟨y, more, shape⟩ := List.exists_cons_of_ne_nil (@valueText_some tables (valueAt values spot.index))
        rw [valueOf, shape] at head ⊢
        exact ⟨_, congrArg (· :: _) (List.cons.inj head).1⟩
      · obtain ⟨n, -, token⟩ := laid.plain spot (by rw [split]; simp)
        rw [stage, if_neg inside, token] at head
        have dollar := (List.cons.inj head).1
        rw [← dollar] at digit
        exact absurd digit (by decide)

/-- No name begins in a part that is filled already. -/
theorem filled_apart (laid : Laid cs) (quiet : Quiet (cs.flatMap (write (valueOf tables values)))) (done : List Int)
    {before rest : List (Char ⊕ Spot)} {cell : Char ⊕ Spot} (split : cs = before ++ cell :: rest)
    {front back : List Char} (part : write (valueOf tables values) cell = front ++ back) (some_ : back ≠ []) (n : Nat) :
    ¬ '$' :: Nat.toDigits 10 n <+: back ++ rest.flatMap (write (stage tables values done)) := by
  rintro ⟨more, begins⟩
  obtain ⟨x, digits, number⟩ := List.exists_cons_of_ne_nil (@Nat.toDigits_ne_nil n 10)
  have digit : x.isDigit = true := Numerals.toDigits_digits n x (by rw [number]; exact List.mem_cons_self)
  have last : ∃ tail, back ++ rest.flatMap (write (valueOf tables values)) = '$' :: x :: tail := by
    rw [number] at begins
    cases back with
    | nil => exact absurd rfl some_
    | cons y back =>
      rw [List.cons_append, List.cons_append, List.cons_append, List.cons.injEq] at begins
      obtain ⟨dollar, begins⟩ := begins
      rw [← dollar]
      cases back with
      | nil =>
        obtain ⟨tail, later⟩ := head_stage laid done (split.trans (List.append_cons before cell rest)) digit begins.symm
        exact ⟨tail, by rw [List.cons_append, List.nil_append, later]⟩
      | cons z back =>
        have same : x = z := (List.cons.inj begins).1
        exact ⟨_, by rw [same]; rfl⟩
  obtain ⟨tail, last⟩ := last
  have whole : cs.flatMap (write (valueOf tables values)) =
      before.flatMap (write (valueOf tables values)) ++ front ++ '$' :: x :: tail := by
    rw [split, List.flatMap_append, List.flatMap_cons, part, List.append_assoc, last, List.append_assoc]
  rw [quiet _ _ _ whole] at digit
  cases digit

/-- No larger number begins in a placeholder that is not filled. -/
theorem number_apart (laid : Laid cs) (done : List Int) {before rest : List (Char ⊕ Spot)} {spot : Spot}
    (split : cs = before ++ .inr spot :: rest) {m n : Nat} (smaller : m < n) {front back : List Char} (part : '$' :: Nat.toDigits 10 m = front ++ back) (some_ : back ≠ []) :
    ¬ '$' :: Nat.toDigits 10 n <+: back ++ rest.flatMap (write (stage tables values done)) := by
  rintro ⟨more, begins⟩
  cases front with
  | cons c front =>
    -- Inside of the number no name begins.
    rw [List.cons_append, List.cons.injEq] at part
    obtain ⟨y, tail, rfl⟩ := List.exists_cons_of_ne_nil some_
    have digit := Numerals.toDigits_digits m y (by rw [part.2]; simp)
    rw [List.cons_append, List.cons_append, List.cons.injEq] at begins
    rw [← begins.1] at digit
    exact absurd digit (by decide)
  | nil =>
    rw [List.nil_append] at part
    rw [← part, List.cons_append, List.cons_append, List.cons.injEq] at begins
    have numbers := begins.2
    rcases List.prefix_or_prefix_of_prefix ⟨more, numbers⟩ (List.prefix_append (Nat.toDigits 10 m) _) with larger | longer
    · exact absurd (le_of_digits larger) (by omega)
    · obtain ⟨extra, whole⟩ := longer
      rw [← whole, List.append_assoc, List.append_cancel_left_eq] at numbers
      cases extra with
      | nil =>
        rw [List.append_nil] at whole
        have smaller' : n ≤ m := le_of_digits ⟨[], by rw [List.append_nil, whole]⟩
        omega
      | cons x extra =>
        have digit := Numerals.toDigits_digits n x (by rw [← whole]; simp)
        cases rest with
        | nil => cases numbers
        | cons cell rest =>
          obtain ⟨c, rfl, stops⟩ := laid.stops before spot cell rest split
          rw [← (List.cons.inj numbers).1, digit] at stops
          cases stops

/-- One round of the loop fills the placeholders of its position, and nothing else. -/
theorem round_fills (laid : Laid cs) (quiet : Quiet (cs.flatMap (write (valueOf tables values)))) (done : List Int) {n : Nat}
    (later : ∀ spot, .inr spot ∈ cs → spot.index ∈ done ∨ spot.index ≤ (n : Int) - 1) {value : Value}
    (given : valueAt values ((n : Int) - 1) = value) :
    replaceRound tables (cs.flatMap (write (stage tables values done))) ((n : Int) - 1, value) =
      cs.flatMap (write (stage tables values (((n : Int) - 1) :: done))) := by
  rw [replaceRound, dollarName_digits]
  apply replaceAll_flatMap (List.cons_ne_nil _ _)
  intro before cell rest split
  cases cell with
  | inl c =>
    right
    exact ⟨rfl, fun front back part some_ => filled_apart laid quiet done split part some_ n⟩
  | inr spot =>
    have member : Sum.inr spot ∈ cs := by rw [split]; simp
    simp only [write, Sum.elim_inr]
    by_cases filled : spot.index ∈ done
    · right
      rw [stage, stage, if_pos filled, if_pos (List.mem_cons_of_mem _ filled)]
      exact ⟨rfl, fun front back part some_ => filled_apart laid quiet done split part some_ n⟩
    · obtain ⟨m, position, token⟩ := laid.plain spot member
      have behind := (later spot member).resolve_left filled
      rw [stage, stage, if_neg filled, token]
      by_cases own : m = n
      · left
        subst own
        rw [if_pos (by rw [position]; exact List.mem_cons_self), valueOf, position, given]
        exact ⟨rfl, rfl⟩
      · right
        rw [if_neg]
        · exact ⟨rfl, fun front back part some_ => number_apart laid done split (by omega) part some_⟩
        · intro inside
          rcases List.mem_cons.mp inside with same | old
          · omega
          · exact filled old

theorem rounds_fill (laid : Laid cs) (quiet : Quiet (cs.flatMap (write (valueOf tables values)))) (entries : List (Int × Value))
    (done : List Int) (falling : entries.Pairwise fun a b => b.1 < a.1)
    (numbers : ∀ entry ∈ entries, (∃ n : Nat, entry.1 = (n : Int) - 1) ∧ valueAt values entry.1 = entry.2)
    (all : ∀ spot, .inr spot ∈ cs → spot.index ∈ done ∨ spot.index ∈ entries.map Prod.fst) :
    entries.foldl (replaceRound tables) (cs.flatMap (write (stage tables values done))) =
      cs.flatMap (write (valueOf tables values)) := by
  induction entries generalizing done with
  | nil =>
    have same : ∀ cell ∈ cs, write (stage tables values done) cell = write (valueOf tables values) cell := by
      intro cell member
      cases cell with
      | inl c => rfl
      | inr spot =>
        have inside := (all spot member).resolve_right List.not_mem_nil
        exact if_pos inside
    exact List.flatMap_congr same
  | cons entry entries ih =>
    obtain ⟨position, value⟩ := entry
    obtain ⟨⟨n, here⟩, given⟩ := numbers (position, value) List.mem_cons_self
    have lower := (List.pairwise_cons.mp falling).1
    have step := round_fills laid quiet done (n := n) (fun spot member => ?_) (here ▸ given)
    · rw [List.foldl_cons, show (position, value) = ((n : Int) - 1, value) by rw [← here], step]
      apply ih _ (List.pairwise_cons.mp falling).2 fun entry member => numbers entry (List.mem_cons_of_mem _ member)
      intro spot member
      rcases all spot member with old | new
      · exact .inl (List.mem_cons_of_mem _ old)
      · rcases List.mem_cons.mp new with own | later
        · exact .inl (by rw [← here, ← own]; exact List.mem_cons_self)
        · exact .inr later
    · rcases all spot member with old | new
      · exact .inl old
      · right
        rcases List.mem_cons.mp new with own | later
        · rw [own, ← here]
        · obtain ⟨other, inside, same⟩ := List.mem_map.mp later
          have less := lower other inside
          rw [same, here] at less
          omega

theorem descending_perm (values : List (Int × Value)) : (descending values).Perm values := List.perm_insertionSort _ _

theorem descending_falling (nodup : (values.map Prod.fst).Nodup) : (descending values).Pairwise fun a b => b.1 < a.1 := by
  have sorted : (descending values).Pairwise fun a b : Int × Value => b.1 ≤ a.1 := List.pairwise_insertionSort _ _
  have apart : (descending values).Pairwise fun a b => a.1 ≠ b.1 :=
    List.pairwise_map.mp (((descending_perm values).map Prod.fst).nodup_iff.mpr nodup)
  exact (sorted.and apart).imp fun both => lt_of_le_of_ne both.1 (Ne.symm both.2)

theorem valueAt_entry (nodup : (values.map Prod.fst).Nodup) {entry : Int × Value} (member : entry ∈ values) :
    valueAt values entry.1 = entry.2 := by
  have found : values.find? (fun other => decide (other.1 = entry.1)) = some entry := by
    induction values with
    | nil => cases member
    | cons first rest ih =>
      rw [List.map_cons, List.nodup_cons] at nodup
      rcases List.mem_cons.mp member with rfl | later
      · simp
      · have other : first.1 ≠ entry.1 := fun same => nodup.1 (same ▸ List.mem_map_of_mem later)
        rw [List.find?_cons_of_neg (by simpa using other)]
        exact ih nodup.2 later
  rw [valueAt, found]
  rfl

end Rounds

end Rdst.Registry.Prompted
