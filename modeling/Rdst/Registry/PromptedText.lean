import Rdst.Registry.PromptedFill

namespace Rdst.Registry.Prompted

open PyText Regex Slots SqlLexer ReplaceAll
open Library.Listing (maskStringLiterals pgParam)
open Positional (dollarSlots dollarWidth questionWidth)
open Fallback (stringLiteral)

variable {tables : Tables} {d : Dialect} {sql : List Char} {values : List (Int × Value)} {cs : List (Char ⊕ Spot)}

section Literals

theorem doubling_length (p : Char → Prop) [DecidablePred p] (s : List Char) :
    (s.flatMap fun c => if p c then [c, c] else [c]).length = s.length + s.countP fun c => decide (p c) := by
  induction s with
  | nil => rfl
  | cons c s ih =>
    rw [List.flatMap_cons, List.length_append, ih, List.length_cons, List.countP_cons]
    by_cases twice : p c
    · simp only [twice, if_true, decide_true, List.length_cons, List.length_nil]
      omega
    · simp only [twice, if_false, decide_false, Bool.false_eq_true, List.length_cons, List.length_nil]
      omega

theorem countP_lt {p q : Char → Bool} (weaker : ∀ c, p c = true → q c = true) {c : Char} {s : List Char} (member : c ∈ s)
    (more : q c = true) (less : p c = false) : s.countP p < s.countP q := by
  obtain ⟨front, back, rfl⟩ := List.append_of_mem member
  have first := List.countP_mono_left (l := front) fun x _ => weaker x
  have last := List.countP_mono_left (l := back) fun x _ => weaker x
  rw [List.countP_append, List.countP_append, List.countP_cons, List.countP_cons, more, less]
  simp only [Bool.false_eq_true, if_false, if_true]
  omega

theorem quoted_eq (s : List Char) : quoted s = '\'' :: s.flatMap (fun c => if c = '\'' then [c, c] else [c]) ++ ['\''] := by
  have same : ∀ c : Char, (if c = '\'' then ['\'', '\''] else [c]) = if c = '\'' then [c, c] else [c] := by
    intro c
    split
    · rename_i quote
      rw [quote]
    · rfl
  simp only [quoted, same]

theorem isDigit_ascii {c : Char} (digit : c.isDigit = true) : isDigit tables c = true := by
  have ascii : isAscii c = true := isAlphanum_ascii (by simp [Char.isAlphanum, digit])
  rw [isDigit, if_pos ascii, digit]

/-- The text of a value is its literal for plain values only. -/
theorem valueText_literal (value : Value) : valueText tables value = literalOf d value ↔ Plain d tables value := by
  cases value with
  | int n => exact ⟨fun _ => trivial, fun _ => rfl⟩
  | text s =>
    have weaker : s.all Char.isDigit = true → s.all (isDigit tables) = true :=
      fun all => List.all_eq_true.mpr fun c member => isDigit_ascii (List.all_eq_true.mp all c member)
    rw [valueText, literalOf, Plain]
    by_cases bare : s ≠ [] ∧ s.all (isDigit tables) = true
    · rw [if_pos bare, if_pos bare]
      by_cases ascii : s.all Char.isDigit = true
      · rw [if_pos ⟨bare.1, ascii⟩]
        exact ⟨fun _ => ascii, fun _ => rfl⟩
      · rw [if_neg fun both => ascii both.2]
        refine ⟨fun same => ?_, fun plain => absurd plain ascii⟩
        have lengths := congrArg List.length same
        rw [List.length_append, List.length_cons, doubling_length] at lengths
        simp only [List.length_cons, List.length_nil] at lengths
        omega
    · rw [if_neg bare, if_neg bare, if_neg fun both => bare ⟨both.1, weaker both.2⟩, quoted_eq]
      constructor
      · intro same mysql inside
        have lengths := congrArg List.length same
        simp only [List.length_append, List.length_cons, doubling_length] at lengths
        have fewer : s.countP (fun c => decide (c = '\'')) < s.countP fun c => decide (c = '\'' ∨ (c = '\\' ∧ d = .mysql)) :=
          countP_lt (fun c quote => by simp_all) inside (by simp [mysql]) (by decide)
        omega
      · intro plain
        have same : ∀ c ∈ s, (if c = '\'' then [c, c] else [c]) = if c = '\'' ∨ (c = '\\' ∧ d = .mysql) then [c, c] else [c] := by
          intro c member
          have escaped : ¬ (c = '\\' ∧ d = .mysql) := fun both => plain both.2 (both.1 ▸ member)
          simp only [escaped, or_false]
        rw [List.flatMap_congr same]

end Literals

section Cells

theorem mem_spots {spot : Spot} : spot ∈ spots cs ↔ .inr spot ∈ cs := by
  rw [spots, List.mem_filterMap]
  constructor
  · rintro ⟨cell, member, right⟩
    cases cell with
    | inl c => cases right
    | inr other =>
      cases right
      exact member
  · exact fun member => ⟨.inr spot, member, rfl⟩

variable {width : List Char → Option Nat} {index : Nat → List Char → Int}

/-- What is true of every slot of the mask is true of every placeholder. -/
theorem spots_all {holds : List Char → Int → Prop} (every : ∀ m mask n k, width (m :: mask) = some n →
      holds ((m :: mask).take n) (index k ((m :: mask).take n)))
    (s : State) (number passing : Nat) (text mask : List Char) :
    ∀ spot ∈ spots (cellsFrom d width index s number passing text mask), holds spot.token spot.index := by
  induction text generalizing s number passing mask with
  | nil => exact fun _ none_ => absurd none_ (by cases passing <;> exact List.not_mem_nil)
  | cons c text ih =>
    cases mask with
    | nil => exact fun _ none_ => absurd none_ (by cases passing <;> exact List.not_mem_nil)
    | cons m mask =>
      cases passing with
      | succ passing => exact ih _ number passing mask
      | zero =>
        rw [cellsFrom]
        cases wide : width (m :: mask) with
        | none => exact ih _ number 0 mask
        | some n =>
          intro spot member
          rcases List.mem_cons.mp member with rfl | later
          · exact every m mask n number wide
          · exact ih _ _ _ mask spot later

/-- What cannot follow a slot in the text cannot follow it in the cells. -/
theorem cells_follow {bars : Char → Prop} (s : State) (number : Nat) {text mask : List Char} (faithful : Faithful width text mask)
    (follow : ∀ i n, width (mask.drop i) = some n → ∀ c ∈ (text.drop (i + n)).head?, ¬ bars c) :
    ∀ before spot c rest, cellsFrom d width index s number 0 text mask = before ++ .inr spot :: .inl c :: rest → ¬ bars c := by
  apply cells_induction (d := d)
    (motive := fun s number text mask =>
      (∀ i n, width (mask.drop i) = some n → ∀ c ∈ (text.drop (i + n)).head?, ¬ bars c) →
        ∀ (before : List (Char ⊕ Spot)) (spot : Spot) (c : Char) (rest : List (Char ⊕ Spot)),
          cellsFrom d width index s number 0 text mask = before ++ .inr spot :: .inl c :: rest → ¬ bars c)
    _ _ _ s number text mask faithful follow
  · intro s number _ before spot c rest split
    cases before <;> cases split
  · intro s number c m text mask narrow _ ih follow before spot c' rest split
    rw [cellsFrom_char _ _ _ _ _ _ narrow] at split
    cases before with
    | nil => cases split
    | cons cell before =>
      apply ih (fun i n wide => ?_) before spot c' rest (List.cons.inj split).2
      have shifted := follow (i + 1) n wide
      rwa [Nat.add_right_comm] at shifted
  · intro s number c m text mask n wide _ _ _ ih follow before spot c' rest split
    rw [cellsFrom_slot _ _ _ _ _ _ wide] at split
    have later : ∀ i k, width ((mask.drop n).drop i) = some k → ∀ c ∈ ((text.drop n).drop (i + k)).head?, ¬ bars c := by
      intro i k wider
      rw [List.drop_drop] at wider ⊢
      have shifted := follow (n + i + 1) k wider
      rwa [show n + i + 1 + k = (n + (i + k)) + 1 by omega] at shifted
    cases before with
    | cons cell before => exact ih later before spot c' rest (List.cons.inj split).2
    | nil =>
      have next := (List.cons.inj split).2
      have here := follow 0 (n + 1) wide
      rw [Nat.zero_add, List.drop_succ_cons] at here
      apply here
      cases left : text.drop n with
      | nil =>
        rw [left] at next
        cases next
      | cons x more =>
        rw [left] at next
        cases masked : mask.drop n with
        | nil =>
          rw [masked] at next
          cases next
        | cons y others =>
          rw [masked, cellsFrom] at next
          cases wider : width (y :: others) with
          | none =>
            rw [wider] at next
            have same := (List.cons.inj next).1
            cases same
            rfl
          | some k =>
            rw [wider] at next
            cases (List.cons.inj next).1

end Cells

section Listed

theorem positioned_ok {tokens : List (List Char)} {found : List (List Char × Int)} (listed : positioned tables tokens = .ok found) :
    found.map Prod.snd = tokens.map fun token => (number tables (token.drop 1) : Int) - 1 := by
  induction tokens generalizing found with
  | nil =>
    cases listed
    rfl
  | cons token tokens ih =>
    rw [positioned] at listed
    cases read : int tables (token.drop 1) with
    | error message =>
      rw [read] at listed
      cases listed
    | ok n =>
      have known : n = number tables (token.drop 1) := by
        unfold int at read
        split at read
        · cases read
        · exact (Except.ok.inj read).symm
      rw [read] at listed
      cases more : positioned tables tokens with
      | error message =>
        rw [more] at listed
        cases listed
      | ok rest =>
        rw [more] at listed
        cases listed
        rw [List.map_cons, List.map_cons, ih more, known]

end Listed

def touches : Char ⊕ Spot → Char ⊕ Spot → Bool
  | .inr spot, .inr _ => spot.token != ['?']
  | _, _ => false

/-- Each placeholder is written as its plain number, and none with a number stands right before another. -/
structure Plainly (cs : List (Char ⊕ Spot)) : Prop where
  named : ∀ spot ∈ spots cs, spot.token = ['?'] ∨ spot.token = dollarName spot.index
  apart : cs.IsChain fun first second => touches first second = false

/-- The placeholders stand outside of string literals, the values are quoted as they have to be, and the filled statement
shows no placeholder. -/
structure Ready (d : Dialect) (tables : Tables) (sql : List Char) (values : List (Int × Value)) : Prop where
  shown : ∀ spot ∈ spots (cells d tables sql), spot.hidden = false
  plain : ∀ spot ∈ spots (cells d tables sql), Plain d tables (valueAt values spot.index)
  resolved : hasUnresolvedPlaceholders tables (filled d tables values sql) = false

section Parts

theorem part_of_cell (value : Spot → List Char) {cell : Char ⊕ Spot} (member : cell ∈ cs) :
    ∃ before rest, cs.flatMap (write value) = before ++ (write value cell ++ rest) := by
  obtain ⟨before, rest, rfl⟩ := List.append_of_mem member
  exact ⟨_, _, by rw [List.flatMap_append, List.flatMap_cons]⟩

theorem resolved_quiet {text : List Char} (resolved : hasUnresolvedPlaceholders tables text = false) : Quiet text := by
  intro before c rest whole
  by_contra digit
  rw [Bool.not_eq_false] at digit
  have ascii : isAscii c = true := isAlphanum_ascii (by simp [Char.isAlphanum, digit])
  have found := (@search_dollar tables text).mpr ⟨before, c, rest, whole, by rw [isDecimal, if_pos ascii, digit]⟩
  rw [hasUnresolvedPlaceholders, found] at resolved
  cases resolved

theorem unresolved_of_dollar {before rest : List Char} {c : Char} (decimal : isDecimal tables c = true) :
    hasUnresolvedPlaceholders tables (before ++ '$' :: c :: rest) = true := by
  rw [hasUnresolvedPlaceholders, (search_dollar _).mpr ⟨before, c, rest, rfl, decimal⟩, Bool.true_or]

end Parts

section Dollars

variable (style : dollarSlots tables sql ≠ [])
include style

theorem dollar_cells : cells d tables sql = cellsFrom d (dollarWidth tables)
    (fun _ token => (number tables (token.drop 1) : Int) - 1) begin 0 0 sql (maskStringLiterals tables sql) := if_neg style

theorem dollar_spots : ∀ spot ∈ spots (cells d tables sql), spot.token.head? = some '$' ∧
    spot.index = (number tables (spot.token.drop 1) : Int) - 1 := by
  rw [dollar_cells style]
  apply @spots_all d (dollarWidth tables) _ fun token index =>
    token.head? = some '$' ∧ index = (number tables (token.drop 1) : Int) - 1
  intro m mask n k wide
  refine ⟨?_, rfl⟩
  rw [dollarWidth] at wide
  split at wide
  · rename_i slot
    rw [← Option.some.inj wide, slot.1]
    rfl
  · cases wide

theorem dollar_laid (plainly : Plainly (cells d tables sql)) : Laid (cells d tables sql) := by
  have named : ∀ spot, .inr spot ∈ cells d tables sql → spot.token = dollarName spot.index := by
    intro spot member
    rcases plainly.named spot (mem_spots.mpr member) with question | name
    · have head := (dollar_spots style spot (mem_spots.mpr member)).1
      rw [question] at head
      cases head
    · exact name
  refine ⟨fun spot member => ?_, fun before spot cell rest split => ?_⟩
  · have position := (dollar_spots style spot (mem_spots.mpr member)).2
    refine ⟨_, position, ?_⟩
    rw [← dollarName_digits, ← position, named spot member]
  · cases cell with
    | inr other =>
      have chain := plainly.apart
      rw [split, List.isChain_append] at chain
      have question : spot.token = ['?'] := by simpa [touches] using (List.isChain_cons_cons.mp chain.2.1).1
      have head := (dollar_spots style spot (mem_spots.mpr (by rw [split]; simp))).1
      rw [question] at head
      cases head
    | inl c =>
      refine ⟨c, rfl, ?_⟩
      rw [dollar_cells style] at split
      have other := @cells_follow d _ _ (fun c => isDecimal tables c = true) begin 0 _ _ (dollar_faithful sql)
        (fun i n wide c after => by simpa using dollar_stops sql wide c after) before spot c rest split
      by_contra digit
      rw [Bool.not_eq_false] at digit
      have ascii : isAscii c = true := isAlphanum_ascii (by simp [Char.isAlphanum, digit])
      exact other (by rw [isDecimal, if_pos ascii, digit])

theorem dollar_spell : (cells d tables sql).flatMap (write Spot.token) = sql := by
  rw [dollar_cells style]
  exact spell_cells begin 0 (dollar_faithful sql)

theorem dollar_tokens : (spots (cells d tables sql)).map Spot.token = (dollarSlots tables sql).map fun m => matched m.1 m.2 := by
  rw [dollar_cells style, spots_tokens begin 0 (dollar_faithful sql), dollarSlots,
    finditer_tokens (Positional.dollar_measures tables)]

/-- The positions that are listed are those of the placeholders. -/
theorem dollar_listed {found : List (List Char × Int)} (listed : detectPlaceholders tables sql = .ok found) :
    found.map Prod.snd = (spots (cells d tables sql)).map Spot.index := by
  have positions : (spots (cells d tables sql)).map Spot.index =
      ((spots (cells d tables sql)).map Spot.token).map fun token => (number tables (token.drop 1) : Int) - 1 := by
    rw [List.map_map]
    exact List.map_congr_left fun spot member => (dollar_spots style spot member).2
  rw [positions, dollar_tokens style]
  rw [detectPlaceholders] at listed
  cases read : positioned tables ((dollarSlots tables sql).map fun m => matched m.1 m.2) with
  | error message =>
    rw [read] at listed
    cases listed
  | ok entries =>
    rw [read] at listed
    have same := positioned_ok read
    have some_ : entries ≠ [] := by
      rintro rfl
      exact style (List.map_eq_nil_iff.mp (List.map_eq_nil_iff.mp same.symm))
    have chosen : (if entries = [] then _ else Except.ok entries) = Except.ok found := listed
    rw [if_neg some_] at chosen
    rw [← Except.ok.inj chosen, same]

theorem dollar_found (plainly : Plainly (cells d tables sql)) : (search (pgParam tables) sql).isSome = true := by
  obtain ⟨first, rest, shape⟩ := List.exists_cons_of_ne_nil style
  have tokens := dollar_tokens (d := d) style
  rw [shape, List.map_cons] at tokens
  cases found : spots (cells d tables sql) with
  | nil =>
    rw [found] at tokens
    cases tokens
  | cons spot others =>
    have member : Sum.inr spot ∈ cells d tables sql := mem_spots.mp (by rw [found]; exact List.mem_cons_self)
    obtain ⟨n, -, token⟩ := (dollar_laid style plainly).plain spot member
    obtain ⟨x, digits, number⟩ := List.exists_cons_of_ne_nil (@Nat.toDigits_ne_nil n 10)
    have digit : x.isDigit = true := Numerals.toDigits_digits n x (by rw [number]; exact List.mem_cons_self)
    have ascii : isAscii x = true := isAlphanum_ascii (by simp [Char.isAlphanum, digit])
    obtain ⟨before, after, whole⟩ := part_of_cell Spot.token member
    rw [dollar_spell style, write, Sum.elim_inr, token, number] at whole
    exact (search_dollar sql).mpr ⟨before, x, digits ++ after, whole, by rw [isDecimal, if_pos ascii, digit]⟩

/-- The rounds of the loop together fill the placeholders, where the result has none. -/
theorem dollar_filled (plainly : Plainly (cells d tables sql)) {found : List (List Char × Int)}
    (listed : detectPlaceholders tables sql = .ok found) (nodup : (values.map Prod.fst).Nodup)
    (each : ∀ position, position ∈ values.map Prod.fst ↔ position ∈ found.map Prod.snd)
    (quiet : Quiet (filled d tables values sql)) : substitutePlaceholders tables sql values = filled d tables values sql := by
  have laid := dollar_laid style plainly
  have start : (cells d tables sql).flatMap (write (stage tables values [])) = sql := by
    have same : stage tables values [] = Spot.token := by
      funext spot
      exact if_neg List.not_mem_nil
    rw [same, dollar_spell style]
  have keys : ∀ position, position ∈ (descending values).map Prod.fst ↔ position ∈ (spots (cells d tables sql)).map Spot.index := by
    intro position
    rw [((descending_perm values).map Prod.fst).mem_iff, each, dollar_listed style listed]
  have rounds := rounds_fill laid quiet (descending values) [] (descending_falling nodup) (fun entry member => ?_)
    fun spot member => .inr ((keys _).mpr (List.mem_map_of_mem (mem_spots.mpr member)))
  · rw [substitutePlaceholders, if_pos (dollar_found style plainly), ← start, rounds, start]
    rfl
  · refine ⟨?_, valueAt_entry nodup ((descending_perm values).mem_iff.mp member)⟩
    obtain ⟨spot, inside, same⟩ := List.mem_map.mp ((keys entry.1).mp (List.mem_map_of_mem member))
    obtain ⟨n, position, -⟩ := laid.plain spot (mem_spots.mp inside)
    exact ⟨n, by rw [← same, position]⟩

end Dollars

section Questions

theorem fill_questions (value : Nat → List Char) (s : State) (position : Nat) (text mask : List Char)
    (long : text.length = mask.length) :
    fillQuestions value position text mask =
      (cellsFrom d questionWidth (fun number _ => (number : Int)) s position 0 text mask).flatMap
        (write fun spot => value spot.index.toNat) := by
  induction text generalizing s position mask with
  | nil => cases mask <;> rfl
  | cons c text ih =>
    cases mask with
    | nil => cases long
    | cons m mask =>
      have later := fun s position => ih s position mask (Nat.succ.inj long)
      rw [fillQuestions, cellsFrom, questionWidth]
      by_cases mark : m = '?'
      · rw [if_pos mark, if_pos mark, later (feed d s c)]
        rfl
      · rw [if_neg mark, if_neg mark, later (feed d s c)]
        rfl

variable (style : dollarSlots tables sql = [])
include style

theorem question_cells : cells d tables sql =
    cellsFrom d questionWidth (fun number _ => (number : Int)) begin 0 0 sql (questionMask sql) := if_pos style

theorem question_spots : ∀ spot ∈ spots (cells d tables sql), spot.token = ['?'] ∧ 0 ≤ spot.index := by
  rw [question_cells style]
  apply @spots_all d questionWidth _ fun token index => token = ['?'] ∧ 0 ≤ index
  intro m mask n k wide
  refine ⟨?_, Int.natCast_nonneg k⟩
  rw [questionWidth] at wide
  split at wide
  · rename_i mark
    rw [← Option.some.inj wide, mark]
    rfl
  · cases wide

theorem question_filled (raw : (search (pgParam tables) sql).isSome = false) :
    substitutePlaceholders tables sql values = filled d tables values sql := by
  rw [substitutePlaceholders, if_neg (by simp [raw]), filled,
    fill_questions (d := d) _ begin 0 sql (questionMask sql) (question_faithful sql).1, ← question_cells style]
  apply List.flatMap_congr
  intro cell member
  cases cell with
  | inl c => rfl
  | inr spot =>
    have position := (question_spots style spot (mem_spots.mpr member)).2
    show valueText tables (valueAt values (spot.index.toNat : Int)) = valueText tables (valueAt values spot.index)
    rw [Int.toNat_of_nonneg position]

omit style in
/-- Two characters of the text that are no question marks are characters of the cells. -/
theorem pair_of_spelled (marks : ∀ spot, .inr spot ∈ cs → spot.token = ['?']) {c : Char} (other : c ≠ '?') {before rest : List Char}
    (spelled : cs.flatMap (write Spot.token) = before ++ '$' :: c :: rest) :
    ∃ front back, cs = front ++ .inl '$' :: .inl c :: back := by
  induction cs generalizing before with
  | nil => exact absurd spelled (by simp)
  | cons cell cs ih =>
    have one : ∃ x, write Spot.token cell = [x] := by
      cases cell with
      | inl x => exact ⟨x, rfl⟩
      | inr spot => exact ⟨'?', marks spot List.mem_cons_self⟩
    obtain ⟨x, one⟩ := one
    rw [List.flatMap_cons, one, List.singleton_append] at spelled
    cases before with
    | cons y before =>
      obtain ⟨front, back, same⟩ := ih (fun spot member => marks spot (List.mem_cons_of_mem _ member)) (List.cons.inj spelled).2
      exact ⟨cell :: front, back, by rw [same]; rfl⟩
    | nil =>
      obtain ⟨here, after⟩ := List.cons.inj spelled
      have first : cell = .inl '$' := by
        cases cell with
        | inl y => rw [← here, ← List.singleton_inj.mp one]
        | inr spot =>
          rw [here, write, Sum.elim_inr, marks spot List.mem_cons_self] at one
          exact absurd one (by decide)
      cases cs with
      | nil => cases after
      | cons next cs =>
        have second : next = .inl c := by
          cases next with
          | inl y => rw [(List.cons.inj after).1]
          | inr spot =>
            rw [List.flatMap_cons, write, Sum.elim_inr, marks spot (by simp)] at after
            exact absurd (List.cons.inj after).1.symm other
        exact ⟨[], cs, by rw [first, second]; rfl⟩

/-- A `$` placeholder that the mask hides is left by every filling of the question marks. -/
theorem question_unresolved (raw : (search (pgParam tables) sql).isSome = true) (value : Spot → List Char) :
    hasUnresolvedPlaceholders tables ((cells d tables sql).flatMap (write value)) = true := by
  obtain ⟨before, c, rest, whole, decimal⟩ := (search_dollar sql).mp raw
  have spelled : (cells d tables sql).flatMap (write Spot.token) = before ++ '$' :: c :: rest := by
    rw [question_cells style, spell_cells begin 0 (question_faithful sql), whole]
  have marks := fun spot member => (question_spots (d := d) style spot (mem_spots.mpr member)).1
  generalize cells d tables sql = cs at spelled marks
  have other : c ≠ '?' := by
    rintro rfl
    exact absurd decimal (by simp [isDecimal, isAscii])
  obtain ⟨front, back, rfl⟩ := pair_of_spelled marks other spelled
  rw [List.flatMap_append, List.flatMap_cons, List.flatMap_cons]
  exact unresolved_of_dollar decimal

end Questions

section Main

theorem valueText_head (value : Value) : (valueText tables value).head? ≠ some '?' := by
  cases value with
  | int n =>
    cases n with
    | ofNat n =>
      have shape : (toString n).toList = Nat.toDigits 10 n := String.toList_ofList
      show (toString n).toList.head? ≠ some '?'
      rw [shape]
      intro head
      exact absurd (Numerals.toDigits_digits n '?' (List.mem_of_head? head)) (by decide)
    | negSucc n =>
      show ("-" ++ toString (n + 1)).toList.head? ≠ some '?'
      simp
  | text s =>
    rw [valueText]
    split
    · rename_i plain
      intro head
      exact absurd (List.all_eq_true.mp plain.2 '?' (List.mem_of_head? head)) (by simp [isDigit, isAscii])
    · simp [quoted]

/-- Two fillings that differ begin to differ at a placeholder. -/
theorem same_values {value other : Spot → List Char}
    (each : ∀ spot, .inr spot ∈ cs → value spot = other spot ∨
      ∃ x xs y ys, value spot = x :: xs ∧ other spot = y :: ys ∧ x ≠ y)
    (same : cs.flatMap (write value) = cs.flatMap (write other)) : ∀ spot, .inr spot ∈ cs → value spot = other spot := by
  induction cs with
  | nil => exact fun _ none_ => absurd none_ List.not_mem_nil
  | cons cell cs ih =>
    rw [List.flatMap_cons, List.flatMap_cons] at same
    have later := ih fun spot member => each spot (List.mem_cons_of_mem _ member)
    intro spot member
    cases cell with
    | inl c =>
      rcases List.mem_cons.mp member with here | there
      · cases here
      · exact later (List.append_cancel_left same) spot there
    | inr first =>
      have agree : value first = other first := by
        rcases each first List.mem_cons_self with equal | ⟨x, xs, y, ys, left, right, differ⟩
        · exact equal
        · simp only [write, Sum.elim_inr, left, right] at same
          exact absurd (List.cons.inj same).1 differ
      rcases List.mem_cons.mp member with here | there
      · cases here
        exact agree
      · simp only [write, Sum.elim_inr, agree] at same
        exact later (List.append_cancel_left same) spot there

/-- What the filling has to be is the whole filling where no placeholder is hidden. -/
theorem filled_shown (shown : ∀ spot ∈ spots (cells d tables sql), spot.hidden = false) :
    (cells d tables sql).flatMap
      (write fun spot => if spot.hidden then spot.token else valueText tables (valueAt values spot.index)) =
        filled d tables values sql := by
  apply List.flatMap_congr
  intro cell member
  cases cell with
  | inl c => rfl
  | inr spot => simp [write, shown spot (mem_spots.mpr member)]

/-- Where the whole filling is the right one, no placeholder is hidden. -/
theorem shown_questions (style : dollarSlots tables sql = [])
    (same : filled d tables values sql = (cells d tables sql).flatMap
      (write fun spot => if spot.hidden then spot.token else valueText tables (valueAt values spot.index))) :
    ∀ spot ∈ spots (cells d tables sql), spot.hidden = false := by
  have apart : ∀ value : Value, ∃ x xs, valueText tables value = x :: xs ∧ x ≠ '?' := by
    intro value
    obtain ⟨x, xs, shape⟩ := List.exists_cons_of_ne_nil (@valueText_some tables value)
    have head := @valueText_head tables value
    rw [shape] at head
    exact ⟨x, xs, shape, fun mark => head (by rw [mark]; rfl)⟩
  have agree := same_values (fun spot member => ?_) same
  · intro spot member
    by_contra hidden
    have equal := agree spot (mem_spots.mp member)
    rw [if_pos (by simpa using hidden), (question_spots style spot member).1] at equal
    exact valueText_head _ (by rw [equal]; rfl)
  · cases hidden : spot.hidden with
    | false => exact .inl rfl
    | true =>
      right
      obtain ⟨x, xs, shape, other⟩ := apart (valueAt values spot.index)
      exact ⟨x, xs, '?', [], shape, (question_spots style spot (mem_spots.mpr member)).1, other⟩

/-- A filling that leaves a `$` placeholder is not resolved. -/
theorem shown_dollars (style : dollarSlots tables sql ≠ []) (plainly : Plainly (cells d tables sql))
    (resolved : hasUnresolvedPlaceholders tables ((cells d tables sql).flatMap
      (write fun spot => if spot.hidden then spot.token else valueText tables (valueAt values spot.index))) = false) :
    ∀ spot ∈ spots (cells d tables sql), spot.hidden = false := by
  intro spot member
  by_contra hidden
  obtain ⟨n, -, token⟩ := (dollar_laid style plainly).plain spot (mem_spots.mp member)
  obtain ⟨x, digits, number⟩ := List.exists_cons_of_ne_nil (@Nat.toDigits_ne_nil n 10)
  have digit := Numerals.toDigits_digits n x (by rw [number]; exact List.mem_cons_self)
  obtain ⟨before, rest, whole⟩ := part_of_cell
    (fun spot => if spot.hidden then spot.token else valueText tables (valueAt values spot.index)) (mem_spots.mp member)
  rw [write, Sum.elim_inr, if_pos (by simpa using hidden), token, number] at whole
  rw [resolved_quiet resolved before x (digits ++ rest) whole] at digit
  cases digit

/-- With placeholders plainly written and a value for each that is listed, the prompt's filling is as it has to be if and
only if they stand outside of literals, the values can be quoted simply, and the filled statement shows no placeholder. -/
theorem fills_iff {found : List (List Char × Int)} (listed : detectPlaceholders tables sql = .ok found)
    (nodup : (values.map Prod.fst).Nodup) (each : ∀ position, position ∈ values.map Prod.fst ↔ position ∈ found.map Prod.snd)
    (plainly : Plainly (cells d tables sql)) : Fills d tables sql values ↔ Ready d tables sql values := by
  have finish : ∀ shown : ∀ spot ∈ spots (cells d tables sql), spot.hidden = false,
      substitutePlaceholders tables sql values = filled d tables values sql →
      (Fills d tables sql values ↔ Ready d tables sql values) := by
    intro shown same
    constructor
    · intro fills
      exact ⟨shown, fun spot member => (valueText_literal _).mp (fills.literals spot member), same ▸ fills.resolved⟩
    · intro ready
      exact ⟨by rw [same, filled_shown shown], fun spot member => (valueText_literal _).mpr (ready.plain spot member),
        by rw [same]; exact ready.resolved⟩
  by_cases style : dollarSlots tables sql = []
  · cases raw : (search (pgParam tables) sql).isSome with
    | true =>
      have never := question_unresolved (d := d) style raw
      constructor
      · intro fills
        have resolved := fills.resolved
        rw [fills.text, never] at resolved
        cases resolved
      · intro ready
        have resolved := ready.resolved
        rw [filled, never] at resolved
        cases resolved
    | false =>
      have same : substitutePlaceholders tables sql values = filled d tables values sql := question_filled style raw
      constructor
      · intro fills
        exact (finish (shown_questions style (same.symm.trans fills.text)) same).mp fills
      · intro ready
        exact (finish ready.shown same).mpr ready
  · constructor
    · intro fills
      have shown := shown_dollars style plainly (fills.text ▸ fills.resolved)
      exact (finish shown (by rw [fills.text, filled_shown shown])).mp fills
    · intro ready
      exact (finish ready.shown (dollar_filled style plainly listed nodup each (resolved_quiet ready.resolved))).mpr ready

theorem fills_two :
    Fills .postgres asciiTables "SELECT $1, $2".toList [(0, .text "it's".toList), (1, .int 7)] :=
  (@fills_iff asciiTables .postgres "SELECT $1, $2".toList [(0, .text "it's".toList), (1, .int 7)] [(['$', '1'], 0), (['$', '2'], 1)]
    rfl (by decide) (fun _ => Iff.rfl) ⟨by decide +kernel, by decide +kernel⟩).mpr
      ⟨by decide +kernel, by decide +kernel, by decide +kernel⟩

/-- The second value is filled first, and the round of the first one fills it again. -/
theorem filled_inside_value :
    ¬ Fills .postgres asciiTables "SELECT $1, $2".toList [(0, .text ['a']), (1, .text "cost $1".toList)] := by
  intro fills
  exact absurd fills.text (by decide +kernel)

end Main

end Rdst.Registry.Prompted
