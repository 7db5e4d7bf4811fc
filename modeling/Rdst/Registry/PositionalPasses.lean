import Rdst.Registry.FilledSlots

namespace Rdst.Registry.Positional

open PyText Regex Slots SqlLexer
open Library.Listing (maskStringLiterals pgParam)

section Stopped

variable {tables : Tables} {params : List Char → Option Stored} {sql : List Char}

theorem quote_lands (value : List Char) :
    (value.flatMap fun c => if c = '\'' then ['\'', '\''] else [c]).foldl (Scan.step tables) .quote = .quote := by
  induction value with
  | nil => rfl
  | cons c value ih =>
    rw [List.flatMap_cons, List.foldl_append]
    by_cases quote : c = '\''
    · subst quote
      exact ih
    · have stays : Scan.step tables .quote c = .quote := if_neg quote
      rw [if_neg quote, List.foldl_cons, List.foldl_nil, stays, ih]

/-- After a value the scan is where it was before. -/
theorem literal_lands {stored : Stored} (plain : stored.Plain) :
    (paramLiteral stored).foldl (Scan.step tables) .code = .code := by
  obtain ⟨isString, value⟩ := stored
  cases isString with
  | true =>
    have inside := @quote_lands tables value
    show (['\''] ++ (value.flatMap fun c => if c = '\'' then ['\'', '\''] else [c]) ++ ['\'']).foldl (Scan.step tables) .code = .code
    rw [List.foldl_append, List.foldl_append]
    show (List.foldl (Scan.step tables) .quote _).step tables '\'' = .code
    rw [inside]
    rfl
  | false =>
    have simple : ∀ c ∈ value, c ∉ ['\'', '$', '?', ':'] := plain.resolve_left Bool.false_ne_true
    show value.foldl (Scan.step tables) .code = .code
    clear plain
    induction value with
    | nil => rfl
    | cons c value ih =>
      have special := simple c List.mem_cons_self
      simp only [List.mem_cons, List.not_mem_nil, or_false, not_or] at special
      have stays : Scan.step tables .code c = .code := by simp [Scan.step, Scan.leave, special]
      rw [List.foldl_cons, stays]
      exact ih fun x member => simple x (List.mem_cons_of_mem _ member)

theorem takeWhile_stops {text after : List Char} (stops : ∀ c ∈ after.head?, isDecimal tables c = false) :
    (text ++ after).takeWhile (isDecimal tables) = text.takeWhile (isDecimal tables) := by
  induction text with
  | nil =>
    cases after with
    | nil => rfl
    | cons c after => exact List.takeWhile_cons_of_neg (by simp [stops c rfl])
  | cons c text ih =>
    rw [List.cons_append, List.takeWhile_cons, List.takeWhile_cons, ih]

/-- The same character stands last, or a number did. -/
def SameLast (tables : Tables) (early text : List Char) : Prop :=
  early.getLast? = text.getLast? ∨ ∃ last ∈ text.getLast?, isDecimal tables last = true

theorem SameLast.cons {early text : List Char} (same : SameLast tables early text) (c : Char) :
    SameLast tables (c :: early) (c :: text) := by
  rcases same with equal | ⟨last, member, decimal⟩
  · exact .inl (by rw [List.getLast?_cons, List.getLast?_cons, equal])
  · exact .inr ⟨last, by rw [List.getLast?_cons, member]; rfl, decimal⟩

theorem SameLast.passed {early text : List Char} (same : SameLast tables early text) {c : Char}
    (decimal : isDecimal tables c = true) : SameLast tables early (c :: text) := by
  cases text with
  | nil => exact .inr ⟨c, rfl, decimal⟩
  | cons x text =>
    have last_ : (c :: x :: text).getLast? = (x :: text).getLast? := List.getLast?_cons_cons
    unfold SameLast
    rw [last_]
    exact same

theorem SameLast.literal {early text : List Char} (same : SameLast tables early text) (some_ : text ≠ [])
    (c : Char) (literal : List Char) : SameLast tables (literal ++ early) (c :: text) := by
  cases text with
  | nil => exact absurd rfl some_
  | cons x text =>
    have last_ : (c :: x :: text).getLast? = (x :: text).getLast? := List.getLast?_cons_cons
    unfold SameLast
    rw [last_]
    rcases same with equal | decimal
    · left
      rw [List.getLast?_append, equal]
      simp [List.getLast?_cons]
    · exact .inr decimal

/-- What the first pass makes of a text up to a place between its slots. -/
theorem dollars_prefix (plain : PlainValues tables params sql) {after : List Char}
    (stops : ∀ c ∈ after.head?, isDecimal tables c = false) (text before : List Char) (passing : Nat)
    (split : sql = before ++ (text ++ after)) (within : passing ≤ text.length)
    (digits : ∀ c ∈ text.take passing, isDecimal tables c = true)
    (slot : passing ≠ 0 → scanned tables before = .tag [] ∨ scanned tables before = .code) :
    ∃ early, dollarsFrom tables params (scanned tables before) passing (text ++ after) =
        early ++ dollarsFrom tables params (scanned tables (before ++ text)) 0 after ∧
      early.foldl (Scan.step tables) (landed (scanned tables before) passing) = scanned tables (before ++ text) ∧
        SameLast tables early text := by
  induction text generalizing before passing with
  | nil =>
    cases Nat.le_zero.mp within
    exact ⟨[], by simp, by simp [landed], .inl rfl⟩
  | cons c rest ih =>
    have next : sql = (before ++ [c]) ++ (rest ++ after) := by rw [split]; simp
    have whole : before ++ [c] ++ rest = before ++ c :: rest := by simp
    have later : ∀ passing, passing ≤ rest.length → (∀ c ∈ rest.take passing, isDecimal tables c = true) →
        (passing ≠ 0 → (scanned tables before).step tables c = .tag [] ∨ (scanned tables before).step tables c = .code) →
          ∃ early, dollarsFrom tables params ((scanned tables before).step tables c) passing (rest ++ after) =
              early ++ dollarsFrom tables params (scanned tables (before ++ c :: rest)) 0 after ∧
            early.foldl (Scan.step tables) (landed ((scanned tables before).step tables c) passing) =
                scanned tables (before ++ c :: rest) ∧ SameLast tables early rest := by
      intro passing within digits slot
      have run := ih (before ++ [c]) passing next within digits (by rw [scanned_snoc]; exact slot)
      rwa [scanned_snoc, whole] at run
    cases passing with
    | succ passing =>
      rw [List.take_succ_cons] at digits
      have decimal := digits c List.mem_cons_self
      have code : (scanned tables before).step tables c = .code := step_decimal (slot (Nat.succ_ne_zero _)) decimal
      obtain ⟨early, written, lands, same⟩ := later passing (Nat.le_of_succ_le_succ within)
        (fun x member => digits x (List.mem_cons_of_mem _ member)) fun _ => .inr code
      have here : landed ((scanned tables before).step tables c) passing =
          landed (scanned tables before) (passing + 1) := by
        unfold landed
        rw [code, ite_self]
        rfl
      rw [here] at lands
      exact ⟨early, written, lands, same.passed decimal⟩
    | zero =>
      have start_ : landed (scanned tables before) 0 = scanned tables before := rfl
      rw [start_]
      by_cases taken : ∃ stored, c = '$' ∧ scanNumber tables (scanned tables before) (rest ++ after) ≠ [] ∧
          params (slotName (scanNumber tables (scanned tables before) (rest ++ after))) = some stored
      · obtain ⟨stored, rfl, some_, value⟩ := taken
        obtain ⟨code, number⟩ := scanNumber_eq some_
        rw [takeWhile_stops stops] at number
        have digits := @taken_decimals tables rest
        rw [← number] at digits
        have opened : (scanned tables before).step tables '$' = .tag [] := by rw [code]; rfl
        have within : (scanNumber tables (scanned tables before) (rest ++ after)).length ≤ rest.length := by
          rw [number]
          exact (List.takeWhile_prefix _).length_le
        obtain ⟨early, written, lands, same⟩ := later _ within digits fun _ => .inl opened
        have passes : landed ((scanned tables before).step tables '$')
            (scanNumber tables (scanned tables before) (rest ++ after)).length = .code :=
          if_neg fun empty => some_ (List.length_eq_zero_iff.mp empty)
        have nonempty : rest ≠ [] := by
          rintro rfl
          rw [number] at some_
          exact some_ rfl
        refine ⟨paramLiteral stored ++ early, ?_, ?_, same.literal nonempty '$' _⟩
        · rw [List.cons_append, dollarsFrom_dollar, if_pos some_, value]
          simp only
          rw [written, List.append_assoc]
        · rw [passes] at lands
          rw [List.foldl_append, code, literal_lands (plain before (rest ++ after) stored split some_ value), lands]
      · obtain ⟨early, written, lands, same⟩ := later 0 (Nat.zero_le _) (by simp) fun some_ => absurd rfl some_
        refine ⟨c :: early, ?_, lands, same.cons c⟩
        rw [List.cons_append, List.cons_append, ← written]
        by_cases dollar : c = '$'
        · subst dollar
          rw [dollarsFrom_dollar]
          have none_ : (if scanNumber tables (scanned tables before) (rest ++ after) ≠ [] then
              params (slotName (scanNumber tables (scanned tables before) (rest ++ after))) else none) = none := by
            by_contra some_
            obtain ⟨stored, valued⟩ := Option.ne_none_iff_exists'.mp some_
            rw [Option.ite_none_right_eq_some] at valued
            exact taken ⟨stored, rfl, valued.1, valued.2⟩
          rw [none_]
        · rw [dollarsFrom, if_neg fun slot => dollar slot.1]

theorem dollarsFrom_other {b : Scan} {c : Char} (other : c ≠ '$') (rest : List Char) :
    dollarsFrom tables params b 0 (c :: rest) = c :: dollarsFrom tables params (b.step tables c) 0 rest := by
  rw [dollarsFrom, if_neg fun slot => other slot.1]

theorem visible_append (b : Scan) (early late : List Char) : visible tables b (early ++ late) =
    (visible tables b (early ++ late)).take early.length ++ visible tables (early.foldl (Scan.step tables) b) late := by
  have dropped := @visible_drop tables b (early ++ late) early.length
  rw [List.take_left, List.drop_left] at dropped
  rw [← dropped, List.take_append_drop]

theorem visible_last {b : Scan} {early late : List Char} {x : Char}
    (last_ : x ∈ ((visible tables b (early ++ late)).take early.length).getLast?) : x = ' ' ∨ x ∈ early.getLast? := by
  induction early generalizing b with
  | nil => simp at last_
  | cons c early ih =>
    rw [List.cons_append, visible, List.length_cons, List.take_succ_cons] at last_
    cases early with
    | nil =>
      rw [List.nil_append, List.length_nil, List.take_zero, List.getLast?_singleton] at last_
      have one : (if hides tables b c late then ' ' else c) = x := Option.some.inj last_
      rw [← one]
      split
      · exact .inl rfl
      · exact .inr rfl
    | cons d early =>
      have step : x ∈ ((visible tables (b.step tables c) (d :: early ++ late)).take (d :: early).length).getLast? := by
        rw [List.cons_append, visible, List.length_cons, List.take_succ_cons] at last_ ⊢
        rwa [List.getLast?_cons_cons] at last_
      rw [List.getLast?_cons_cons]
      exact ih step

/-- A number without a value stops the second pass. -/
theorem stopped_number (plain : PlainValues tables params sql) (unvalued : Unvalued tables params sql) :
    dollarSlots tables (dollarsFrom tables params .code 0 sql) ≠ [] := by
  obtain ⟨before, after, split, some_, none_⟩ := unvalued
  obtain ⟨code, number⟩ := scanNumber_eq some_
  have stops : ∀ c ∈ ('$' :: after).head?, isDecimal tables c = false := by
    intro c head
    cases head
    rfl
  obtain ⟨early, written, lands, -⟩ := dollars_prefix plain stops before [] 0 split (Nat.zero_le _) (by simp)
    fun some_ => absurd rfl some_
  have start_ : scanned tables [] = .code := rfl
  rw [start_, ← split, List.nil_append, dollarsFrom_dollar, if_pos some_, none_, code] at written
  rw [start_, List.nil_append, code] at lands
  have digits : (dollarsFrom tables params (.tag []) 0 after).takeWhile (isDecimal tables) ≠ [] := by
    rw [number] at some_
    cases after with
    | nil => exact absurd rfl some_
    | cons c after =>
      cases decimal : isDecimal tables c with
      | false => simp [decimal] at some_
      | true =>
        rw [dollarsFrom_other (decimal_plain decimal).1]
        simp [decimal]
  rw [written]
  intro empty
  unfold dollarSlots at empty
  rw [mask_visible, finditer_eq_nil] at empty
  have missing := empty _ _ (visible_append .code early _)
  have opened : early.foldl (Scan.step tables) .code = .code := lands
  have measure := dollar_measures tables (List.take early.length (visible tables .code (early ++ '$' ::
    dollarsFrom tables params (.tag []) 0 after))).reverse (visible tables .code ('$' :: dollarsFrom tables params (.tag []) 0 after))
  rw [opened] at missing
  have width : dollarWidth tables (visible tables .code ('$' :: dollarsFrom tables params (.tag []) 0 after)) ≠ none := by
    rw [visible_slot digits, dollarWidth, visible_number digits, if_pos ⟨rfl, digits⟩]
    exact Option.some_ne_none _
  obtain ⟨n, wide⟩ := Option.ne_none_iff_exists'.mp width
  rw [wide] at measure
  have clash := missing.symm.trans measure.2.2
  cases clash

theorem shown_code {b : Scan} (code : b.isCode = true) (rest : List Char) :
    hides tables b ':' rest = false ∧ b.step tables ':' = .code := by
  cases b with
  | code => exact ⟨rfl, rfl⟩
  | tag name =>
    have other : inTag tables name ':' = false := by
      unfold inTag
      split <;> rfl
    exact ⟨by simp [hides, completes, other], by simp [Scan.step, other, Scan.leave]⟩
  | quote => cases code
  | body name seen => cases code

theorem name_matches {digit : Char} (decimal : isDecimal tables digit = true) (before rest : List Char) :
    matchAt (.seq (.char (· == ':')) (.seq (.char (· == 'p')) (plus (.char (isDecimal tables)))))
      ⟨before, ':' :: 'p' :: digit :: rest, []⟩ ≠ none := by
  have first : Moves (.char (· == ':')) (⟨before, ':' :: 'p' :: digit :: rest, []⟩ : Cursor Char)
      ⟨':' :: before, 'p' :: digit :: rest, []⟩ := ⟨':', _, rfl, rfl, rfl⟩
  have second : Moves (.char (· == 'p')) (⟨':' :: before, 'p' :: digit :: rest, []⟩ : Cursor Char)
      ⟨'p' :: ':' :: before, digit :: rest, []⟩ := ⟨'p', _, rfl, rfl, rfl⟩
  have third : Moves (plus (.char (isDecimal tables))) (⟨'p' :: ':' :: before, digit :: rest, []⟩ : Cursor Char)
      ⟨digit :: 'p' :: ':' :: before, rest, []⟩ := ⟨_, ⟨digit, rest, rfl, decimal, rfl⟩, .refl⟩
  have whole : Moves (.seq (.char (· == ':')) (.seq (.char (· == 'p')) (plus (.char (isDecimal tables)))))
      (⟨before, ':' :: 'p' :: digit :: rest, []⟩ : Cursor Char) _ := ⟨_, first, _, second, third⟩
  obtain ⟨d, found⟩ := matchAt_of_moves (consumes_char _).before whole
  rw [found]
  exact Option.some_ne_none d

/-- A named slot stops the second pass. -/
theorem stopped_name (plain : PlainValues tables params sql) (named : Named tables sql) :
    finditer (namedSlot tables) (maskStringLiterals tables (dollarsFrom tables params .code 0 sql)) ≠ [] := by
  obtain ⟨before, digit, after, split, code, decimal, apart⟩ := named
  have stops : ∀ c ∈ (':' :: 'p' :: digit :: after).head?, isDecimal tables c = false := by
    intro c head
    cases head
    rfl
  obtain ⟨early, written, lands, same⟩ := dollars_prefix plain stops before [] 0 split (Nat.zero_le _)
    (by simp) fun some_ => absurd rfl some_
  have start_ : scanned tables [] = .code := rfl
  have other := decimal_plain decimal
  obtain ⟨-, leaves⟩ := @shown_code tables _ code []
  rw [List.nil_append] at written lands
  have letter : Scan.step tables .code 'p' = .code := rfl
  have stays : Scan.step tables .code digit = .code := by simp [Scan.step, Scan.leave, other]
  rw [start_, ← split, dollarsFrom_other (by decide), leaves, dollarsFrom_other (by decide), letter,
    dollarsFrom_other other.1, stays] at written
  rw [start_] at lands
  have opened : early.foldl (Scan.step tables) .code = scanned tables before := lands
  have shown : visible tables (scanned tables before) (':' :: 'p' :: digit :: dollarsFrom tables params .code 0 after) =
      ':' :: 'p' :: digit :: visible tables .code (dollarsFrom tables params .code 0 after) := by
    have first := (@shown_code tables _ code ('p' :: digit :: dollarsFrom tables params .code 0 after)).1
    have third : hides tables .code digit (dollarsFrom tables params .code 0 after) = false := by simp [hides, other]
    rw [visible, first, leaves, visible, letter, visible, third, stays]
    rfl
  rw [written]
  intro empty
  rw [mask_visible, finditer_eq_nil] at empty
  have missing := empty _ _ (visible_append .code early _)
  rw [opened, shown, namedSlot, matchNotAfter] at missing
  have free : ¬ ((List.take early.length (visible tables .code (early ++ ':' :: 'p' :: digit ::
      dollarsFrom tables params .code 0 after))).reverse.head?.any fun c => c == ':' || isWord tables c) = true := by
    rw [List.head?_reverse]
    intro barred
    cases last_ : (List.take early.length (visible tables .code (early ++ ':' :: 'p' :: digit ::
        dollarsFrom tables params .code 0 after))).getLast? with
    | none =>
      rw [last_] at barred
      cases barred
    | some x =>
      rw [last_, Option.any_some] at barred
      rcases visible_last last_ with rfl | raw
      · exact absurd barred (by simp [isWord, isAlnum, isAscii])
      · rcases same with equal | ⟨y, member, number⟩
        · rw [equal] at raw
          have clear := apart x raw
          simp [clear.1, clear.2.1] at barred
        · rw [(apart y member).2.2] at number
          cases number
  rw [if_neg free] at missing
  exact name_matches decimal _ _ missing

end Stopped

section Both

variable {tables : Tables} {params : List Char → Option Stored} {sql : List Char}

theorem second_pass_runs (text : List Char) (quiet : Quiet tables .code text) :
    substituteQuestionSlots tables params text = questionsFrom tables params .code 1 text := by
  have open_ : questionSlots tables text = finditer (matchAt (.char (· == '?'))) (maskStringLiterals tables text) := by
    unfold questionSlots
    exact if_neg fun stopped => stopped.elim (fun some_ => some_ quiet.unnumbered) fun some_ => some_ quiet.unnamed
  unfold substituteQuestionSlots
  rw [open_, mask_visible, splice_fill question_measures (visible_length _ _).symm]
  exact fill_questions .code text 1 true

theorem second_pass_stops (text : List Char) (stopped : dollarSlots tables text ≠ [] ∨
    finditer (namedSlot tables) (maskStringLiterals tables text) ≠ []) : substituteQuestionSlots tables params text = text := by
  have none_ : questionSlots tables text = [] := if_pos stopped
  unfold substituteQuestionSlots
  rw [none_]
  rfl

theorem fill_mysql (agree : NumbersAgree tables .mysql params sql) (second : SecondPass tables params sql) :
    fillPositional tables params sql .mysql = intended .mysql params sql := by
  have both : fillPositional tables params sql .mysql =
      substituteQuestionSlots tables params (substituteDollarSlots tables params sql) := rfl
  have start_ : scanned tables [] = .code := rfl
  have none_ : (0 : Nat) ≠ 0 → scanned tables [] = .tag [] ∨ scanned tables [] = .code := fun some_ => absurd rfl some_
  rw [both, substitute_dollars]
  obtain ⟨plain, runs | stops⟩ := second
  · obtain ⟨valued, colon, marks⟩ := runs
    have quiet : Quiet tables .code (dollarsFrom tables params .code 0 sql) :=
      quiet_dollars plain valued colon sql [] 0 rfl (by simp) none_
    have run : questionsFrom tables params .code 1 (dollarsFrom tables params .code 0 sql) = intended .mysql params sql :=
      questions_intended agree plain marks sql [] 1 0 rfl (by simp) none_
    rw [second_pass_runs _ quiet]
    exact run
  · obtain ⟨stopped, unvalued⟩ := stops
    have run := dollars_intended agree sql [] 1 0 rfl (by simp) unvalued
    rw [start_] at run
    rw [second_pass_stops]
    · exact run
    · exact stopped.imp (stopped_number plain) (stopped_name plain)

/-- The numbers agree for any values when they are the same at every dollar sign. -/
theorem numbersAgree_of_positions {d : Dialect} (params : List Char → Option Stored) (same : ∀ n < sql.length, sql[n]? = some '$' →
      scanNumber tables (scanned tables (sql.take n)) (sql.drop (n + 1)) =
        slotNumber d (scan d begin (sql.take n)) (sql.drop (n + 1))) : NumbersAgree tables d params sql := by
  intro before after split digits _ _
  have here := same before.length (by rw [split]; simp) (by rw [split]; simp)
  have front : sql.take before.length = before := by rw [split, List.take_left]
  have back : sql.drop (before.length + 1) = after := by
    rw [split, ← List.drop_drop, List.drop_left]
    rfl
  rw [front, back] at here
  rw [here]

end Both

def given (name : String) (stored : Stored) (asked : List Char) : Option Stored :=
  if asked = name.toList then some stored else none

end Rdst.Registry.Positional
