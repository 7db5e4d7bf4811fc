import Rdst.Web.SqlParameters
import Rdst.Lib.Run

namespace Rdst.Web.SqlParameters

open PyText Regex

section Code

/-- What is left after the quoted run, comment or dollar-quoted body that begins at a character, if one does. -/
def regionAt (c : Char) (rest : List Char) : Option (List Char) :=
  if c ∈ ['\'', '"', '\x60'] then some (afterQuoted c rest)
  else if c = '-' ∧ rest.head? = some '-' then some (afterIndex ['\n'] rest)
  else if c = '/' ∧ rest.head? = some '*' then some (afterBlock 1 rest.tail)
  else if c = '$' then (dollarQuoteOpen rest).map fun opened => afterIndex opened.1 opened.2
  else none

/-- A text with one blank for each quoted run, comment and dollar-quoted body. -/
def codeFrom : Nat → List Char → List Char
  | 0, _ => []
  | _ + 1, [] => []
  | fuel + 1, c :: rest =>
    match regionAt c rest with
    | some left => ' ' :: codeFrom fuel left
    | none => c :: codeFrom fuel rest

/-- The code of a text. -/
def code (text : List Char) : List Char := codeFrom (text.length + 1) text

/-- `$` and a number. -/
def numberSlot : Marking Char where
  mark c := c == '$'
  barred _ := false
  first := Char.isDigit
  inside := Char.isDigit
  first_inside _ first := first
  mark_outside c inside := by
    by_contra mark
    have same : c = '$' := by simpa using mark
    rw [same] at inside
    exact absurd inside (by decide)

/-- A colon or an at sign and a name, with no colon in front. -/
def nameSlot : Marking Char where
  mark c := c == ':' || c == '@'
  barred c := c == ':'
  first := startsName
  inside := inName
  first_inside c first := by
    simp only [startsName, Bool.or_eq_true] at first
    simp only [inName, Char.isAlphanum, Bool.or_eq_true]
    exact first.imp_left .inl
  mark_outside c inside := by
    by_contra mark
    have same : c = ':' ∨ c = '@' := by simpa [or_iff_not_imp_left] using mark
    rcases same with rfl | rfl <;> exact absurd inside (by decide)

end Code

section Regions

/-- Something is left after a region only where the region is closed, with no colon. -/
def Passes (rest left : List Char) : Prop :=
  ∃ taken, rest = taken ++ left ∧ (left ≠ [] → ∃ last ∈ taken.getLast?, last ≠ ':')

theorem Passes.length_le {rest left : List Char} (passes : Passes rest left) : left.length ≤ rest.length := by
  obtain ⟨taken, rfl, -⟩ := passes
  simp

theorem passes_all (rest : List Char) : Passes rest [] := ⟨rest, by simp, fun some_ => absurd rfl some_⟩

theorem Passes.cons {rest left : List Char} (c : Char) (passes : Passes rest left) : Passes (c :: rest) left := by
  obtain ⟨taken, rfl, ends⟩ := passes
  refine ⟨c :: taken, rfl, fun some_ => ?_⟩
  obtain ⟨last, member, other⟩ := ends some_
  exact ⟨last, by simp [List.getLast?_cons, Option.mem_def.mp member], other⟩

theorem passes_here {c : Char} (other : c ≠ ':') (rest : List Char) : Passes (c :: rest) rest :=
  ⟨[c], rfl, fun _ => ⟨c, rfl, other⟩⟩

theorem quoted_passes {quote : Char} (other : quote ≠ ':') (rest : List Char) : Passes rest (afterQuoted quote rest) := by
  fun_induction afterQuoted quote rest with
  | case1 => exact passes_all []
  | case2 further ih => exact (ih.cons quote).cons quote
  | case3 d further closes => exact passes_here other _
  | case4 => exact passes_all _
  | case5 c rest closes ih => exact ih.cons c

theorem index_passes {needle : List Char} (text : List Char) (some_ : needle ≠ []) (ends : ∃ last ∈ needle.getLast?, last ≠ ':') :
    Passes text (afterIndex needle text) := by
  rw [afterIndex]
  cases found : afterFirst needle text with
  | none => exact passes_all text
  | some left =>
    obtain ⟨front, split, -⟩ := afterFirst_spec some_ found
    obtain ⟨last, member, other⟩ := ends
    refine ⟨front ++ needle, by simpa using split, fun _ => ⟨last, ?_, other⟩⟩
    simp [List.getLast?_append, Option.mem_def.mp member]

theorem block_passes {depth : Nat} (inside : 0 < depth) (text : List Char) : Passes text (afterBlock depth text) := by
  fun_induction afterBlock depth text with
  | case1 => exact absurd inside (lt_irrefl 0)
  | case2 => exact passes_all []
  | case3 depth c d further opens ih => exact ((ih (by omega)).cons d).cons c
  | case4 => exact passes_all _
  | case5 depth c d further opens closes ih =>
    have slash : d = '/' := by simpa using closes.2
    by_cases outermost : depth = 0
    · subst outermost
      rw [afterBlock, slash]
      exact (passes_here (by decide) further).cons c
    · exact ((ih (by omega)).cons d).cons c
  | case6 => exact passes_all _
  | case7 depth c rest opens closes ih => exact (ih (by omega)).cons c

theorem region_passes {c : Char} {rest left : List Char} (region : regionAt c rest = some left) : Passes rest left := by
  rw [regionAt] at region
  split at region
  · rename_i quote
    cases region
    apply quoted_passes
    rintro rfl
    exact absurd quote (by decide)
  split at region
  · cases region
    exact index_passes rest (by simp) ⟨'\n', rfl, by decide⟩
  split at region
  · rename_i opens
    cases region
    cases rest with
    | nil => cases opens.2
    | cons d further => exact (block_passes (by omega) further).cons d
  split at region
  · obtain ⟨opened, found, rfl⟩ := Option.map_eq_some_iff.mp region
    rw [dollarQuoteOpen] at found
    split at found
    · rename_i body shape
      split at found
      · cases found
        obtain ⟨taken, split, ends⟩ : Passes body (afterIndex ('$' :: (rest.takeWhile inName ++ ['$'])) body) :=
          index_passes body (by simp) ⟨'$', by simp [List.getLast?_cons], by decide⟩
        refine ⟨rest.takeWhile inName ++ '$' :: taken, ?_, fun some_ => ?_⟩
        · rw [List.append_assoc, List.cons_append, ← split, ← shape, List.takeWhile_append_dropWhile]
        · obtain ⟨last, member, other⟩ := ends some_
          exact ⟨last, by simp [List.getLast?_append, List.getLast?_cons, Option.mem_def.mp member], other⟩
      · cases found
    · cases found
  · cases region

/-- Enough fuel reads the whole text. -/
theorem codeFrom_enough (fuel fuel' : Nat) (text : List Char) (enough : text.length < fuel) (enough' : text.length < fuel') :
    codeFrom fuel text = codeFrom fuel' text := by
  induction fuel generalizing fuel' text with
  | zero => omega
  | succ fuel ih =>
    cases fuel' with
    | zero => omega
    | succ fuel' =>
      cases text with
      | nil => rfl
      | cons c rest =>
        rw [List.length_cons] at enough enough'
        rw [codeFrom, codeFrom]
        cases region : regionAt c rest with
        | none => simp only [ih fuel' rest (by omega) (by omega)]
        | some left =>
          have shorter := (region_passes region).length_le
          simp only [ih fuel' left (by omega) (by omega)]

theorem code_cons (c : Char) (rest : List Char) : code (c :: rest) = match regionAt c rest with
    | some left => ' ' :: code left
    | none => c :: code rest := by
  rw [code, codeFrom]
  cases region : regionAt c rest with
  | none => rfl
  | some left =>
    have shorter := (region_passes region).length_le
    have same : codeFrom (rest.length + 1) left = codeFrom (left.length + 1) left :=
      codeFrom_enough _ _ left (by omega) (by omega)
    simp only [List.length_cons, same, code]

theorem code_keep {c : Char} {rest : List Char} (kept : regionAt c rest = none) : code (c :: rest) = c :: code rest := by
  rw [code_cons, kept]

theorem name_keeps {c : Char} (inside : inName c = true) (rest : List Char) : regionAt c rest = none := by
  have ordinary : c ∉ ['\'', '"', '\x60', '-', '/', '$'] := by
    intro member
    simp only [List.mem_cons, List.not_mem_nil, or_false] at member
    rcases member with rfl | rfl | rfl | rfl | rfl | rfl <;> exact absurd inside (by decide)
  simp only [List.mem_cons, List.not_mem_nil, or_false, not_or] at ordinary
  simp [regionAt, ordinary]

theorem code_run {run : List Char} (inside : ∀ c ∈ run, inName c = true) (after : List Char) :
    code (run ++ after) = run ++ code after := by
  induction run with
  | nil => rfl
  | cons c run ih =>
    rw [List.cons_append, code_keep (name_keeps (inside c List.mem_cons_self) _),
      ih fun x member => inside x (List.mem_cons_of_mem _ member), List.cons_append]

/-- Where no character of a class stands, none stands in the code. -/
theorem code_head {class_ : Char → Bool} (blank : class_ ' ' = false) {text : List Char}
    (outside : ∀ c ∈ text.head?, class_ c = false) : ∀ c ∈ (code text).head?, class_ c = false := by
  cases text with
  | nil => exact nofun
  | cons c rest =>
    rw [code_cons]
    cases regionAt c rest with
    | none => exact fun x head => outside x (by simpa using head)
    | some left =>
      rintro x ⟨⟩
      exact blank

/-- A slot that the code spells, the text spells. -/
theorem code_begins {m : Marking Char} (blank : m.first ' ' = false) {before : Option Char} {c : Char} {rest : List Char}
    (begins : m.Begins before c (code rest)) : m.Begins before c rest := by
  refine ⟨begins.1, begins.2.1, ?_⟩
  by_contra none_
  have outside : ∀ x ∈ rest.head?, m.first x = false := by
    intro x head
    rw [Option.mem_def.mp head] at none_
    simpa using none_
  have kept := code_head blank outside
  have first := begins.2.2
  cases shape : (code rest).head? with
  | none =>
    rw [shape] at first
    cases first
  | some x =>
    rw [shape] at first
    rw [Option.any_some, kept x shape] at first
    cases first

end Regions

section Slots

/-- The slots that the scanner lists are those that the text spells. -/
structure Spelled (tokens : List (List Char)) (before : Option Char) (text : List Char) : Prop where
  numbers : tokens.filter (fun token => token.head? = some '$') = numberSlot.spellings before text
  questions : tokens.countP (fun token => token = ['?']) = text.count '?'
  names : tokens.filter (fun token => token.head? = some ':' ∨ token.head? = some '@') = nameSlot.spellings before text

variable {tokens : List (List Char)} {before : Option Char} {c : Char} {text run : List Char}

theorem spelled_nil (before : Option Char) : Spelled [] before [] := ⟨rfl, rfl, rfl⟩

theorem Spelled.skip (spelled : Spelled tokens (some c) text) (number : ¬ numberSlot.Begins before c text)
    (name : ¬ nameSlot.Begins before c text) (other : c ≠ '?') : Spelled tokens before (c :: text) := by
  refine ⟨?_, ?_, ?_⟩
  · rw [Marking.spellings, if_neg number, spelled.numbers]
  · rw [spelled.questions, List.count_cons_of_ne other]
  · rw [Marking.spellings, if_neg name, spelled.names]

theorem Spelled.question (spelled : Spelled tokens (some '?') text) : Spelled (['?'] :: tokens) before ('?' :: text) := by
  have number : ¬ numberSlot.Begins before '?' text := fun begins => absurd begins.1 (by decide)
  have name : ¬ nameSlot.Begins before '?' text := fun begins => absurd begins.1 (by decide)
  refine ⟨?_, ?_, ?_⟩
  · rw [Marking.spellings, if_neg number, ← spelled.numbers]
    rfl
  · rw [List.countP_cons_of_pos (by simp), spelled.questions, List.count_cons_self]
  · rw [Marking.spellings, if_neg name, ← spelled.names]
    rfl

theorem count_run (inside : ∀ c ∈ run, inName c = true) (text : List Char) : (run ++ text).count '?' = text.count '?' := by
  have none_ : run.count '?' = 0 := by
    rw [List.count_eq_zero]
    intro member
    exact absurd (inside _ member) (by decide)
  rw [List.count_append, none_, Nat.zero_add]

theorem unmarked_run (inside : ∀ c ∈ run, inName c = true) :
    (∀ c ∈ run, numberSlot.mark c = false) ∧ ∀ c ∈ run, nameSlot.mark c = false := by
  constructor
  · intro c member
    by_contra mark
    have same : c = '$' := by simpa [numberSlot] using mark
    exact absurd (inside c member) (by rw [same]; decide)
  · exact fun c member => nameSlot.mark_outside c (inside c member)

theorem Spelled.number {d : Char} (spelled : Spelled tokens (d :: run).getLast? text) (digits : ∀ c ∈ d :: run, c.isDigit = true)
    (stops : ∀ c ∈ text.head?, c.isDigit = false) :
    Spelled (('$' :: d :: run) :: tokens) before ('$' :: (d :: run ++ text)) := by
  have inside : ∀ c ∈ d :: run, inName c = true := fun c member => by simp [inName, Char.isAlphanum, digits c member]
  have name : ¬ nameSlot.Begins before '$' (d :: run ++ text) := fun begins => absurd begins.1 (by decide)
  refine ⟨?_, ?_, ?_⟩
  · rw [numberSlot.spellings_begins rfl (by cases before <;> rfl) (digits d List.mem_cons_self)
      (fun c member => digits c (List.mem_cons_of_mem _ member)) stops, ← spelled.numbers]
    rfl
  · rw [List.countP_cons_of_neg (by simp), spelled.questions, List.count_cons_of_ne (by decide), count_run inside]
  · rw [Marking.spellings, if_neg name, nameSlot.spellings_unmarked (unmarked_run inside).2, List.getLast?_cons, Option.some_or,
      ← List.getLast?_cons, ← spelled.names]
    rfl

theorem Spelled.name {n : Char} (spelled : Spelled tokens (n :: run).getLast? text) (mark : c = ':' ∨ c = '@')
    (apart : before.any nameSlot.barred = false) (first : startsName n = true) (inner : ∀ c ∈ run, inName c = true)
    (stops : ∀ c ∈ text.head?, inName c = false) :
    Spelled ((c :: n :: run) :: tokens) before (c :: (n :: run ++ text)) := by
  have inside : ∀ x ∈ n :: run, inName x = true := by
    intro x member
    rcases List.mem_cons.mp member with rfl | later
    · exact nameSlot.first_inside x first
    · exact inner x later
  have number : ¬ numberSlot.Begins before c (n :: run ++ text) := by
    rintro ⟨dollar, -, -⟩
    rcases mark with rfl | rfl <;> exact absurd dollar (by decide)
  have marked : nameSlot.mark c = true := by rcases mark with rfl | rfl <;> rfl
  refine ⟨?_, ?_, ?_⟩
  · have other : c ≠ '$' := by rcases mark with rfl | rfl <;> decide
    rw [Marking.spellings, if_neg number, numberSlot.spellings_unmarked (unmarked_run inside).1, List.getLast?_cons,
      Option.some_or, ← List.getLast?_cons, ← spelled.numbers, List.filter_cons_of_neg (by simpa using other)]
  · have other : c ≠ '?' := by rcases mark with rfl | rfl <;> decide
    rw [List.countP_cons_of_neg (by simp), spelled.questions, List.count_cons_of_ne other, count_run inside]
  · rw [nameSlot.spellings_begins marked apart first inner stops, ← spelled.names,
      List.filter_cons_of_pos (by simpa using mark)]

theorem scanAt_region {before : Option Char} {c : Char} {rest left : List Char} (region : regionAt c rest = some left) :
    scanAt before c rest = (none, left) := by
  rw [regionAt] at region
  rw [scanAt]
  split at region
  · rename_i quote
    rw [if_pos quote, Option.some_inj.mp region]
  rename_i noQuote
  rw [if_neg noQuote]
  split at region
  · rename_i dashes
    rw [if_pos dashes, Option.some_inj.mp region]
  rename_i noDashes
  rw [if_neg noDashes]
  split at region
  · rename_i opens
    rw [if_pos opens, Option.some_inj.mp region]
  rename_i noBlock
  rw [if_neg noBlock]
  split at region
  · rename_i dollar
    obtain ⟨⟨opening, body⟩, found, rfl⟩ := Option.map_eq_some_iff.mp region
    rw [if_pos dollar, found]
  · cases region

/-- The slot that begins at a character of the code, and what is left after it. -/
def slotAt (before : Option Char) (c : Char) (rest : List Char) : Option (List Char) × List Char :=
  if numberSlot.Begins before c rest then (some (c :: rest.takeWhile Char.isDigit), rest.dropWhile Char.isDigit)
  else if c = '?' then (some [c], rest)
  else if nameSlot.Begins before c rest then (some (c :: rest.takeWhile inName), rest.dropWhile inName)
  else (none, rest)

theorem slotAt_before {before before' : Option Char} (same : before.any nameSlot.barred = before'.any nameSlot.barred) (c : Char)
    (rest : List Char) : slotAt before c rest = slotAt before' c rest := by
  have free : ∀ before : Option Char, before.any numberSlot.barred = false := fun before => by cases before <;> rfl
  have number : numberSlot.Begins before c rest ↔ numberSlot.Begins before' c rest := by
    rw [Marking.Begins, Marking.Begins, free, free]
  have name : nameSlot.Begins before c rest ↔ nameSlot.Begins before' c rest := by
    rw [Marking.Begins, Marking.Begins, same]
  exact if_congr number rfl (if_congr Iff.rfl rfl (if_congr name rfl rfl))

theorem scanAt_code {before : Option Char} {c : Char} {rest : List Char} (kept : regionAt c rest = none) :
    scanAt before c rest = slotAt before c rest := by
  rw [regionAt] at kept
  rw [scanAt, slotAt]
  split at kept
  · cases kept
  rename_i noQuote
  rw [if_neg noQuote]
  split at kept
  · cases kept
  rename_i noDashes
  rw [if_neg noDashes]
  split at kept
  · cases kept
  rename_i noBlock
  rw [if_neg noBlock]
  split at kept
  · rename_i dollar
    rw [Option.map_eq_none_iff] at kept
    rw [if_pos dollar, kept]
    subst dollar
    have begins : numberSlot.Begins before '$' rest ↔ rest.head?.any Char.isDigit = true :=
      ⟨fun begins => begins.2.2, fun digit => ⟨rfl, by cases before <;> rfl, digit⟩⟩
    have name : ¬ nameSlot.Begins before '$' rest := fun begins => absurd begins.1 (by decide)
    by_cases digit : rest.head?.any Char.isDigit = true
    · simp [slotName, digit, if_pos (begins.mpr digit)]
    · simp [slotName, digit, if_neg fun other => digit (begins.mp other), if_neg name]
  · rename_i noDollar
    have number : ¬ numberSlot.Begins before c rest := fun begins => noDollar (by simpa [numberSlot] using begins.1)
    rw [if_neg noDollar, if_neg number]
    by_cases question : c = '?'
    · rw [if_pos question, if_pos question]
    rw [if_neg question, if_neg question]
    by_cases begins : nameSlot.Begins before c rest
    · have ⟨mark, apart, first⟩ := begins
      have marked : c = ':' ∨ c = '@' := by simpa [nameSlot, or_iff_not_imp_left] using mark
      have fresh : before ≠ some ':' := by
        rintro rfl
        cases apart
      have single : rest.head? ≠ some ':' := by
        intro colon
        rw [colon] at first
        exact absurd first (by decide)
      have first' : rest.head?.any startsName = true := first
      rw [if_pos ⟨marked, fresh, single⟩, if_pos begins, slotName, if_pos first']
    · rw [if_neg begins]
      split
      · rename_i open_
        have first : ¬ rest.head?.any startsName = true := by
          intro first
          refine begins ⟨?_, ?_, first⟩
          · rcases open_.1 with rfl | rfl <;> rfl
          · cases before with
            | none => rfl
            | some x => simpa [nameSlot] using open_.2.1
        rw [slotName, if_neg first]
      · rfl

theorem passed_taken (c : Char) (taken left : List Char) :
    (c :: (taken ++ left)).take ((c :: (taken ++ left)).length - left.length) = c :: taken := by
  rw [← List.cons_append, List.length_append, Nat.add_sub_cancel, List.take_left]

theorem head_passed (c d : Char) (run passed : List Char) :
    ((c :: d :: run).reverse ++ passed).head? = (d :: run).getLast? := by
  rw [List.head?_append, List.head?_reverse, List.getLast?_cons_cons]
  simp [List.getLast?_cons]

/-- A slot takes its run, and no character of the run goes on in what is left. -/
theorem run_split {first inside : Char → Bool} (fits : ∀ c, first c = true → inside c = true) {rest : List Char}
    (begins : rest.head?.any first = true) : ∃ d run, first d = true ∧ (∀ c ∈ d :: run, inside c = true) ∧
      rest = d :: run ++ rest.dropWhile inside ∧ rest.takeWhile inside = d :: run ∧
      ∀ c ∈ (rest.dropWhile inside).head?, inside c = false := by
  cases rest with
  | nil => cases begins
  | cons d more =>
    have starts : first d = true := by simpa using begins
    have taken : (d :: more).takeWhile inside = d :: more.takeWhile inside := List.takeWhile_cons_of_pos (fits d starts)
    refine ⟨d, more.takeWhile inside, starts, ?_, ?_, taken, ?_⟩
    · rw [← taken]
      exact List.all_eq_true.mp List.all_takeWhile
    · rw [← taken, List.takeWhile_append_dropWhile]
    · intro c head
      have stops := List.head?_dropWhile_not inside (d :: more)
      rw [head] at stops
      exact stops

/-- The scanner lists the slots that the code of the text spells. -/
theorem scan_spelled (fuel : Nat) (passed : List Char) (before : Option Char) (rest : List Char) (enough : rest.length < fuel)
    (same : before.any nameSlot.barred = passed.head?.any nameSlot.barred) :
    Spelled ((scanFrom fuel passed rest).map PlaceholderMatch.token) before (code rest) := by
  induction fuel generalizing passed before rest with
  | zero => omega
  | succ fuel ih =>
    cases rest with
    | nil => exact spelled_nil before
    | cons c rest =>
      rw [List.length_cons] at enough
      cases region : regionAt c rest with
      | some left =>
        rw [scanFrom, scanAt_region region, code_cons, region]
        have shorter := (region_passes region).length_le
        obtain ⟨taken, rfl, ends⟩ := region_passes region
        simp only [passed_taken]
        have skipped : Spelled ((scanFrom fuel ((c :: taken).reverse ++ passed) left).map PlaceholderMatch.token) (some ' ')
            (code left) := by
          by_cases none_ : left = []
          · subst none_
            cases fuel <;> exact spelled_nil (some ' ')
          · apply ih _ _ _ (by omega)
            obtain ⟨last, member, other⟩ := ends none_
            cases taken with
            | nil => cases member
            | cons d taken =>
              rw [head_passed, Option.mem_def.mp member]
              simpa [nameSlot] using other
        exact skipped.skip (fun begins => absurd begins.1 (by decide)) (fun begins => absurd begins.1 (by decide)) (by decide)
      | none =>
        rw [scanFrom, scanAt_code region, code_keep region, ← slotAt_before same, slotAt]
        have single : ∀ rest : List Char, (c :: rest).take ((c :: rest).length - rest.length) = [c] := passed_taken c []
        by_cases number : numberSlot.Begins before c rest
        · have dollar : c = '$' := by simpa [numberSlot] using number.1
          obtain ⟨d, run, -, digits, split, taken, stops⟩ := run_split numberSlot.first_inside number.2.2
          change rest.takeWhile Char.isDigit = d :: run at taken
          change rest = d :: run ++ rest.dropWhile Char.isDigit at split
          change ∀ c ∈ d :: run, c.isDigit = true at digits
          change ∀ c ∈ (rest.dropWhile Char.isDigit).head?, c.isDigit = false at stops
          rw [if_pos number, taken]
          generalize rest.dropWhile Char.isDigit = left at split stops ⊢
          subst split dollar
          have inside : ∀ c ∈ d :: run, inName c = true := fun c member => by
            simp [inName, Char.isAlphanum, digits c member]
          rw [code_run inside]
          simp only [passed_taken]
          have later := ih (('$' :: d :: run).reverse ++ passed) (d :: run).getLast? left
            (by simp only [List.length_append, List.length_cons] at enough; omega) (by rw [head_passed])
          exact later.number digits (code_head rfl stops)
        rw [if_neg number]
        by_cases question : c = '?'
        · subst question
          rw [if_pos rfl]
          simp only [single]
          exact (ih ('?' :: passed) (some '?') rest (by omega) rfl).question
        rw [if_neg question]
        by_cases name : nameSlot.Begins before c rest
        · have mark : c = ':' ∨ c = '@' := by simpa [nameSlot, or_iff_not_imp_left] using name.1
          obtain ⟨d, run, first, inside, split, taken, stops⟩ := run_split nameSlot.first_inside name.2.2
          rw [if_pos name]
          change rest.takeWhile inName = d :: run at taken
          rw [taken]
          change rest = d :: run ++ rest.dropWhile inName at split
          change ∀ c ∈ (rest.dropWhile inName).head?, inName c = false at stops
          have apart := name.2.1
          generalize rest.dropWhile inName = left at split stops ⊢
          subst split
          rw [code_run inside]
          simp only [passed_taken]
          have later := ih ((c :: d :: run).reverse ++ passed) (d :: run).getLast? left
            (by simp only [List.length_append, List.length_cons] at enough; omega) (by rw [head_passed])
          exact later.name mark apart first (fun x member => inside x (List.mem_cons_of_mem _ member)) (code_head rfl stops)
        · rw [if_neg name]
          simp only [single]
          exact (ih (c :: passed) (some c) rest (by omega) rfl).skip (fun begins => number (code_begins rfl begins))
            (fun begins => name (code_begins rfl begins)) question

end Slots

section Keys

theorem key_token {token : List Char} {c : Char} (head : token.head? = some c) (other : c ≠ '?') (index : Nat)
    (type : ParameterType) : parameterValueKey ⟨token, index, type⟩ = token := by
  apply if_neg
  rintro rfl
  cases head
  exact other rfl

/-- A loop that lists the tokens of a kind lists each of them as a key. -/
theorem detected_keys (body : Detected → PlaceholderMatch → Detected) (takes : List Char → Prop) [DecidablePred takes]
    (skips : ∀ s m, ¬ takes m.token ∨ m.token ∈ s.seen → body s m = s)
    (adds : ∀ s m, takes m.token → m.token ∉ s.seen →
      ∃ p, parameterValueKey p = m.token ∧ body s m = ⟨m.token :: s.seen, s.params ++ [p]⟩)
    {s : Detected} (listed : ∀ k ∈ s.seen, k ∈ s.params.map parameterValueKey) (found : List PlaceholderMatch) :
    (∀ k ∈ (found.foldl body s).seen, k ∈ (found.foldl body s).params.map parameterValueKey) ∧
      ∀ k, k ∈ (found.foldl body s).params.map parameterValueKey ↔
        k ∈ s.params.map parameterValueKey ∨ k ∈ (found.map PlaceholderMatch.token).filter fun token => takes token := by
  obtain ⟨all, keys⟩ := Machine.foldl_listing body (fun s => s.params.map parameterValueKey) (fun m => takes m.token)
    Detected.seen PlaceholderMatch.token skips (by
      intro s m taken fresh
      obtain ⟨p, key, same⟩ := adds s m taken fresh
      rw [same]
      exact ⟨rfl, by simp [key]⟩) listed found
  refine ⟨all, fun k => (keys k).trans (or_congr_right ?_)⟩
  simp only [List.mem_filter, List.mem_map, decide_eq_true_eq]
  constructor
  · rintro ⟨m, member, taken, rfl⟩
    exact ⟨⟨m, member, rfl⟩, taken⟩
  · rintro ⟨⟨m, member, rfl⟩, taken⟩
    exact ⟨m, member, taken, rfl⟩

theorem question_keys (found : List PlaceholderMatch) (params : List Parameter) (k : List Char) :
    k ∈ (found.foldl numberQuestion (1, params)).2.map parameterValueKey ↔
      k ∈ params.map parameterValueKey ∨
        ∃ n, 1 ≤ n ∧ n ≤ (found.map PlaceholderMatch.token).countP (fun token => token = ['?']) ∧ k = questionKey n := by
  have numbered := Machine.foldl_numbering numberQuestion (fun s => s.2.map parameterValueKey) (fun m => m.token = ['?'])
    Prod.fst questionKey (fun s m other => if_pos other) (by
      intro s m question
      rw [numberQuestion, if_neg (by simpa using question)]
      exact ⟨rfl, by simp [parameterValueKey]⟩) (1, params) found
  rw [numbered, List.mem_append, List.countP_map]
  apply or_congr_right
  simp only [List.mem_map, List.mem_range'_1, Function.comp_def]
  constructor
  · rintro ⟨n, ⟨least, most⟩, rfl⟩
    exact ⟨n, least, by omega, rfl⟩
  · rintro ⟨n, least, most, rfl⟩
    exact ⟨n, ⟨least, by omega⟩, rfl⟩

/-- The keys that the client lists are the slots that the scanner finds. -/
theorem listed_keys (sql k : List Char) : k ∈ (detectParameters sql).map parameterValueKey ↔
    k ∈ ((scanPlaceholders sql).map PlaceholderMatch.token).filter (fun token => token.head? = some '$') ∨
      (∃ n, 1 ≤ n ∧ n ≤ ((scanPlaceholders sql).map PlaceholderMatch.token).countP (fun token => token = ['?']) ∧
        k = questionKey n) ∨
      k ∈ ((scanPlaceholders sql).map PlaceholderMatch.token).filter
        (fun token => token.head? = some ':' ∨ token.head? = some '@') := by
  have dollars := detected_keys Detected.dollar (fun token => token.head? = some '$') (fun s m passed => if_pos passed) (by
      intro s m head fresh
      rw [Detected.dollar, if_neg (by simp [head, fresh])]
      exact ⟨_, key_token head (by decide) _ _, rfl⟩) (s := ⟨[], []⟩) nofun (scanPlaceholders sql)
  have questions := question_keys (scanPlaceholders sql) ((scanPlaceholders sql).foldl Detected.dollar ⟨[], []⟩).params
  have names := detected_keys Detected.name (fun token => token.head? = some ':' ∨ token.head? = some '@')
    (fun s m passed => if_pos passed) (by
      intro s m head fresh
      rw [Detected.name, if_neg (by simp [head, fresh])]
      refine ⟨_, ?_, rfl⟩
      rcases head with colon | sign
      · exact key_token colon (by decide) _ _
      · exact key_token sign (by decide) _ _)
    (s := ⟨((scanPlaceholders sql).foldl Detected.dollar ⟨[], []⟩).seen,
      ((scanPlaceholders sql).foldl numberQuestion (1, ((scanPlaceholders sql).foldl Detected.dollar ⟨[], []⟩).params)).2⟩)
    (fun k seen => (questions k).mpr (.inl (dollars.1 k seen))) (scanPlaceholders sql)
  have sorted : k ∈ (detectParameters sql).map parameterValueKey ↔
      k ∈ ((scanPlaceholders sql).foldl Detected.name ⟨((scanPlaceholders sql).foldl Detected.dollar ⟨[], []⟩).seen,
        ((scanPlaceholders sql).foldl numberQuestion
          (1, ((scanPlaceholders sql).foldl Detected.dollar ⟨[], []⟩).params)).2⟩).params.map parameterValueKey := by
    simp only [detectParameters, List.mem_map, List.mem_insertionSort]
  rw [sorted, names.2, questions, dollars.2]
  simp [or_assoc]

/-- The keys that the client lists are the slots that the code spells. -/
theorem detect_keys (sql k : List Char) : k ∈ (detectParameters sql).map parameterValueKey ↔
    k ∈ numberSlot.spellings none (code sql) ∨ (∃ n, 1 ≤ n ∧ n ≤ (code sql).count '?' ∧ k = questionKey n) ∨
      k ∈ nameSlot.spellings none (code sql) := by
  have spelled : Spelled ((scanPlaceholders sql).map PlaceholderMatch.token) none (code sql) :=
    scan_spelled _ [] none sql (Nat.lt_succ_self _) rfl
  rw [listed_keys, spelled.numbers, spelled.questions, spelled.names]

end Keys

end Rdst.Web.SqlParameters
