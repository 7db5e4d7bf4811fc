import Rdst.Web.ScannedCells

namespace Rdst.Web.SqlParameters

open Regex
open SqlLexer (written encloses)

section Calm

/-- With the second character the scanner goes on from the first. -/
def meets (y x : Char) : Bool :=
  (y == '\'' && x == '\'') || (y == '-' && x == '-') || ((y == '$' || inName y) && inName x) ||
    ((y == ':' || y == '@') && startsName x)

def meetsAt (y x : Option Char) : Bool := y.any fun y => x.any (meets y)

/-- The scanner goes on neither from what stands before a place to what is written there, nor from there to what follows. -/
def calm (text : PlaceholderMatch × Nat → List Char) : Option Char → List (Char ⊕ (PlaceholderMatch × Nat)) → Bool
  | _, [] => true
  | _, .inl c :: rest => calm text (some c) rest
  | b, .inr s :: rest =>
    !meetsAt b (text s).head? && !meetsAt (text s).getLast? (written text rest).head? && calm text (text s).getLast? rest

variable {text : PlaceholderMatch × Nat → List Char}

theorem calm_chars (b : Option Char) (chars : List Char) (rest : List (Char ⊕ (PlaceholderMatch × Nat))) :
    calm text b (chars.map .inl ++ rest) = calm text (chars.getLast?.or b) rest := by
  induction chars generalizing b with
  | nil => rfl
  | cons c chars ih =>
    rw [List.map_cons, List.cons_append, calm, ih, List.getLast?_cons]
    cases chars.getLast? <;> rfl

end Calm

section Silence

theorem scanAt_before {b b' : Option Char} (same : b.any nameSlot.barred = b'.any nameSlot.barred) (c : Char) (rest : List Char) :
    scanAt b c rest = scanAt b' c rest := by
  cases region : regionAt c rest with
  | some left => rw [scanAt_region region, scanAt_region region]
  | none => rw [scanAt_code region, scanAt_code region, slotAt_before same]

theorem scanFrom_before {passed passed' : List Char}
    (same : passed.head?.any nameSlot.barred = passed'.head?.any nameSlot.barred) (fuel : Nat) (text : List Char) :
    (scanFrom fuel passed text).map PlaceholderMatch.token = (scanFrom fuel passed' text).map PlaceholderMatch.token := by
  induction fuel generalizing passed passed' text with
  | zero => rfl
  | succ fuel ih =>
    cases text with
    | nil => rfl
    | cons c rest =>
      rw [scanFrom, scanFrom, scanAt_before same c rest]
      obtain ⟨taken, parts, -⟩ := scanAt_passed passed'.head? c rest
      generalize scanAt passed'.head? c rest = turn at parts
      obtain ⟨slot, left⟩ := turn
      change rest = taken ++ left at parts
      subst parts
      simp only [passed_taken, List.map_append]
      congr 1
      · cases slot <;> rfl
      · exact ih (by simp [List.head?_append]) left

/-- The scanner finds nothing in the text after a character. -/
def Silent (b : Option Char) (text : List Char) : Prop := ∀ fuel, scanFrom fuel b.toList text = []

variable {b b' : Option Char} {c : Char} {rest left taken : List Char}

theorem Silent.after (silent : Silent b left) {passed : List Char} (same : b.any nameSlot.barred = passed.head?.any nameSlot.barred)
    (fuel : Nat) : scanFrom fuel passed left = [] := by
  have heads : b.toList.head? = b := by cases b <;> rfl
  have tokens := @scanFrom_before b.toList passed (by rw [heads, same]) fuel left
  rw [silent fuel] at tokens
  exact List.map_eq_nil_iff.mp tokens.symm

theorem silent_nil : Silent b [] := fun fuel => by cases fuel <;> rfl

theorem silent_code (kept : regionAt c rest = none) (free : slotAt b c rest = (none, rest)) (later : Silent (some c) rest) :
    Silent b (c :: rest) := by
  intro fuel
  cases fuel with
  | zero => rfl
  | succ fuel =>
    have heads : b.toList.head? = b := by cases b <;> rfl
    rw [scanFrom, heads, scanAt_code kept, free]
    exact later.after (by simp) fuel

theorem silent_region (region : regionAt c (taken ++ left) = some left) (later : left ≠ [] → Silent (c :: taken).getLast? left) :
    Silent b (c :: (taken ++ left)) := by
  intro fuel
  cases fuel with
  | zero => rfl
  | succ fuel =>
    rw [scanFrom, scanAt_region region]
    simp only [passed_taken]
    by_cases empty : left = []
    · subst empty
      cases fuel <;> rfl
    · exact (later empty).after (by rw [List.head?_append_of_ne_nil _ (by simp), List.head?_reverse]) fuel

/-- A character of a name or a point begins nothing. -/
theorem silent_run {run : List Char} (inside : ∀ c ∈ run, inName c = true ∨ c = '.') (later : Silent (run.getLast?.or b) left) :
    Silent b (run ++ left) := by
  induction run generalizing b with
  | nil => exact later
  | cons c run ih =>
    have last : (run.getLast?.or (some c)) = (c :: run).getLast?.or b := by
      rw [List.getLast?_cons]
      cases run.getLast? <;> rfl
    have rest := ih (b := some c) (fun x member => inside x (List.mem_cons_of_mem c member)) (last ▸ later)
    have ordinary : c ∉ ['\'', '"', '\x60', '-', '/', '$', '?', ':', '@'] := by
      intro member
      rcases inside c List.mem_cons_self with named | rfl
      · simp only [List.mem_cons, List.not_mem_nil, or_false] at member
        rcases member with rfl | rfl | rfl | rfl | rfl | rfl | rfl | rfl | rfl <;> exact absurd named (by decide)
      · exact absurd member (by decide)
    simp only [List.mem_cons, List.not_mem_nil, or_false, not_or] at ordinary
    have kept : ∀ text, regionAt c text = none := fun text => by simp [regionAt, ordinary]
    have free : ∀ b text, slotAt b c text = (none, text) := fun b text => by
      simp [slotAt, Marking.Begins, numberSlot, nameSlot, ordinary]
    exact silent_code (kept _) (free _ _) rest

/-- What is written in a place begins and ends as a literal does, and the scanner passes it. -/
structure Bland (text : List Char) : Prop where
  leads : ∃ x ∈ text.head?, x.isAlphanum = true ∨ x = '-' ∨ x = '\''
  ends : ∃ y ∈ text.getLast?, y ≠ ':'
  silent : ∀ b left, meetsAt text.getLast? left.head? = false → Silent text.getLast? left → Silent b (text ++ left)

theorem Bland.other {text : List Char} (bland : Bland text) {x : Char} (head : text.head? = some x) :
    x ∉ ['"', '\x60', '*', '$', ':'] := by
  obtain ⟨x', member, shape⟩ := bland.leads
  have same : x' = x := Option.some_inj.mp (member.symm.trans head)
  subst same
  intro listed
  simp only [List.mem_cons, List.not_mem_nil, or_false] at listed
  rcases listed with rfl | rfl | rfl | rfl | rfl <;> exact absurd shape (by decide)

variable {text : PlaceholderMatch × Nat → List Char} {cells : List (Char ⊕ (PlaceholderMatch × Nat))}

/-- What the filled text goes on with is what the text goes on with, or a literal with which the scanner goes on from nothing. -/
def Follows (y : Char) (head head' : Option Char) : Prop :=
  head' = head ∨ ∃ x, head' = some x ∧ meets y x = false ∧ x ∉ ['"', '\x60', '*', '$', ':']

theorem follows_written {fuel n : Nat} {passed rest : List Char} (enough : rest.length < fuel)
    (bland : ∀ s, .inr s ∈ cutFrom fuel n passed rest → Bland (text s)) {y : Char}
    (still : calm text (some y) (cutFrom fuel n passed rest) = true) :
    Follows y rest.head? (written text (cutFrom fuel n passed rest)).head? := by
  cases fuel with
  | zero => omega
  | succ fuel =>
    cases rest with
    | nil => exact .inl rfl
    | cons c rest =>
      obtain ⟨taken, parts, -⟩ := scanAt_passed passed.head? c rest
      rw [cutFrom] at bland still ⊢
      generalize scanAt passed.head? c rest = turn at parts bland still
      obtain ⟨slot, left⟩ := turn
      change rest = taken ++ left at parts
      subst parts
      simp only [passed_taken] at bland still ⊢
      cases slot with
      | none => exact .inl (by rw [written_chars]; rfl)
      | some token =>
        have here := bland _ List.mem_cons_self
        obtain ⟨x, head, -⟩ := here.leads
        have first : (written text (.inr (⟨token, units passed, units passed + units token⟩, if token = ['?'] then n + 1 else n) ::
            cutFrom fuel (if token = ['?'] then n + 1 else n) ((c :: taken).reverse ++ passed) left)).head? = some x := by
          rw [written, List.flatMap_cons, Sum.elim_inr, List.head?_append, Option.mem_def.mp head, Option.some_or]
        refine .inr ⟨x, first, ?_, here.other head⟩
        rw [calm, Bool.and_eq_true, Bool.and_eq_true, Option.mem_def.mp head] at still
        simpa [meetsAt] using still.1.1

/-- A run of names is cut into its characters. -/
theorem cut_run {run : List Char} (inside : ∀ c ∈ run, inName c = true) {fuel n : Nat} {passed rest : List Char}
    (enough : (run ++ rest).length < fuel) : ∃ fuel', rest.length < fuel' ∧
      cutFrom fuel n passed (run ++ rest) = run.map .inl ++ cutFrom fuel' n (run.reverse ++ passed) rest := by
  induction run generalizing fuel passed with
  | nil => exact ⟨fuel, enough, rfl⟩
  | cons c run ih =>
    cases fuel with
    | zero => omega
    | succ fuel =>
      have named := inside c List.mem_cons_self
      have unmarked := @unmarked_run [c] (by simpa using named)
      have number : numberSlot.mark c = false := unmarked.1 c (by simp)
      have name : nameSlot.mark c = false := unmarked.2 c (by simp)
      have other : c ≠ '?' := by
        rintro rfl
        exact absurd named (by decide)
      have turn : scanAt passed.head? c (run ++ rest) = (none, run ++ rest) := by
        rw [scanAt_code (name_keeps named _), slotAt, if_neg (fun begins => Bool.false_ne_true (number.symm.trans begins.1)), if_neg other,
          if_neg (fun begins => Bool.false_ne_true (name.symm.trans begins.1))]
      rw [List.cons_append, List.length_cons] at enough
      obtain ⟨fuel', less, split⟩ := @ih (fun x member => inside x (List.mem_cons_of_mem c member)) fuel (c :: passed) (by omega)
      refine ⟨fuel', less, ?_⟩
      rw [List.cons_append, cutFrom, turn]
      have single := passed_taken c [] (run ++ rest)
      rw [List.nil_append] at single
      simp only [single]
      have whole : (c :: run).reverse ++ passed = run.reverse ++ c :: passed := by simp
      rw [whole]
      change Sum.inl c :: cutFrom fuel n (c :: passed) (run ++ rest) = Sum.inl c :: (run.map .inl ++ _)
      rw [split]

/-- Where no dollar quote opened, none opens with the literals in place. -/
theorem dollar_written {fuel n : Nat} {passed rest : List Char} (enough : rest.length < fuel)
    (bland : ∀ s, .inr s ∈ cutFrom fuel n passed rest → Bland (text s)) (still : calm text (some '$') (cutFrom fuel n passed rest) = true)
    (none_ : dollarQuoteOpen rest = none) : dollarQuoteOpen (written text (cutFrom fuel n passed rest)) = none := by
  have inside : ∀ c ∈ rest.takeWhile inName, inName c = true := List.all_eq_true.mp List.all_takeWhile
  have stops := List.head?_dropWhile_not inName rest
  have split : rest = rest.takeWhile inName ++ rest.dropWhile inName := List.takeWhile_append_dropWhile.symm
  generalize rest.takeWhile inName = run at inside split
  generalize rest.dropWhile inName = left at stops split
  subst split
  obtain ⟨fuel', less, parts⟩ := @cut_run run inside fuel n passed left enough
  rw [parts] at bland still ⊢
  rw [calm_chars] at still
  rw [written_chars]
  have last : ∃ y, run.getLast?.or (some '$') = some y ∧ (y = '$' ∨ inName y = true) := by
    cases ends : run.getLast? with
    | none => exact ⟨'$', rfl, .inl rfl⟩
    | some y => exact ⟨y, rfl, .inr (inside y (List.mem_of_getLast? ends))⟩
  obtain ⟨y, end_, named⟩ := last
  rw [end_] at still
  have follows := follows_written less (fun s member => bland s (List.mem_append_right _ member)) still
  generalize written text (cutFrom fuel' n (run.reverse ++ passed) left) = left' at follows
  cases found : dollarQuoteOpen (run ++ left') with
  | none => rfl
  | some opened =>
    obtain ⟨name, others, starts, -, split⟩ := dollarQuoteOpen_spec (show dollarQuoteOpen _ = some (opened.1, opened.2) from found)
    have dollar : inName '$' = false := by decide
    have outside : left'.head?.any inName = false := by
      rcases follows with same | ⟨x, head, apart, -⟩
      · rw [same]
        cases left with
        | nil => rfl
        | cons x more => simpa using stops
      · rw [head]
        simp only [meets, Bool.or_eq_false_iff, Bool.and_eq_false_iff] at apart
        rcases named with rfl | named
        · simpa using apart.1.2
        · simpa [named] using apart.1.2
    have runs : run = name := by
      have takes := congrArg (List.takeWhile inName) split
      rw [List.takeWhile_append_of_pos inside, List.takeWhile_append_of_pos others,
        List.takeWhile_cons_of_neg (by simp [dollar]), List.append_nil] at takes
      cases left' with
      | nil => simpa using takes
      | cons x more =>
        rw [List.takeWhile_cons_of_neg (by simpa using outside), List.append_nil] at takes
        exact takes
    subst runs
    have here : left'.head? = some '$' := by rw [List.append_cancel_left split, List.head?_cons]
    rcases follows with same | ⟨x, head, -, other⟩
    · rw [here] at same
      obtain ⟨more, rfl⟩ : ∃ more, left = '$' :: more := by
        cases left with
        | nil => cases same
        | cons x more => exact ⟨more, by rw [Option.some_inj.mp same]⟩
      rw [dollarQuoteOpen_name inside, if_pos starts] at none_
      cases none_
    · rw [here] at head
      exact absurd (by simp) (Option.some_inj.mp head ▸ other)

/-- No region begins where none began, with the literals in place. -/
theorem region_written {fuel n : Nat} {passed rest : List Char} {c : Char} (enough : rest.length < fuel)
    (bland : ∀ s, .inr s ∈ cutFrom fuel n passed rest → Bland (text s)) (still : calm text (some c) (cutFrom fuel n passed rest) = true)
    (kept : regionAt c rest = none) : regionAt c (written text (cutFrom fuel n passed rest)) = none := by
  have follows := follows_written enough bland still
  have dollar : c = '$' → dollarQuoteOpen rest = none → dollarQuoteOpen (written text (cutFrom fuel n passed rest)) = none := by
    rintro rfl
    exact dollar_written enough bland still
  generalize written text (cutFrom fuel n passed rest) = rest' at follows dollar
  rw [regionAt] at kept ⊢
  split at kept
  · cases kept
  rename_i noQuote
  rw [if_neg noQuote]
  split at kept
  · cases kept
  rename_i noDashes
  have noDashes' : ¬ (c = '-' ∧ rest'.head? = some '-') := by
    rintro ⟨rfl, head⟩
    rcases follows with same | ⟨x, head', apart, -⟩
    · exact noDashes ⟨rfl, same ▸ head⟩
    · rw [Option.some_inj.mp (head'.symm.trans head)] at apart
      exact absurd apart (by decide)
  rw [if_neg noDashes']
  split at kept
  · cases kept
  rename_i noBlock
  have noBlock' : ¬ (c = '/' ∧ rest'.head? = some '*') := by
    rintro ⟨rfl, head⟩
    rcases follows with same | ⟨x, head', -, other⟩
    · exact noBlock ⟨rfl, same ▸ head⟩
    · rw [Option.some_inj.mp (head'.symm.trans head)] at other
      exact other (by simp)
  rw [if_neg noBlock']
  split at kept
  · rename_i sign
    rw [if_pos sign, dollar sign (Option.map_eq_none_iff.mp kept)]
    rfl
  · rename_i noDollar
    rw [if_neg noDollar]

/-- No slot begins where none began, with the literals in place. -/
theorem slot_written {b b' : Option Char} {c : Char} {rest rest' : List Char}
    (same : b'.any nameSlot.barred = b.any nameSlot.barred) (free : (slotAt b c rest).1 = none)
    (follows : Follows c rest.head? rest'.head?) : slotAt b' c rest' = (none, rest') := by
  rw [slotAt] at free ⊢
  split at free
  · cases free
  rename_i noNumber
  split at free
  · cases free
  rename_i noQuestion
  split at free
  · cases free
  rename_i noName
  have noNumber' : ¬ numberSlot.Begins b' c rest' := by
    rintro ⟨mark, -, first⟩
    have dollar : c = '$' := by simpa [numberSlot] using mark
    subst dollar
    rcases follows with heads | ⟨x, head, apart, -⟩
    · exact noNumber ⟨mark, by cases b <;> rfl, heads ▸ first⟩
    · rw [head] at first
      have digit : x.isDigit = true := first
      simp [meets, inName, Char.isAlphanum, digit] at apart
  have noName' : ¬ nameSlot.Begins b' c rest' := by
    rintro ⟨mark, barred, first⟩
    rcases follows with heads | ⟨x, head, apart, -⟩
    · exact noName ⟨mark, same ▸ barred, heads ▸ first⟩
    · rw [head] at first
      have starts : startsName x = true := first
      have sign : (c == ':' || c == '@') = true := mark
      simp [meets, starts, sign] at apart
  rw [if_neg noNumber', if_neg noQuestion, if_neg noName']

/-- No slot ends with a colon. -/
theorem slotAt_last {b : Option Char} {c : Char} {rest token : List Char} (slot : (slotAt b c rest).1 = some token) :
    ∃ y ∈ token.getLast?, y ≠ ':' := by
  have named : ∀ (inside first : Char → Bool), (∀ c, first c = true → inside c = true) → (∀ c, inside c = true → c ≠ ':') →
      rest.head?.any first = true → ∃ y ∈ (c :: rest.takeWhile inside).getLast?, y ≠ ':' := by
    intro inside first fits apart begins
    obtain ⟨d, run, -, all, -, taken, -⟩ := run_split fits begins
    refine ⟨(d :: run).getLast (List.cons_ne_nil d run), ?_, apart _ (all _ (List.getLast_mem _))⟩
    rw [taken, List.getLast?_cons_cons, List.getLast?_eq_getLast_of_ne_nil (List.cons_ne_nil d run)]
    rfl
  rw [slotAt] at slot
  split at slot
  · rename_i begins
    cases slot
    apply named Char.isDigit Char.isDigit (fun _ digit => digit) _ begins.2.2
    rintro x digit rfl
    exact absurd digit (by decide)
  split at slot
  · rename_i question
    cases slot
    exact ⟨c, rfl, by rw [question]; decide⟩
  split at slot
  · rename_i begins
    cases slot
    apply named inName startsName nameSlot.first_inside _ begins.2.2
    rintro x inside rfl
    exact absurd inside (by decide)
  · cases slot

theorem last_passed (c : Char) (taken passed : List Char) : ((c :: taken).reverse ++ passed).head? = (c :: taken).getLast? := by
  rw [List.head?_append_of_ne_nil _ (by simp), List.head?_reverse]

/-- With the literals in place the scanner finds nothing. -/
theorem cut_silent {fuel n : Nat} {passed rest : List Char} (enough : rest.length < fuel) {b : Option Char}
    (same : b.any nameSlot.barred = passed.head?.any nameSlot.barred)
    (bland : ∀ s, .inr s ∈ cutFrom fuel n passed rest → Bland (text s)) (still : calm text b (cutFrom fuel n passed rest) = true) :
    Silent b (written text (cutFrom fuel n passed rest)) := by
  induction fuel generalizing n passed rest b with
  | zero => omega
  | succ fuel ih =>
    cases rest with
    | nil => exact silent_nil
    | cons c rest =>
      rw [List.length_cons] at enough
      cases region : regionAt c rest with
      | some left =>
        have turn : ∀ taken, rest = taken ++ left → cutFrom (fuel + 1) n passed (c :: rest) =
            (c :: taken).map .inl ++ cutFrom fuel n ((c :: taken).reverse ++ passed) left := by
          rintro taken rfl
          rw [cutFrom, scanAt_region region]
          simp only [passed_taken]
        by_cases empty : left = []
        · subst empty
          have nothing : cutFrom fuel n ((c :: rest).reverse ++ passed) [] = [] := by cases fuel <;> rfl
          rw [turn rest (List.append_nil rest).symm, written_chars, nothing]
          exact @silent_region b c [] rest (by rwa [List.append_nil]) (absurd rfl)
        · obtain ⟨taken, rfl, quoted, closes⟩ := region_closes region empty
          have end_ : (c :: taken).getLast?.or b = (c :: taken).getLast? := by simp [List.getLast?_cons]
          have less : left.length < fuel := by
            rw [List.length_append] at enough
            omega
          rw [turn taken rfl] at bland still ⊢
          rw [calm_chars, end_] at still
          rw [written_chars]
          have bland' := fun s member => bland s (List.mem_append_right _ member)
          apply silent_region
          · apply closes
            intro quote head
            have last : (c :: taken).getLast? = some c := by rw [List.getLast?_cons, (quoted quote).1]; rfl
            rw [last] at still
            rcases follows_written less bland' still with heads | ⟨x, head', apart, other⟩
            · exact (quoted quote).2 (heads ▸ head)
            · rw [Option.some_inj.mp (head'.symm.trans head)] at apart other
              simp only [List.mem_cons, List.not_mem_nil, or_false] at quote
              rcases quote with rfl | rfl | rfl
              · exact absurd apart (by decide)
              · exact other (by decide)
              · exact other (by decide)
          · exact fun _ => ih less (by rw [last_passed]) bland' still
      | none =>
        have turn := @scanAt_code passed.head? c rest region
        cases slot : (slotAt passed.head? c rest).1 with
        | none =>
          have single := passed_taken c [] rest
          rw [List.nil_append] at single
          have cut : cutFrom (fuel + 1) n passed (c :: rest) = .inl c :: cutFrom fuel n (c :: passed) rest := by
            rw [cutFrom, turn, slot_written rfl slot (.inl rfl)]
            simp only [single]
            rfl
          rw [cut] at bland still ⊢
          have bland' := fun s member => bland s (List.mem_cons_of_mem _ member)
          have less : rest.length < fuel := by omega
          exact silent_code (region_written less bland' still region) (slot_written same slot (follows_written less bland' still))
            (ih less rfl bland' still)
        | some token =>
          obtain ⟨taken, parts, token_spec⟩ := scanAt_passed passed.head? c rest
          obtain ⟨last, member, notColon⟩ := slotAt_last slot
          rw [← turn] at slot
          obtain ⟨rfl, -⟩ := token_spec token slot
          rw [cutFrom] at bland still ⊢
          generalize scanAt passed.head? c rest = turned at parts slot bland still
          obtain ⟨found, left⟩ := turned
          change rest = taken ++ left at parts
          change found = some (c :: taken) at slot
          subst parts slot
          simp only [passed_taken] at bland still ⊢
          rw [calm, Bool.and_eq_true, Bool.and_eq_true] at still
          have here := bland _ List.mem_cons_self
          obtain ⟨y, end_, other⟩ := here.ends
          have less : left.length < fuel := by
            rw [List.length_append] at enough
            omega
          have apart := still.1.2
          rw [Bool.not_eq_true'] at apart
          apply here.silent b _ apart
          apply ih less _ (fun s member => bland s (List.mem_cons_of_mem _ member)) still.2
          rw [last_passed, Option.mem_def.mp end_, Option.mem_def.mp member]
          simp [nameSlot, other, notColon]

end Silence

/-- With a literal in the place of each slot, the scanner finds no slot. -/
theorem filled_silent {sql : List Char} {text : PlaceholderMatch × Nat → List Char} (bland : ∀ s ∈ slots sql, Bland (text s))
    (still : calm text none (cells sql) = true) : scanPlaceholders (fillSlots sql text) = [] := by
  have places : ∀ s, .inr s ∈ cells sql → s ∈ slots sql := by
    intro s member
    rw [slots, scanPlaceholders, ← cut_places]
    exact List.mem_filterMap.mpr ⟨_, member, rfl⟩
  have silent := cut_silent (Nat.lt_succ_self _) rfl (fun s member => bland s (places s member)) still
  rw [fillSlots_cells]
  exact silent _

end Rdst.Web.SqlParameters
