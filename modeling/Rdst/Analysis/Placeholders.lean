import Mathlib.Data.List.Sort
import Rdst.Lib.Marking
import Rdst.Lib.PyText
import Rdst.Lib.Run

namespace Rdst.Analysis.Placeholders

open PyText Regex

section Enumeration

def startsName (c : Char) : Bool := c.isAlpha || c == '_'

def pgPlaceholder (tables : Tables) : Pattern Char := .seq (.char fun c => c == '$') (plus (.char (isDecimal tables)))

def namedPlaceholder (tables : Tables) : Cursor Char → Option (Cursor Char) :=
  matchNotAfter (fun c => c == ':' || isWord tables c)
    (.seq (.char fun c => c == ':') (.seq (.char startsName) (.star (.char (isWord tables)))))

def quotedText (quote : Char) : Pattern Char :=
  sequence [.char fun c => c == quote, .star (.char fun c => c != quote), .char fun c => c == quote]

def stringOrQuestion : Pattern Char := choice [quotedText '\'', quotedText '"', .char fun c => c == '?']

structure Placeholder where
  placeholder : List Char
  key : List Char
  index : Nat
deriving DecidableEq

structure Found where
  start : Nat
  token : List Char
  key : List Char
  index : Nat

structure Listing where
  seen : List (List Char)
  found : List Found

/-- A match of `_PG_PLACEHOLDER_RE`, whose group is what follows the dollar. -/
def Listing.dollar (tables : Tables) (s : Listing) (m : Cursor Char × Cursor Char) : Except String Listing :=
  let token := matched m.1 m.2
  if token ∈ s.seen then .ok s
  else (int tables token.tail).map fun index => ⟨token :: s.seen, s.found ++ [⟨m.1.offset, token, token, index⟩]⟩

def questionKey (number : Nat) : List Char := '?' :: (toString number).toList

/-- A match of `_STRING_OR_QUESTION_RE`. -/
def numberQuestion (s : Nat × List Found) (m : Cursor Char × Cursor Char) : Nat × List Found :=
  if matched m.1 m.2 ≠ ['?'] then s
  else (s.1 + 1, s.2 ++ [⟨m.1.offset, ['?'], questionKey (s.1 + 1), s.1 + 1⟩])

/-- A match of `_NAMED_PLACEHOLDER_RE`. -/
def Listing.name (s : Listing) (m : Cursor Char × Cursor Char) : Listing :=
  let token := matched m.1 m.2
  if token ∈ s.seen then s
  else ⟨token :: s.seen, s.found ++ [⟨m.1.offset, token, token, s.found.length + 1⟩]⟩

/-- `enumerate_placeholders`. -/
def enumeratePlaceholders (tables : Tables) (sql : List Char) : Except String (List Placeholder) := do
  let dollars ← (finditer (matchAt (pgPlaceholder tables)) sql).foldlM (Listing.dollar tables) ⟨[], []⟩
  let questions := (finditer (matchAt stringOrQuestion) sql).foldl numberQuestion (0, dollars.found)
  let names := (finditer (namedPlaceholder tables) sql).foldl Listing.name ⟨dollars.seen, questions.2⟩
  let sorted := names.found.insertionSort fun a b => a.start ≤ b.start
  return sorted.map fun found => ⟨found.token, found.key, found.index⟩

end Enumeration

example : enumeratePlaceholders asciiTables "SELECT * FROM t WHERE a = $2 AND b = :b AND c = ? AND d = '$1'".toList =
    .ok [⟨"$2".toList, "$2".toList, 2⟩, ⟨":b".toList, ":b".toList, 4⟩, ⟨"?".toList, "?1".toList, 1⟩,
      ⟨"$1".toList, "$1".toList, 1⟩] := by decide +kernel

section Spellings

variable (tables : Tables)

/-- `$` and a number of decimal digits. -/
def dollarNumber : Marking Char where
  mark c := c == '$'
  barred _ := false
  first := isDecimal tables
  inside := isDecimal tables
  first_inside _ first := first
  mark_outside c inside := by
    by_contra mark
    have same : c = '$' := by simpa using mark
    subst same
    exact absurd inside (by simp [isDecimal, isAscii])

/-- A colon and a name, with no colon and no word in front. -/
def colonName : Marking Char where
  mark c := c == ':'
  barred c := c == ':' || isWord tables c
  first := startsName
  inside := isWord tables
  first_inside c first := by
    simp only [startsName, Bool.or_eq_true, beq_iff_eq] at first
    rcases first with alpha | rfl
    · have alphanum : c.isAlphanum = true := by simp [Char.isAlphanum, alpha]
      simp [isWord, isAlnum, isAlphanum_ascii alphanum, alphanum]
    · rfl
  mark_outside c inside := by
    by_contra mark
    have same : c = ':' := by simpa using mark
    subst same
    exact absurd inside (by simp [isWord, isAlnum, isAscii])

/-- A text without its runs between two quotes of a kind; the one that is open is given. -/
def unstrung : Option Char → List Char → List Char
  | _, [] => []
  | some quote, c :: rest => if c = quote then unstrung none rest else unstrung (some quote) rest
  | none, c :: rest =>
    if (c = '\'' ∨ c = '"') ∧ c ∈ rest then unstrung (some c) rest else c :: unstrung none rest

theorem dollars_spelled (sql : List Char) :
    (finditer (matchAt (pgPlaceholder tables)) sql).map (fun m => matched m.1 m.2) =
      (dollarNumber tables).spellings none sql := by
  rw [← (dollarNumber tables).finditer_spellings]
  have same : matchNotAfter (dollarNumber tables).barred (dollarNumber tables).pattern = matchAt (pgPlaceholder tables) := by
    funext c
    rw [matchNotAfter, if_neg]
    · rfl
    · cases c.before.head? <;> exact Bool.false_ne_true
  rw [same]

theorem names_spelled (sql : List Char) :
    (finditer (namedPlaceholder tables) sql).map (fun m => matched m.1 m.2) = (colonName tables).spellings none sql :=
  (colonName tables).finditer_spellings sql

theorem unstrung_run {quote : Char} {run : List Char} (inside : quote ∉ run) (rest : List Char) :
    unstrung (some quote) (run ++ quote :: rest) = unstrung none rest := by
  induction run with
  | nil => simp [unstrung]
  | cons c run ih =>
    have other : c ≠ quote := fun same => inside (same ▸ List.mem_cons_self)
    rw [List.cons_append, unstrung, if_neg other, ih fun later => inside (List.mem_cons_of_mem _ later)]

/-- What the pattern matches at a character: a quoted run, or a question mark. -/
theorem question_moves {before rest : List Char} {c : Char} {d : Cursor Char} :
    Moves stringOrQuestion ⟨before, c :: rest, []⟩ d ↔
      (∃ run after, (c = '\'' ∨ c = '"') ∧ c ∉ run ∧ rest = run ++ c :: after ∧
        d = ⟨c :: (run.reverse ++ (c :: before)), after, []⟩) ∨ (c = '?' ∧ d = ⟨c :: before, rest, []⟩) := by
  have quoted : ∀ quote, Moves (quotedText quote) ⟨before, c :: rest, []⟩ d ↔ ∃ run after, c = quote ∧ c ∉ run ∧
      rest = run ++ c :: after ∧ d = ⟨c :: (run.reverse ++ (c :: before)), after, []⟩ := by
    intro quote
    constructor
    · rintro ⟨e, ⟨x, others, text, first, rfl⟩, e', run, e'', ⟨y, after, text', last, rfl⟩, rfl⟩
      cases text
      have opened : c = quote := by simpa using first
      have closed : y = quote := by simpa using last
      obtain ⟨word, split, inner, same⟩ := moves_chars.mp run
      rw [same] at text' ⊢
      have left : e'.rest = y :: after := text'
      refine ⟨word, after, opened, ?_, ?_, ?_⟩
      · intro member
        have other := inner c member
        simp [opened] at other
      · have whole : rest = word ++ e'.rest := split
        rw [whole, left, closed, opened]
      · simp [Cursor.next, closed, opened]
    · rintro ⟨run, after, rfl, outside, rfl, rfl⟩
      refine ⟨⟨c :: before, run ++ c :: after, []⟩, ⟨c, run ++ c :: after, rfl, by simp, rfl⟩,
        ⟨run.reverse ++ (c :: before), c :: after, []⟩, moves_chars.mpr ⟨run, rfl, ?_, rfl⟩, _, ⟨c, after, rfl, by simp, rfl⟩, rfl⟩
      intro x member
      have other : x ≠ c := fun same => outside (same ▸ member)
      simpa using other
  constructor
  · rintro (single | double | ⟨x, others, text, question, rfl⟩)
    · obtain ⟨run, after, rfl, rest⟩ := (quoted '\'').mp single
      exact .inl ⟨run, after, .inl rfl, rest⟩
    · obtain ⟨run, after, rfl, rest⟩ := (quoted '"').mp double
      exact .inl ⟨run, after, .inr rfl, rest⟩
    · cases text
      exact .inr ⟨by simpa using question, rfl⟩
  · rintro (⟨run, after, single | double, rest⟩ | ⟨question, rfl⟩)
    · exact .inl ((quoted '\'').mpr ⟨run, after, single, rest⟩)
    · exact .inr (.inl ((quoted '"').mpr ⟨run, after, double, rest⟩))
    · exact .inr (.inr ⟨c, rest, rfl, by simpa using question, rfl⟩)

theorem consumes_question : Consumes stringOrQuestion :=
  (consumes_char _).before.either ((consumes_char _).before.either (consumes_char _))

theorem first_unique {c : Char} {run run' after after' : List Char} (outside : c ∉ run) (outside' : c ∉ run')
    (same : run ++ c :: after = run' ++ c :: after') : run = run' ∧ after = after' := by
  induction run generalizing run' with
  | nil =>
    cases run' with
    | nil => exact ⟨rfl, by simpa using same⟩
    | cons d run' =>
      cases same
      exact absurd List.mem_cons_self outside'
  | cons d run ih =>
    cases run' with
    | nil =>
      cases same
      exact absurd List.mem_cons_self outside
    | cons e run' =>
      rw [List.cons_append, List.cons_append, List.cons.injEq] at same
      obtain ⟨rfl, same⟩ := same
      obtain ⟨rfl, rfl⟩ := ih (fun later => outside (List.mem_cons_of_mem _ later))
        (fun later => outside' (List.mem_cons_of_mem _ later)) same
      exact ⟨rfl, rfl⟩

theorem matchAt_quoted {before run after : List Char} {c : Char} (quote : c = '\'' ∨ c = '"') (outside : c ∉ run) :
    matchAt stringOrQuestion ⟨before, c :: (run ++ c :: after), []⟩ = some ⟨c :: (run.reverse ++ (c :: before)), after, []⟩ := by
  obtain ⟨e, found⟩ := matchAt_of_moves consumes_question (question_moves.mpr (.inl ⟨run, after, quote, outside, rfl, rfl⟩))
  rcases question_moves.mp (moves_of_matchAt found) with ⟨run', after', -, outside', split, rfl⟩ | ⟨question, -⟩
  · obtain ⟨rfl, rfl⟩ := first_unique outside outside' split
    exact found
  · rw [question] at quote
    exact absurd quote (by decide)

theorem matchAt_mark (before rest : List Char) :
    matchAt stringOrQuestion ⟨before, '?' :: rest, []⟩ = some ⟨'?' :: before, rest, []⟩ := by
  obtain ⟨e, found⟩ := matchAt_of_moves consumes_question (question_moves.mpr (.inr ⟨rfl, rfl⟩))
  rcases question_moves.mp (moves_of_matchAt found) with ⟨run, after, quote, -⟩ | ⟨-, rfl⟩
  · exact absurd quote (by decide)
  · exact found

theorem matchAt_other {before rest : List Char} {c : Char} (open_ : (c = '\'' ∨ c = '"') → c ∉ rest) (other : c ≠ '?') :
    matchAt stringOrQuestion ⟨before, c :: rest, []⟩ = none := by
  cases found : matchAt stringOrQuestion ⟨before, c :: rest, []⟩ with
  | none => rfl
  | some d =>
    rcases question_moves.mp (moves_of_matchAt found) with ⟨run, after, quote, -, split, -⟩ | ⟨question, -⟩
    · exact absurd (by rw [split]; simp) (open_ quote)
    · exact absurd question other

/-- The question marks that are numbered are those outside of closed runs. -/
theorem questions_counted (sql : List Char) :
    (finditer (matchAt stringOrQuestion) sql).countP (fun m => matched m.1 m.2 = ['?']) = (unstrung none sql).count '?' := by
  have run : ∀ fuel before rest, rest.length < fuel →
      (finditerFrom (matchAt stringOrQuestion) fuel ⟨before, rest, []⟩).countP (fun m => matched m.1 m.2 = ['?']) =
        (unstrung none rest).count '?' := by
    intro fuel
    induction fuel with
    | zero => omega
    | succ fuel ih =>
      intro before rest enough
      cases rest with
      | nil => rfl
      | cons c rest =>
        rw [List.length_cons] at enough
        rw [finditerFrom, unstrung]
        by_cases quoted : (c = '\'' ∨ c = '"') ∧ c ∈ rest
        · obtain ⟨run, after, rfl, outside⟩ := List.eq_append_cons_of_mem quoted.2
          rw [matchAt_quoted quoted.1 outside, if_pos quoted, unstrung_run outside]
          have token : matched ⟨before, c :: (run ++ c :: after), []⟩ ⟨c :: (run.reverse ++ (c :: before)), after, []⟩ ≠ ['?'] := by
            have whole := matched_append before (c :: (run.reverse ++ (c :: before))) (c :: (run ++ [c])) after [] []
            simp only [List.cons_append, List.append_assoc, List.nil_append] at whole
            rw [whole]
            simp
          have later := ih (c :: (run.reverse ++ (c :: before))) after (by
            simp only [List.length_append, List.length_cons] at enough
            omega)
          rw [← later, List.countP_cons_of_neg (by simpa using token)]
        · rw [if_neg quoted]
          by_cases question : c = '?'
          · subst question
            rw [matchAt_mark, List.count_cons_self, ← ih ('?' :: before) rest (by omega)]
            have token : matched ⟨before, '?' :: rest, []⟩ ⟨'?' :: before, rest, []⟩ = ['?'] :=
              matched_append before ('?' :: before) ['?'] rest [] []
            rw [List.countP_cons_of_pos (by simpa using token)]
          · rw [matchAt_other (fun quote member => quoted ⟨quote, member⟩) question, List.count_cons_of_ne question]
            exact ih (c :: before) rest (by omega)
  exact run _ [] sql (Nat.lt_succ_self _)

end Spellings

section Keys

variable {tables : Tables}

abbrev token (m : Cursor Char × Cursor Char) : List Char := matched m.1 m.2

/-- What a number that is short enough adds. -/
def addNumber (tables : Tables) (s : Listing) (m : Cursor Char × Cursor Char) : Listing :=
  if token m ∈ s.seen then s
  else ⟨token m :: s.seen, s.found ++ [⟨m.1.offset, token m, token m, number tables (token m).tail⟩]⟩

theorem dollar_short (s : Listing) {m : Cursor Char × Cursor Char} (short : (token m).tail.length ≤ 4300) :
    s.dollar tables m = .ok (addNumber tables s m) := by
  unfold Listing.dollar addNumber
  by_cases seen : token m ∈ s.seen
  · simp only [if_pos seen]
  · simp only [if_neg seen, int, if_neg (Nat.not_lt.mpr short)]
    rfl

theorem dollars_short {found : List (Cursor Char × Cursor Char)} (short : ∀ m ∈ found, (token m).tail.length ≤ 4300)
    (s : Listing) : found.foldlM (Listing.dollar tables) s = .ok (found.foldl (addNumber tables) s) := by
  induction found generalizing s with
  | nil => rfl
  | cons m found ih =>
    rw [List.foldlM_cons, dollar_short s (short m List.mem_cons_self), List.foldl_cons,
      ← ih (fun other member => short other (List.mem_cons_of_mem _ member))]
    rfl

/-- A number that is too long is refused. -/
theorem dollars_refused {found : List (Cursor Char × Cursor Char)} {s t : Listing}
    (known : ∀ k ∈ s.seen, k.tail.length ≤ 4300) (listed : found.foldlM (Listing.dollar tables) s = .ok t) :
    ∀ m ∈ found, (token m).tail.length ≤ 4300 := by
  induction found generalizing s with
  | nil => exact nofun
  | cons m found ih =>
    rw [List.foldlM_cons] at listed
    have short : (token m).tail.length ≤ 4300 := by
      by_contra long
      have refused : ∃ message, s.dollar tables m = .error message := by
        unfold Listing.dollar
        simp only
        rw [if_neg fun seen => long (known _ seen), int, if_pos (Nat.lt_of_not_le long)]
        exact ⟨_, rfl⟩
      obtain ⟨message, refused⟩ := refused
      rw [refused] at listed
      cases listed
    rw [dollar_short s short] at listed
    have grown : ∀ k ∈ (addNumber tables s m).seen, k.tail.length ≤ 4300 := by
      rw [addNumber]
      split
      · exact known
      · intro k member
        rcases List.mem_cons.mp member with rfl | old
        · exact short
        · exact known k old
    intro other member
    rcases List.mem_cons.mp member with rfl | later
    · exact short
    · exact ih grown listed other later

/-- A loop that lists tokens lists each of them as a key. -/
theorem listed_keys (body : Listing → Cursor Char × Cursor Char → Listing)
    (skips : ∀ s m, token m ∈ s.seen → body s m = s)
    (adds : ∀ s m, token m ∉ s.seen → ∃ f : Found, f.key = token m ∧ body s m = ⟨token m :: s.seen, s.found ++ [f]⟩)
    {s : Listing} (listed : ∀ k ∈ s.seen, k ∈ s.found.map Found.key) (found : List (Cursor Char × Cursor Char)) :
    (∀ k ∈ (found.foldl body s).seen, k ∈ (found.foldl body s).found.map Found.key) ∧
      ∀ k, k ∈ (found.foldl body s).found.map Found.key ↔ k ∈ s.found.map Found.key ∨ k ∈ found.map token := by
  obtain ⟨all, keys⟩ := Machine.foldl_listing body (fun s => s.found.map Found.key) (fun _ => True) Listing.seen token
    (fun s m old => skips s m (old.resolve_left fun none_ => none_ True.intro)) (by
      intro s m _ fresh
      obtain ⟨f, key, same⟩ := adds s m fresh
      rw [same]
      exact ⟨rfl, by simp [key]⟩) listed found
  exact ⟨all, fun k => (keys k).trans (by simp [List.mem_map])⟩

theorem question_keys (found : List (Cursor Char × Cursor Char)) (before : List Found) (k : List Char) :
    k ∈ (found.foldl numberQuestion (0, before)).2.map Found.key ↔
      k ∈ before.map Found.key ∨ ∃ n, 1 ≤ n ∧ n ≤ found.countP (fun m => matched m.1 m.2 = ['?']) ∧ k = questionKey n := by
  have numbered := Machine.foldl_numbering numberQuestion (fun s => s.2.map Found.key) (fun m => matched m.1 m.2 = ['?'])
    Prod.fst (fun n => questionKey (n + 1)) (fun s m other => if_pos other) (by
      intro s m question
      rw [numberQuestion, if_neg (by simpa using question)]
      exact ⟨rfl, by simp⟩) (0, before) found
  rw [numbered, List.mem_append]
  apply or_congr_right
  simp only [List.mem_map, List.mem_range'_1]
  constructor
  · rintro ⟨n, ⟨-, most⟩, rfl⟩
    exact ⟨n + 1, by omega, by omega, rfl⟩
  · rintro ⟨n, least, most, rfl⟩
    exact ⟨n - 1, ⟨by omega, by omega⟩, by rw [Nat.sub_add_cancel least]⟩

/-- The keys that the server lists are the placeholders that the text spells. -/
theorem enumerate_keys (sql : List Char) (short : ∀ token ∈ (dollarNumber tables).spellings none sql, token.tail.length ≤ 4300) :
    ∃ found, enumeratePlaceholders tables sql = .ok found ∧ ∀ k, k ∈ found.map Placeholder.key ↔
      k ∈ (dollarNumber tables).spellings none sql ∨
        (∃ n, 1 ≤ n ∧ n ≤ (unstrung none sql).count '?' ∧ k = questionKey n) ∨ k ∈ (colonName tables).spellings none sql := by
  have short' : ∀ m ∈ finditer (matchAt (pgPlaceholder tables)) sql, (token m).tail.length ≤ 4300 := by
    intro m member
    apply short
    rw [← dollars_spelled]
    exact List.mem_map_of_mem member
  unfold enumeratePlaceholders
  rw [dollars_short short']
  refine ⟨_, rfl, fun k => ?_⟩
  have dollars := listed_keys (addNumber tables) (fun s m seen => if_pos seen)
    (fun s m fresh => ⟨_, rfl, if_neg fresh⟩) (s := ⟨[], []⟩) nofun (finditer (matchAt (pgPlaceholder tables)) sql)
  have questions := question_keys (finditer (matchAt stringOrQuestion) sql)
    ((finditer (matchAt (pgPlaceholder tables)) sql).foldl (addNumber tables) ⟨[], []⟩).found
  have names := listed_keys Listing.name (fun s m seen => if_pos seen) (fun s m fresh => ⟨_, rfl, if_neg fresh⟩)
    (s := ⟨_, _⟩) (fun k seen => (questions k).mpr (.inl (dollars.1 k seen))) (finditer (namedPlaceholder tables) sql)
  rw [List.map_map]
  have sorted : ∀ found : List Found, k ∈ (found.insertionSort fun a b => a.start ≤ b.start).map
      (Placeholder.key ∘ fun found => ⟨found.token, found.key, found.index⟩) ↔ k ∈ found.map Found.key := by
    intro found
    simp only [List.mem_map, List.mem_insertionSort, Function.comp_apply]
  rw [sorted, names.2, questions, dollars.2, ← dollars_spelled, ← names_spelled, questions_counted]
  simp [or_assoc]

theorem enumerate_short {sql : List Char} {found : List Placeholder} (listed : enumeratePlaceholders tables sql = .ok found) :
    ∀ token ∈ (dollarNumber tables).spellings none sql, token.tail.length ≤ 4300 := by
  unfold enumeratePlaceholders at listed
  cases dollars : (finditer (matchAt (pgPlaceholder tables)) sql).foldlM (Listing.dollar tables) ⟨[], []⟩ with
  | error message =>
    rw [dollars] at listed
    cases listed
  | ok s =>
    intro token member
    rw [← dollars_spelled] at member
    obtain ⟨m, own, rfl⟩ := List.mem_map.mp member
    exact dollars_refused (s := ⟨[], []⟩) nofun dollars m own

end Keys

end Rdst.Analysis.Placeholders
