import Rdst.Lib.Spacing
import Rdst.Registry.Fallback

/-! The literals that the passes cut, in the places where they stand. -/

namespace Rdst.Registry.Fallback

open PyText Regex FirstFill Spacing
open Positional (Stored paramLiteral slotName)

/-- A character of the text between the two passes. The name that stands for a string is its head, with the
    string, and a tail. -/
inductive Ink
  | plain (c : Char)
  | head (text : List Char)
  | tail (c : Char)

def Ink.char : Ink → Char
  | .plain c | .tail c => c
  | .head _ => ':'

def inks : Nat → List (Char ⊕ List Char) → List Ink
  | _, [] => []
  | count, .inl c :: rest => .plain c :: inks count rest
  | count, .inr text :: rest => .head text :: (paramName (count + 1)).map .tail ++ inks (count + 1) rest

def stringText (text : List Char) : Bool :=
  text.head? == some '\'' && text.getLast? == some '\'' && 2 ≤ text.length && !(text.drop 1).dropLast.contains '\''

def numberText (tables : Tables) (text : List Char) : Bool := text.head?.any (isDecimal tables) && text.all fun c => !isSpace c

structure Literal (tables : Tables) where
  isString : Bool
  text : List Char
  fits : (if isString then stringText text else numberText tables text) = true
deriving DecidableEq

section Marks

variable (tables : Tables)

def literal (isString : Bool) (text : List Char) : Option (Literal tables) :=
  if fits : (if isString then stringText text else numberText tables text) = true then some ⟨isString, text, fits⟩ else none

def markOf : Ink ⊕ List Ink → Option (Char ⊕ Literal tables)
  | .inl (.plain c) => some (.inl c)
  | .inl (.head text) => (literal tables true text).map .inr
  | .inl (.tail _) => none
  | .inr word => (literal tables false (word.map Ink.char)).map .inr

def inkNumber (c : Cursor Ink) : Option (Cursor Ink) :=
  if afterDollar (c.map Ink.char).before = true then none else matchAt ((numberLiteral tables).comap Ink.char) c

def blank : Char ⊕ Literal tables → Bool := Sum.elim isSpace fun _ => false

/-- The statement as the passes cut it. -/
def marks (sql : List Char) : List (Char ⊕ Literal tables) :=
  let strings := cut (matchAt stringLiteral) (sub someSpaces (fun _ => [' ']) sql)
  let all := (cut (inkNumber tables) (inks 0 strings)).filterMap (markOf tables)
  trimEnd (blank tables) (all.dropWhile (blank tables))

end Marks

section Cells

variable {tables : Tables}

def textOf (ms : List (Char ⊕ Literal tables)) : List Char := ms.flatMap (Sum.elim (fun c => [c]) Literal.text)

def literalsOf (isString : Bool) (ms : List (Char ⊕ Literal tables)) : List (Literal tables) :=
  (ms.filterMap Sum.getRight?).filter fun l => l.isString == isString

/-- The literals with their numbers, the strings before the numbers. -/
def cellsFrom : Nat → Nat → List (Char ⊕ Literal tables) → List (Char ⊕ (Nat × Literal tables))
  | _, _, [] => []
  | strings, numbers, .inl c :: rest => .inl c :: cellsFrom strings numbers rest
  | strings, numbers, .inr l :: rest =>
    if l.isString then .inr (strings + 1, l) :: cellsFrom (strings + 1) numbers rest
    else .inr (numbers + 1, l) :: cellsFrom strings (numbers + 1) rest

def cells (ms : List (Char ⊕ Literal tables)) : List (Char ⊕ (Nat × Literal tables)) :=
  cellsFrom 0 (literalsOf true ms).length ms

/-- The order in which they are written back. -/
def slots (ms : List (Char ⊕ Literal tables)) : List (Nat × Literal tables) :=
  let all := slotsOf (cells ms)
  all.filter (fun i => i.2.isString) ++ all.filter fun i => !i.2.isString

theorem literal_some {isString : Bool} {text : List Char}
    (fits : (if isString then stringText text else numberText tables text) = true) :
    literal tables isString text = some ⟨isString, text, fits⟩ := dif_pos fits

variable (tables) in
theorem digits_ascii {c : Char} (digit : c.isDigit = true) :
    c ≠ ':' ∧ isWord tables c = true ∧ isDecimal tables c = true ∧ isSpace c = false := by
  have bounds : 48 ≤ c.toNat ∧ c.toNat ≤ 57 := by
    simpa [Char.isDigit, UInt32.le_iff_toNat_le] using digit
  have ascii : isAscii c = true := by
    rw [isAscii, decide_eq_true_eq]
    omega
  have alphanum : c.isAlphanum = true := by simp [Char.isAlphanum, digit]
  refine ⟨?_, by simp [isWord, isAlnum, ascii, alphanum], by simp [isDecimal, ascii, digit], ?_⟩
  · rintro rfl
    cases digit
  · simp only [isSpace, Bool.or_eq_false_iff, Bool.and_eq_false_iff, decide_eq_false_iff_not, beq_eq_false_iff_ne]
    omega

theorem paramName_digits (count : Nat) : ∃ digits, paramName count = 'p' :: digits ∧ ∀ c ∈ digits, c.isDigit = true := by
  have shape : (toString count).toList = Nat.toDigits 10 count := String.toList_ofList
  exact ⟨Nat.toDigits 10 count, congrArg ('p' :: ·) shape, fun _ member => Nat.isDigit_of_mem_toDigits (by decide) (by decide) member⟩

theorem paramName_unmarked (count : Nat) : ':' ∉ paramName count := by
  obtain ⟨digits, name, all⟩ := paramName_digits count
  rw [name, List.mem_cons]
  rintro (same | inside)
  · cases same
  · cases all ':' inside

theorem stringText_spec {text : List Char} (fits : stringText text = true) :
    ∃ body, text = '\'' :: (body ++ ['\'']) ∧ '\'' ∉ body := by
  simp only [stringText, Bool.and_eq_true, beq_iff_eq, decide_eq_true_eq, Bool.not_eq_true', List.contains_eq_mem,
    decide_eq_false_iff_not] at fits
  obtain ⟨⟨⟨first, last⟩, long⟩, clean⟩ := fits
  cases text with
  | nil => cases first
  | cons c rest =>
    obtain rfl : c = '\'' := Option.some.inj first
    cases rest using List.reverseRecOn with
    | nil => simp at long
    | append_singleton body c =>
      have is : c = '\'' := by simpa [List.getLast?_cons] using last
      exact ⟨body, by rw [is], by simpa using clean⟩

theorem numberText_spec {text : List Char} (fits : numberText tables text = true) :
    ∃ c rest, text = c :: rest ∧ isDecimal tables c = true ∧ ∀ x ∈ text, isSpace x = false := by
  cases text with
  | nil => cases fits
  | cons c rest =>
    have both : isDecimal tables c = true ∧ ∀ x ∈ c :: rest, isSpace x = false := by simpa [numberText] using fits
    exact ⟨c, rest, rfl, both⟩

theorem Literal.string (l : Literal tables) (isString : l.isString = true) : stringText l.text = true := by
  have fits := l.fits
  rwa [isString] at fits

theorem Literal.number (l : Literal tables) (isNumber : l.isString = false) : numberText tables l.text = true := by
  have fits := l.fits
  rwa [isNumber] at fits

theorem Literal.some_ (l : Literal tables) : ∃ c rest, l.text = c :: rest := by
  cases which : l.isString with
  | true =>
    obtain ⟨body, text, -⟩ := stringText_spec (l.string which)
    exact ⟨_, _, text⟩
  | false =>
    obtain ⟨c, rest, text, -⟩ := numberText_spec (l.number which)
    exact ⟨c, rest, text⟩

theorem Literal.first (l : Literal tables) :
    (l.isString = true → l.text.headD '0' = '\'') ∧ (l.isString = false → isDecimal tables (l.text.headD '0') = true) ∧
      isSpace (l.text.headD '0') = false := by
  cases which : l.isString with
  | true =>
    obtain ⟨body, text, -⟩ := stringText_spec (l.string which)
    rw [text]
    exact ⟨fun _ => rfl, fun wrong => absurd wrong (by decide), show isSpace '\'' = false by decide⟩
  | false =>
    obtain ⟨c, rest, text, decimal, solid⟩ := numberText_spec (l.number which)
    rw [text] at solid ⊢
    exact ⟨fun wrong => absurd wrong (by decide), fun _ => decimal, solid c List.mem_cons_self⟩

/-- How the passes write a literal, and what they put back. -/
def names (tables : Tables) : Naming Char (Nat × Literal tables) where
  mark := ':'
  name i := paramName i.1
  kind i := i.2.isString
  head i := i.2.text.headD '0'
  tail i := i.2.text.tail
  solid c := !isSpace c
  unmarked i := paramName_unmarked i.1
  apart i j other := by
    have quote : isDecimal tables '\'' = false := by simp [isDecimal, isAscii]
    have first := i.2.first
    have second := j.2.first
    intro same
    cases one : i.2.isString <;> cases two : j.2.isString
    · exact other (by rw [one, two])
    · have decimal := first.2.1 one
      rw [same, second.1 two, quote] at decimal
      cases decimal
    · have decimal := second.2.1 two
      rw [← same, first.1 one, quote] at decimal
      cases decimal
    · exact other (by rw [one, two])
  fresh i := by
    have first := i.2.first
    intro same
    cases which : i.2.isString with
    | true =>
      rw [first.1 which] at same
      cases same
    | false =>
      have decimal := first.2.1 which
      rw [same] at decimal
      simp [isDecimal, isAscii] at decimal
  firm i := by simpa using i.2.first.2.2
  markFirm := by decide

theorem names_value (i : Nat × Literal tables) : (names tables).value i = i.2.text := by
  obtain ⟨c, rest, text⟩ := i.2.some_
  show i.2.text.headD '0' :: i.2.text.tail = i.2.text
  rw [text]
  rfl

theorem inks_char (count : Nat) (pieces : List (Char ⊕ List Char)) : (inks count pieces).map Ink.char = placeholders count pieces := by
  induction pieces generalizing count with
  | nil => rfl
  | cons piece rest ih =>
    cases piece with
    | inl c => exact congrArg (c :: ·) (ih count)
    | inr text =>
      have name : ((paramName (count + 1)).map Ink.tail).map Ink.char = paramName (count + 1) := by
        rw [List.map_map]
        exact List.map_id _
      rw [inks, placeholders, List.cons_append, List.map_cons, List.map_append, name, ih]
      rfl

variable (tables) in
theorem inkNumber_map (c : Cursor Ink) : (inkNumber tables c).map (Cursor.map Ink.char) = numberAt tables (c.map Ink.char) := by
  rw [inkNumber, numberAt]
  by_cases barred : afterDollar (c.map Ink.char).before = true
  · rw [if_pos barred, if_pos barred]
    rfl
  · rw [if_neg barred, if_neg barred]
    exact matchAt_comap Ink.char _ c

/-- What a number takes, and the edge in front of it. -/
theorem number_moves {c d : Cursor Char} (moves : Moves (numberLiteral tables) c d) :
    ∃ x word, c.rest = x :: word ++ d.rest ∧ isDecimal tables x = true ∧
      (∀ y ∈ word, isDecimal tables y = true ∨ y = '.') ∧ atBoundary (isWord tables) c = true := by
  obtain ⟨c₁, ⟨edge, here⟩, c₂, ⟨c₃, ⟨x, rest, text, decimal, rfl⟩, run⟩, c₄, fraction, c₅, ⟨-, rfl⟩, rfl⟩ := moves
  rw [here] at text
  obtain ⟨digits, text', decimals, same⟩ := moves_chars.mp run
  have taken : c.rest = x :: (digits ++ c₂.rest) := by
    rw [text]
    exact congrArg (x :: ·) text'
  rcases fraction with ⟨e, ⟨y, rest', text₂, point, rfl⟩, e', ⟨z, rest'', text₃, decimal', rfl⟩, run'⟩ | rfl
  · obtain ⟨digits', text₄, decimals', -⟩ := moves_chars.mp run'
    have is : y = '.' := by simpa using point
    have shape : c₂.rest = y :: z :: (digits' ++ d.rest) := by
      rw [text₂]
      have inner : rest' = z :: rest'' := text₃
      have last : rest'' = digits' ++ d.rest := text₄
      rw [inner, last]
    refine ⟨x, digits ++ y :: z :: digits', by rw [taken, shape]; simp, decimal, ?_, edge⟩
    intro w inside
    rcases List.mem_append.mp inside with early | late
    · exact .inl (decimals w early)
    · rcases List.mem_cons.mp late with rfl | late
      · exact .inr is
      · rcases List.mem_cons.mp late with rfl | late
        · exact .inl decimal'
        · exact .inl (decimals' w late)
  · exact ⟨x, digits, taken, decimal, fun w inside => .inl (decimals w inside), edge⟩

theorem inkNumber_spec {c d : Cursor Ink} (found : inkNumber tables c = some d) :
    ∃ word, word ≠ [] ∧ c.rest = word ++ d.rest ∧ (∀ x ∈ word, isDecimal tables x.char = true ∨ x.char = '.') ∧
      (∃ x ∈ word.head?, isDecimal tables x.char = true) ∧
        atBoundary (isWord tables) (c.map Ink.char) = true := by
  have mapped := inkNumber_map tables c
  rw [found, Option.map_some] at mapped
  have some_ : matchAt (numberLiteral tables) (c.map Ink.char) = some (d.map Ink.char) := by
    rw [numberAt] at mapped
    split at mapped
    · cases mapped
    · exact mapped.symm
  obtain ⟨x, word, text, decimal, others, edge⟩ := number_moves (moves_of_matchAt some_)
  have taken : Takes (inkNumber tables) := (takes_matchAt _).guarded fun c => afterDollar (c.map Ink.char).before = true
  obtain ⟨inkWord, inkSome, inkText, -⟩ := taken c d found
  have letters : inkWord.map Ink.char = x :: word := by
    have both : inkWord.map Ink.char ++ d.rest.map Ink.char = x :: word ++ d.rest.map Ink.char := by
      rw [← List.map_append, ← inkText]
      exact text
    exact List.append_cancel_right both
  refine ⟨inkWord, inkSome, inkText, ?_, ?_, edge⟩
  · intro y inside
    have letter : y.char ∈ x :: word := by
      rw [← letters]
      exact List.mem_map_of_mem inside
    rcases List.mem_cons.mp letter with same | later
    · exact .inl (by rw [same]; exact decimal)
    · exact others _ later
  · cases inkWord with
    | nil => cases letters
    | cons y rest => exact ⟨y, rfl, by rw [(List.cons.inj letters).1]; exact decimal⟩

/-- A number is cut out of the text beside the names. -/
theorem inks_split {count : Nat} {pieces : List (Char ⊕ List Char)} {word rest : List Ink}
    (text : inks count pieces = word ++ rest) (unmarked : ∀ x ∈ word, x.char ≠ ':') :
    ∃ (letters : List Char) (later : List (Char ⊕ List Char)), word = letters.map .plain ∧ pieces = letters.map .inl ++ later ∧ rest = inks count later := by
  induction word generalizing pieces with
  | nil => exact ⟨[], pieces, rfl, rfl, text.symm⟩
  | cons x word ih =>
    cases pieces with
    | nil => cases text
    | cons piece pieces =>
      cases piece with
      | inl c =>
        obtain ⟨rfl, text'⟩ := List.cons.inj text
        obtain ⟨letters, later, word_eq, pieces_eq, rest_eq⟩ := ih text' fun y inside => unmarked y (List.mem_cons_of_mem _ inside)
        exact ⟨c :: letters, later, by rw [word_eq]; rfl, by rw [pieces_eq]; rfl, rest_eq⟩
      | inr string =>
        obtain ⟨rfl, -⟩ := List.cons.inj text
        exact absurd rfl (unmarked _ List.mem_cons_self)

/-- How the second pass goes over what the first one left. -/
inductive Walk (tables : Tables) : Nat → List (Char ⊕ List Char) → List (Ink ⊕ List Ink) → Prop
  | done (count : Nat) : Walk tables count [] []
  | keep {count : Nat} {pieces : List (Char ⊕ List Char)} {after : List (Ink ⊕ List Ink)} (c : Char)
      (later : Walk tables count pieces after) : Walk tables count (.inl c :: pieces) (.inl (.plain c) :: after)
  | number {count : Nat} {pieces : List (Char ⊕ List Char)} {after : List (Ink ⊕ List Ink)} (first : Char) (letters : List Char)
      (decimal : isDecimal tables first = true) (others : ∀ c ∈ letters, isDecimal tables c = true ∨ c = '.')
      (later : Walk tables count pieces after) :
      Walk tables count ((first :: letters).map .inl ++ pieces) (.inr ((first :: letters).map .plain) :: after)
  | string {count : Nat} {pieces : List (Char ⊕ List Char)} {after : List (Ink ⊕ List Ink)} (text : List Char)
      (later : Walk tables (count + 1) pieces after) :
      Walk tables count (.inr text :: pieces)
        (.inl (.head text) :: (paramName (count + 1)).map (fun c => .inl (.tail c)) ++ after)

variable (tables) in
/-- Nothing is cut in the characters of a name. -/
theorem cut_tail {name : List Char} (words : ∀ c ∈ name, isWord tables c = true) (before : List Ink)
    (edge : (before.map Ink.char).head?.any (isWord tables) = true) (fuel : Nat) (rest : List Ink) :
    cutFrom (inkNumber tables) (fuel + name.length) ⟨before, name.map .tail ++ rest, []⟩ =
      name.map (fun c => .inl (.tail c)) ++ cutFrom (inkNumber tables) fuel ⟨(name.map .tail).reverse ++ before, rest, []⟩ := by
  induction name generalizing before with
  | nil => rfl
  | cons c name ih =>
    have none_ : inkNumber tables ⟨before, (c :: name).map .tail ++ rest, []⟩ = none := by
      rw [Option.eq_none_iff_forall_ne_some]
      intro d found
      obtain ⟨-, -, -, -, -, boundary⟩ := inkNumber_spec found
      have inside : isWord tables c = true := words c List.mem_cons_self
      have other : ((before.map Ink.char).head?.any (isWord tables) != isWord tables c) = true := boundary
      rw [edge, inside] at other
      cases other
    have later := ih (fun d inside => words d (List.mem_cons_of_mem _ inside)) (.tail c :: before)
      (words c List.mem_cons_self)
    rw [List.length_cons, ← Nat.add_assoc, cutFrom, none_]
    simp only [List.map_cons, List.cons_append, Cursor.next]
    rw [later]
    simp

theorem walk (pieces : List (Char ⊕ List Char)) (count fuel : Nat) (before : List Ink)
    (enough : (inks count pieces).length < fuel) :
    Walk tables count pieces (cutFrom (inkNumber tables) fuel ⟨before, inks count pieces, []⟩) := by
  induction size : pieces.length using Nat.strong_induction_on generalizing pieces count fuel before with
  | _ size_ ih =>
    subst size
    cases fuel with
    | zero => omega
    | succ fuel =>
      cases pieces with
      | nil =>
        have none_ : inkNumber tables ⟨before, [], []⟩ = none := by
          rw [Option.eq_none_iff_forall_ne_some]
          intro d found
          obtain ⟨word, some_, text, -⟩ := inkNumber_spec found
          exact some_ (List.append_eq_nil_iff.mp text.symm).1
        rw [inks, cutFrom, none_]
        exact .done count
      | cons piece pieces =>
        cases piece with
        | inl c =>
          rw [inks, List.length_cons] at enough
          rw [inks]
          unfold cutFrom
          cases found : inkNumber tables ⟨before, .plain c :: inks count pieces, []⟩ with
          | none => exact .keep c (ih pieces.length (by simp) pieces count fuel _ (by omega) rfl)
          | some d =>
            obtain ⟨word, some_, text, letters_, ⟨x, head, decimal⟩, -⟩ := inkNumber_spec found
            have colon : isDecimal tables ':' = false := by simp [isDecimal, isAscii]
            have unmarked : ∀ y ∈ word, y.char ≠ ':' := by
              intro y inside same
              rcases letters_ y inside with digit | point
              · rw [same, colon] at digit
                cases digit
              · rw [same] at point
                cases point
            have whole : inks count (.inl c :: pieces) = word ++ d.rest := text
            obtain ⟨letters, later, rfl, split, rest_eq⟩ := inks_split whole unmarked
            cases letters with
            | nil => exact absurd rfl some_
            | cons first letters =>
              have first_eq : Ink.plain first = x := Option.some.inj head
              subst first_eq
              have taken : matched ⟨before, .plain c :: inks count pieces, []⟩ d = (first :: letters).map .plain := matched_word text
              have shorter : later.length < (Sum.inl c :: pieces).length := by
                rw [split, List.length_append, List.length_map, List.length_cons]
                omega
              have room : (inks count later).length < fuel := by
                have size := congrArg List.length whole
                rw [inks, rest_eq, List.length_append, List.length_map, List.length_cons, List.length_cons] at size
                omega
              have after := ih later.length shorter later count fuel d.before room rfl
              rw [split]
              simp only [taken]
              rw [← rest_eq] at after
              refine .number first letters decimal (fun c inside => ?_) after
              exact letters_ (.plain c) (List.mem_map_of_mem (List.mem_cons_of_mem _ inside))
        | inr string =>
          obtain ⟨digits, name, all⟩ := paramName_digits (count + 1)
          have none_ : ∀ (b : List Ink) (x : Ink) (rest : List Ink), isDecimal tables x.char = false →
              inkNumber tables ⟨b, x :: rest, []⟩ = none := by
            intro b x rest other
            rw [Option.eq_none_iff_forall_ne_some]
            intro d found
            obtain ⟨word, some_, text, -, ⟨y, head, decimal⟩, -⟩ := inkNumber_spec found
            cases word with
            | nil => exact some_ rfl
            | cons z word =>
              have same : x = y := by
                rw [(List.cons.inj text).1]
                exact Option.some.inj head
              rw [same, decimal] at other
              cases other
          have size : (inks count (.inr string :: pieces)).length = 2 + digits.length + (inks (count + 1) pieces).length := by
            rw [inks, name]
            simp
            omega
          rw [size] at enough
          obtain ⟨more, rfl⟩ := Nat.exists_eq_add_of_le (show 1 + digits.length ≤ fuel by omega)
          have split : Walk tables count (.inr string :: pieces) (.inl (.head string) ::
              ((paramName (count + 1)).map (fun c => .inl (.tail c)) ++
                cutFrom (inkNumber tables) more
                  ⟨(digits.map .tail).reverse ++ .tail 'p' :: .head string :: before, inks (count + 1) pieces, []⟩)) :=
            .string string (ih pieces.length (by simp) pieces (count + 1) more _ (by omega) rfl)
          have text : cutFrom (inkNumber tables) (1 + digits.length + more + 1) ⟨before, inks count (.inr string :: pieces), []⟩ =
              .inl (.head string) :: ((paramName (count + 1)).map (fun c => .inl (.tail c)) ++
                cutFrom (inkNumber tables) more
                  ⟨(digits.map .tail).reverse ++ .tail 'p' :: .head string :: before, inks (count + 1) pieces, []⟩) := by
            have tails := cut_tail tables (fun c inside => (digits_ascii tables (all c inside)).2.1)
              (.tail 'p' :: .head string :: before)
              (by simp [Ink.char, isWord, isAlnum, isAscii]) more (inks (count + 1) pieces)
            rw [inks, name, cutFrom]
            simp only [List.cons_append, List.map_cons]
            rw [none_ _ _ _ (by simp [Ink.char, isDecimal, isAscii])]
            simp only [Cursor.next]
            rw [show 1 + digits.length + more = more + digits.length + 1 by omega, cutFrom,
              none_ _ _ _ (by simp [Ink.char, isDecimal, isAscii])]
            simp only [Cursor.next]
            rw [tails]
          rw [text]
          exact split

/-- What the first pass leaves of a text whose white space is collapsed. -/
structure Fit (pieces : List (Char ⊕ List Char)) : Prop where
  strings : ∀ text, Sum.inr text ∈ pieces → stringText text = true
  spaces : ∀ c, Sum.inl c ∈ pieces → isSpace c = true → c = ' '

theorem Fit.rest {piece : Char ⊕ List Char} {pieces : List (Char ⊕ List Char)} (fit : Fit (piece :: pieces)) : Fit pieces :=
  ⟨fun text inside => fit.strings text (List.mem_cons_of_mem _ inside), fun c inside => fit.spaces c (List.mem_cons_of_mem _ inside)⟩

theorem Fit.later {front pieces : List (Char ⊕ List Char)} (fit : Fit (front ++ pieces)) : Fit pieces :=
  ⟨fun text inside => fit.strings text (List.mem_append_right _ inside), fun c inside => fit.spaces c (List.mem_append_right _ inside)⟩

section Reading

variable {count : Nat} {pieces : List (Char ⊕ List Char)} {after : List (Ink ⊕ List Ink)}

/-- The passes write every literal as the name with its number. -/
theorem Walk.spec (walk : Walk tables count pieces after) (fit : Fit pieces) :
    (∀ numbers, placeholders numbers (after.map (Sum.map Ink.char (List.map Ink.char))) =
      spell (names tables) (cellsFrom count numbers (after.filterMap (markOf tables)))) ∧
      textOf (after.filterMap (markOf tables)) = uncut pieces ∧
      (literalsOf true (after.filterMap (markOf tables))).map Literal.text = matchesOf pieces ∧
      (literalsOf false (after.filterMap (markOf tables))).map Literal.text =
        matchesOf (after.map (Sum.map Ink.char (List.map Ink.char))) := by
  induction walk with
  | done count => exact ⟨fun _ => rfl, rfl, rfl, rfl⟩
  | keep c _ ih =>
    obtain ⟨spelled, text, strings, numbers⟩ := ih fit.rest
    exact ⟨fun n => congrArg (c :: ·) (spelled n), congrArg (c :: ·) text, strings, numbers⟩
  | @number count pieces after first letters decimal others _ ih =>
    obtain ⟨spelled, text, strings, numbers⟩ := ih fit.later
    have solid : ∀ c ∈ first :: letters, isSpace c = false := by
      intro c inside
      by_contra blank
      have member : Sum.inl c ∈ (first :: letters).map Sum.inl ++ pieces :=
        List.mem_append_left _ (List.mem_map_of_mem inside)
      have is := fit.spaces c member (by simpa using blank)
      have other : isDecimal tables ' ' = false := by simp [isDecimal, isAscii]
      subst is
      rcases List.mem_cons.mp inside with same | inside
      · rw [← same, other] at decimal
        cases decimal
      · rcases others ' ' inside with digit | point
        · rw [other] at digit
          cases digit
        · cases point
    have word : ((first :: letters).map Ink.plain).map Ink.char = first :: letters := by
      rw [List.map_map]
      exact List.map_id _
    have fits : numberText tables (first :: letters) = true := by simpa [numberText, decimal] using solid
    have mark : markOf tables (.inr ((first :: letters).map .plain)) = some (.inr ⟨false, first :: letters, fits⟩) := by
      rw [markOf, word, literal_some (show (if false = true then stringText (first :: letters) else numberText tables (first :: letters)) = true from fits)]
      rfl
    have pieces_eq : matchesOf ((first :: letters).map .inl ++ pieces) = matchesOf pieces := by
      have none_ : ∀ text : List Char, (text.map (.inl : Char → Char ⊕ List Char)).filterMap Sum.getRight? = [] := slotsOf_chars
      rw [matchesOf, List.filterMap_append, none_]
      rfl
    have letters_eq : ∀ text : List Char, uncut (text.map (.inl : Char → Char ⊕ List Char)) = text := by
      intro text
      induction text with
      | nil => rfl
      | cons c rest ih => exact congrArg (c :: ·) ih
    rw [List.filterMap_cons_some mark]
    refine ⟨fun n => ?_, ?_, ?_, ?_⟩
    · rw [List.map_cons, Sum.map_inr, placeholders, spelled (n + 1)]
      rfl
    · rw [uncut, List.flatMap_append]
      exact congrArg₂ (· ++ ·) (letters_eq (first :: letters)).symm text
    · rw [pieces_eq]
      exact strings
    · rw [List.map_cons, Sum.map_inr, word]
      exact congrArg ((first :: letters) :: ·) numbers
  | @string count pieces after string _ ih =>
    obtain ⟨spelled, text, strings, numbers⟩ := ih fit.rest
    have fits := fit.strings string List.mem_cons_self
    have mark : markOf tables (.inl (.head string)) = some (.inr ⟨true, string, fits⟩) := by
      rw [markOf, literal_some (show (if true = true then stringText string else numberText tables string) = true from fits)]
      rfl
    have tails : ((paramName (count + 1)).map fun c => (.inl (.tail c) : Ink ⊕ List Ink)).filterMap (markOf tables) = [] := by
      rw [List.filterMap_map]
      exact List.filterMap_eq_nil_iff.mpr fun _ _ => rfl
    have tails' : ((paramName (count + 1)).map fun c => (.inl (.tail c) : Ink ⊕ List Ink)).map
        (Sum.map Ink.char (List.map Ink.char)) = (paramName (count + 1)).map .inl := by
      rw [List.map_map]
      rfl
    have kept : ∀ (n : Nat) (name : List Char) (rest : List (Char ⊕ List Char)),
        placeholders n (name.map .inl ++ rest) = name ++ placeholders n rest := by
      intro n name rest
      induction name with
      | nil => rfl
      | cons c name ih => exact congrArg (c :: ·) ih
    have none_ : ∀ (name : List Char) (rest : List (Char ⊕ List Char)), matchesOf (name.map .inl ++ rest) = matchesOf rest := by
      intro name rest
      induction name with
      | nil => rfl
      | cons c name ih => exact ih
    rw [List.cons_append, List.filterMap_cons_some mark, List.filterMap_append, tails, List.nil_append, List.map_cons,
      List.map_append, tails']
    refine ⟨fun n => ?_, congrArg (string ++ ·) text, congrArg (string :: ·) strings, ?_⟩
    · rw [Sum.map_inl, placeholders, kept, spelled n]
      rfl
    · exact numbers.trans (none_ (paramName (count + 1)) _).symm

end Reading

end Cells

end Rdst.Registry.Fallback
