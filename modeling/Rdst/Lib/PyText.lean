import Rdst.Lib.Letters
import Rdst.Lib.Regex

/-! Python's text as a list of code points. -/

namespace PyText

open Regex

/-- What the Unicode tables say of the characters beyond ASCII. -/
structure Tables where
  alnum : Char → Bool
  decimal : Char → Bool
  digit : Char → Bool
  digitValue : Char → Nat
  upper : Char → List Char
  fold : Char → List Char

/-- Tables that are right for ASCII texts. -/
def asciiTables : Tables :=
  ⟨fun _ => false, fun _ => false, fun _ => false, fun _ => 0, fun c => [c], fun c => [c]⟩

def isAscii (c : Char) : Bool := c.toNat < 128

theorem isAlphanum_ascii {c : Char} (alphanum : c.isAlphanum = true) : isAscii c = true := by
  simp only [Char.isAlphanum, Letters.isAlpha_eq, Letters.isUpper_eq, Letters.isLower_eq, Char.isDigit, Bool.or_eq_true, Bool.and_eq_true,
    decide_eq_true_eq] at alphanum
  have small : c.val.toNat < 128 := by
    rcases alphanum with (upper | lower) | digit
    · have : c.val.toNat ≤ 90 := by simpa [UInt32.le_iff_toNat_le] using upper.2
      omega
    · have : c.val.toNat ≤ 122 := by simpa [UInt32.le_iff_toNat_le] using lower.2
      omega
    · have : c.val.toNat ≤ 57 := by simpa [UInt32.le_iff_toNat_le] using digit.2
      omega
  exact decide_eq_true small

/-- `str.isspace`, which is also `\s`. -/
def isSpace (c : Char) : Bool :=
  let code := c.toNat
  (9 ≤ code && code ≤ 13) || (28 ≤ code && code ≤ 32) || code == 0x85 || code == 0xA0 || code == 0x1680 ||
    (0x2000 ≤ code && code ≤ 0x200A) || code == 0x2028 || code == 0x2029 || code == 0x202F || code == 0x205F ||
    code == 0x3000

/-- `str.isalnum`. -/
def isAlnum (tables : Tables) (c : Char) : Bool := if isAscii c then c.isAlphanum else tables.alnum c

/-- `\w`. -/
def isWord (tables : Tables) (c : Char) : Bool := c == '_' || isAlnum tables c

/-- `\d`. -/
def isDecimal (tables : Tables) (c : Char) : Bool := if isAscii c then c.isDigit else tables.decimal c

/-- `str.isdigit`. -/
def isDigit (tables : Tables) (c : Char) : Bool := if isAscii c then c.isDigit else tables.digit c

def upper (tables : Tables) (text : List Char) : List Char :=
  text.flatMap fun c => if isAscii c then [c.toUpper] else tables.upper c

def casefold (tables : Tables) (text : List Char) : List Char :=
  text.flatMap fun c => if isAscii c then [c.toLower] else tables.fold c

/-- The number that a run of decimals is. -/
def number (tables : Tables) (digits : List Char) : Nat :=
  digits.foldl (fun value c => 10 * value + if isAscii c then c.toNat - '0'.toNat else tables.digitValue c) 0

/-- `int` of a run of decimals; longer ones it refuses. -/
def int (tables : Tables) (digits : List Char) : Except String Nat :=
  if 4300 < digits.length then
    .error ("Exceeds the limit (4300 digits) for integer string conversion: value has " ++ toString digits.length ++
      " digits; use sys.set_int_max_str_digits() to increase the limit")
  else .ok (number tables digits)

/-- `str.find` and what is left after the first occurrence. -/
def afterFirst (needle : List Char) : List Char → Option (List Char)
  | [] => if needle = [] then some [] else none
  | c :: rest =>
    if needle.isPrefixOf (c :: rest) = true then some ((c :: rest).drop needle.length) else afterFirst needle rest

/-- The text up to the first occurrence, if there is one. -/
def beforeFirst (needle : List Char) : List Char → Option (List Char)
  | [] => if needle = [] then some [] else none
  | c :: rest =>
    if needle.isPrefixOf (c :: rest) = true then some [] else (beforeFirst needle rest).map fun before => c :: before

/-- The text up to the first occurrence, and that none ends before it. -/
theorem beforeFirst_spec {needle text front : List Char} (some_ : needle ≠ []) (found : beforeFirst needle text = some front) :
    ∃ rest, text = front ++ (needle ++ rest) ∧
      ∀ early late, front ++ needle = early ++ late → late ≠ [] → ¬ needle <:+ early := by
  induction text generalizing front with
  | nil =>
    rw [beforeFirst, if_neg some_] at found
    cases found
  | cons c text ih =>
    rw [beforeFirst] at found
    split at found
    · rename_i here
      obtain ⟨tail, split⟩ := List.isPrefixOf_iff_prefix.mp here
      cases found
      refine ⟨tail, split.symm, ?_⟩
      intro early late parts left suffix
      have longer := suffix.length_le
      have lengths := congrArg List.length parts
      have positive := List.length_pos_iff.mpr left
      simp only [List.nil_append, List.length_append] at lengths
      omega
    · rename_i other
      obtain ⟨front, later, rfl⟩ := Option.map_eq_some_iff.mp found
      obtain ⟨rest, split, first⟩ := ih later
      refine ⟨rest, by rw [split]; rfl, ?_⟩
      intro early late parts left suffix
      cases early with
      | nil => exact some_ (List.suffix_nil.mp suffix)
      | cons d early =>
        rw [List.cons_append, List.cons_append, List.cons.injEq] at parts
        obtain ⟨rfl, parts⟩ := parts
        rcases List.suffix_cons_iff.mp suffix with whole | later
        · apply other
          rw [List.isPrefixOf_iff_prefix, whole, split, ← List.append_assoc, parts]
          exact ⟨late ++ rest, by simp⟩
        · exact first early late parts left later

/-- Without an occurrence none ends anywhere. -/
theorem beforeFirst_none {needle text early late : List Char} (none_ : beforeFirst needle text = none)
    (split : text = early ++ late) : ¬ needle <:+ early := by
  induction text generalizing early with
  | nil =>
    obtain ⟨rfl, -⟩ := List.append_eq_nil_iff.mp split.symm
    intro suffix
    rw [beforeFirst, if_pos (List.suffix_nil.mp suffix)] at none_
    cases none_
  | cons c text ih =>
    rw [beforeFirst] at none_
    split at none_
    · cases none_
    · rename_i other
      intro suffix
      cases early with
      | nil => exact other (by rw [List.suffix_nil.mp suffix]; rfl)
      | cons d early =>
        rw [List.cons_append, List.cons.injEq] at split
        rcases List.suffix_cons_iff.mp suffix with whole | later
        · apply other
          rw [List.isPrefixOf_iff_prefix, whole, split.1, split.2]
          exact ⟨late, rfl⟩
        · exact ih (Option.map_eq_none_iff.mp none_) split.2 later

theorem afterFirst_eq (needle text : List Char) :
    afterFirst needle text = (beforeFirst needle text).map fun front => text.drop (front.length + needle.length) := by
  induction text with
  | nil =>
    unfold afterFirst beforeFirst
    split <;> simp
  | cons c text ih =>
    unfold afterFirst beforeFirst
    split
    · simp
    · rw [ih, Option.map_map]
      congr 1
      funext front
      simp [Nat.add_right_comm]

/-- What is left after the first occurrence, and that none ends before it. -/
theorem afterFirst_spec {needle text rest : List Char} (some_ : needle ≠ []) (found : afterFirst needle text = some rest) :
    ∃ front, text = front ++ (needle ++ rest) ∧
      ∀ early late, front ++ needle = early ++ late → late ≠ [] → ¬ needle <:+ early := by
  rw [afterFirst_eq] at found
  obtain ⟨front, before, left⟩ := Option.map_eq_some_iff.mp found
  obtain ⟨more, split, first⟩ := beforeFirst_spec some_ before
  rw [split, ← List.append_assoc, ← List.length_append, List.drop_left] at left
  exact ⟨front, left ▸ split, first⟩

def rstrip (text : List Char) : List Char := (text.reverse.dropWhile isSpace).reverse

def strip (text : List Char) : List Char := rstrip (text.dropWhile isSpace)

section Trimming

variable {drops : Char → Bool} {before word after : List Char}

/-- What is dropped in front of a text ends where it begins. -/
theorem dropWhile_stops (some_ : word ≠ []) (first : ∀ c ∈ word.head?, drops c = false) :
    (before ++ (word ++ after)).dropWhile drops = before.dropWhile drops ++ (word ++ after) := by
  induction before with
  | nil =>
    cases word with
    | nil => exact absurd rfl some_
    | cons c rest => simp [first c rfl]
  | cons c before ih => by_cases dropped : drops c = true <;> simp [dropped, ih]

/-- What is dropped at the end of a text begins after it. -/
theorem trim_stops (some_ : word ≠ []) (last : ∀ c ∈ word.getLast?, drops c = false) :
    ((before ++ (word ++ after)).reverse.dropWhile drops).reverse =
      before ++ (word ++ (after.reverse.dropWhile drops).reverse) := by
  have stops : (after.reverse ++ (word.reverse ++ before.reverse)).dropWhile drops =
      after.reverse.dropWhile drops ++ (word.reverse ++ before.reverse) :=
    dropWhile_stops (List.reverse_ne_nil_iff.mpr some_) (by simpa using last)
  rw [List.reverse_append, List.reverse_append, List.append_assoc, stops]
  simp

theorem strip_stops (some_ : word ≠ []) (first : ∀ c ∈ word.head?, isSpace c = false)
    (last : ∀ c ∈ word.getLast?, isSpace c = false) :
    strip (before ++ (word ++ after)) = before.dropWhile isSpace ++ (word ++ rstrip after) := by
  rw [strip, dropWhile_stops some_ first]
  exact trim_stops some_ last

theorem getLast_dropWhile (drops : Char → Bool) (text : List Char) :
    ∀ c ∈ (text.dropWhile drops).getLast?, c ∈ text.getLast? := by
  intro c last
  obtain ⟨front, split⟩ := List.dropWhile_suffix (l := text) drops
  rw [← split, List.getLast?_append, last]
  rfl

theorem head_rstrip (text : List Char) : ∀ c ∈ (rstrip text).head?, c ∈ text.head? := by
  intro c first
  have reversed := getLast_dropWhile isSpace text.reverse c (by rwa [rstrip, List.head?_reverse] at first)
  rwa [List.getLast?_reverse] at reversed

end Trimming

/-- `int` of a text without its sign: underscores may stand between digits. -/
def unsigned (tables : Tables) (text : List Char) : Option Nat :=
  let groups := text.splitOn '_'
  if (groups.all fun group => !group.isEmpty && group.all (isDecimal tables)) = true ∧ groups.flatten.length ≤ 4300 then
    some (number tables groups.flatten)
  else none

/-- The white space that `int` and `float` pass: of ASCII, that of C. -/
def isNumberSpace (c : Char) : Bool := isSpace c && !(28 ≤ c.toNat && c.toNat ≤ 31)

def stripNumber (text : List Char) : List Char :=
  ((text.dropWhile isNumberSpace).reverse.dropWhile isNumberSpace).reverse

/-- `int` of a text, or `none` for its ValueError. -/
def parseInt (tables : Tables) (text : List Char) : Option Int :=
  match stripNumber text with
  | '+' :: digits => (unsigned tables digits).map Int.ofNat
  | '-' :: digits => (unsigned tables digits).map fun value => -Int.ofNat value
  | digits => (unsigned tables digits).map Int.ofNat

example : parseInt asciiTables " -1_000 ".toList = some (-1000) := by decide +kernel

/-- A letter under IGNORECASE, with the four characters beyond ASCII that fold onto one. -/
def sameLetter (letter c : Char) : Bool :=
  c.toUpper == letter.toUpper ||
    (letter.toUpper == 'I' && (c.toNat == 0x130 || c.toNat == 0x131)) ||
    (letter.toUpper == 'S' && c.toNat == 0x17F) || (letter.toUpper == 'K' && c.toNat == 0x212A)

def spaces : Pattern Char := .star (.char isSpace)

def someSpaces : Pattern Char := plus (.char isSpace)

def text (word : String) : Pattern Char := literal word.toList

def anyCase (word : String) : Pattern Char := sequence (word.toList.map fun x => .char (sameLetter x))

def wordEdge (tables : Tables) : Pattern Char := .boundary (isWord tables)

end PyText
