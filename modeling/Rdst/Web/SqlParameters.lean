import Mathlib.Algebra.GroupWithZero.Nat
import Mathlib.Data.List.Sort
import Rdst.Lib.Marking
import Rdst.Lib.PyText

namespace Rdst.Web.SqlParameters

open PyText

section Scanner

structure PlaceholderMatch where
  token : List Char
  start : Nat
  stop : Nat
deriving DecidableEq

def startsName (c : Char) : Bool := c.isAlpha || c == '_'

def inName (c : Char) : Bool := c.isAlphanum || c == '_'

/-- What is left after a quoted run: a doubled quote in it does not close it, and one that is never closed leaves nothing. -/
def afterQuoted (quote : Char) : List Char → List Char
  | [] => []
  | c :: rest =>
    if c = quote then
      match rest with
      | d :: further => if d = quote then afterQuoted quote further else rest
      | [] => []
    else afterQuoted quote rest

/-- What is left after a block comment at this depth. -/
def afterBlock : Nat → List Char → List Char
  | 0, text => text
  | _ + 1, [] => []
  | depth + 1, c :: rest =>
    if c = '/' ∧ rest.head? = some '*' then
      match rest with
      | _ :: further => afterBlock (depth + 2) further
      | [] => []
    else if c = '*' ∧ rest.head? = some '/' then
      match rest with
      | _ :: further => afterBlock depth further
      | [] => []
    else afterBlock (depth + 1) rest

/-- `indexOf`, and what is left after what it finds; nothing where it finds nothing. -/
def afterIndex (needle text : List Char) : List Char := (afterFirst needle text).getD []

/-- `DOLLAR_QUOTE_OPEN` after its first dollar: the opening, and what follows it. -/
def dollarQuoteOpen (text : List Char) : Option (List Char × List Char) :=
  match text.dropWhile inName with
  | '$' :: body =>
    if (text.takeWhile inName).head?.all startsName = true then some ('$' :: (text.takeWhile inName ++ ['$']), body) else none
  | _ => none

/-- What follows the mark of `DOLLAR_SLOT` or `NAMED_SLOT`. -/
def slotName (starts inside : Char → Bool) (text : List Char) : Option (List Char) :=
  if text.head?.any starts = true then some (text.takeWhile inside) else none

/-- One turn of the scanner: the slot that begins at the character, if one does, and what is left to scan. -/
def scanAt (before : Option Char) (c : Char) (rest : List Char) : Option (List Char) × List Char :=
  if c ∈ ['\'', '"', '\x60'] then (none, afterQuoted c rest)
  else if c = '-' ∧ rest.head? = some '-' then (none, afterIndex ['\n'] rest)
  else if c = '/' ∧ rest.head? = some '*' then (none, afterBlock 1 rest.tail)
  else if c = '$' then
    match dollarQuoteOpen rest with
    | some (opening, body) => (none, afterIndex opening body)
    | none =>
      match slotName Char.isDigit Char.isDigit rest with
      | some number => (some (c :: number), rest.dropWhile Char.isDigit)
      | none => (none, rest)
  else if c = '?' then (some [c], rest)
  else if (c = ':' ∨ c = '@') ∧ before ≠ some ':' ∧ rest.head? ≠ some ':' then
    match slotName startsName inName rest with
    | some name => (some (c :: name), rest.dropWhile inName)
    | none => (none, rest)
  else (none, rest)

/-- The length of a text as JavaScript counts it. -/
def units (text : List Char) : Nat := (text.map fun c => if c.toNat < 0x10000 then 1 else 2).sum

/-- The scan from an index on, with the text before it in reverse. -/
def scanFrom : Nat → List Char → List Char → List PlaceholderMatch
  | 0, _, _ => []
  | _ + 1, _, [] => []
  | fuel + 1, before, c :: rest =>
    let (slot, left) := scanAt before.head? c rest
    let passed := (c :: rest).take ((c :: rest).length - left.length)
    (slot.map fun token => ⟨token, units before, units before + units token⟩).toList ++
      scanFrom fuel (passed.reverse ++ before) left

def scanPlaceholders (sql : List Char) : List PlaceholderMatch := scanFrom (sql.length + 1) [] sql

end Scanner

section Detection

inductive ParameterType
  | positional
  | named
deriving DecidableEq

structure Parameter where
  placeholder : List Char
  index : Nat
  type : ParameterType
deriving DecidableEq

/-- `Number.parseInt`, which rounds a number beyond 2^53; the index only orders the parameters. -/
def parseInt (digits : List Char) : Nat := digits.foldl (fun value c => 10 * value + (c.toNat - '0'.toNat)) 0

structure Detected where
  seen : List (List Char)
  params : List Parameter

def Detected.dollar (s : Detected) (found : PlaceholderMatch) : Detected :=
  if found.token.head? ≠ some '$' ∨ found.token ∈ s.seen then s
  else ⟨found.token :: s.seen, s.params ++ [⟨found.token, parseInt found.token.tail, .positional⟩]⟩

/-- The numbering of the question marks. -/
def numberQuestion (s : Nat × List Parameter) (found : PlaceholderMatch) : Nat × List Parameter :=
  if found.token ≠ ['?'] then s else (s.1 + 1, s.2 ++ [⟨['?'], s.1, .positional⟩])

def Detected.name (s : Detected) (found : PlaceholderMatch) : Detected :=
  if ¬ (found.token.head? = some ':' ∨ found.token.head? = some '@') ∨ found.token ∈ s.seen then s
  else ⟨found.token :: s.seen, s.params ++ [⟨found.token, s.params.length + 1, .named⟩]⟩

def detectParameters (sql : List Char) : List Parameter :=
  let matches_ := scanPlaceholders sql
  let dollars := matches_.foldl Detected.dollar ⟨[], []⟩
  let questions := matches_.foldl numberQuestion (1, dollars.params)
  let names := matches_.foldl Detected.name ⟨dollars.seen, questions.2⟩
  names.params.insertionSort fun a b => a.index ≤ b.index

def questionKey (number : Nat) : List Char := '?' :: (toString number).toList

def parameterValueKey (parameter : Parameter) : List Char :=
  if parameter.placeholder = ['?'] then questionKey parameter.index else parameter.placeholder

end Detection

example : (detectParameters "SELECT * FROM t WHERE a = $2 AND b = :b AND c = '$1' AND d = ? -- ?".toList).map parameterValueKey =
    ["?1".toList, "$2".toList, ":b".toList] := by decide +kernel

end Rdst.Web.SqlParameters
