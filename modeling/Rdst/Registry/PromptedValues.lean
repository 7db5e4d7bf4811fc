import Rdst.Lib.Cuts
import Rdst.Lib.ReplaceAll
import Rdst.Registry.Fallback
import Rdst.Registry.PositionalFill

namespace Rdst.Registry.Prompted

open PyText Regex Slots SqlLexer ReplaceAll
open Library.Listing (maskStringLiterals pgParam)
open Positional (dollarSlots dollarWidth questionWidth)
open Fallback (stringLiteral)

section Source

variable (tables : Tables)

/-- The numbers of `$` placeholders, as positions from zero. -/
def positioned : List (List Char) → Except String (List (List Char × Int))
  | [] => .ok []
  | token :: rest => do
    let number ← int tables (token.drop 1)
    let more ← positioned rest
    .ok ((token, (number : Int) - 1) :: more)

def detectPlaceholders (sql : List Char) : Except String (List (List Char × Int)) := do
  let found ← positioned tables ((dollarSlots tables sql).map fun m => matched m.1 m.2)
  if found = [] then
    .ok (((sub stringLiteral (fun _ => ['\'', '\'']) sql).filter (· == '?')).zipIdx.map fun m => ([m.1], (m.2 : Int)))
  else .ok found

/-- What `validate_value` makes of an answer. -/
inductive Value
  | int (n : Int)
  | text (s : List Char)
deriving DecidableEq

def quoted (s : List Char) : List Char := '\'' :: s.flatMap (fun c => if c = '\'' then ['\'', '\''] else [c]) ++ ['\'']

def valueText : Value → List Char
  | .int n => (toString n).toList
  | .text s => if s ≠ [] ∧ s.all (isDigit tables) = true then s else quoted s

/-- `values.get(position, "?")`. -/
def valueAt (values : List (Int × Value)) (position : Int) : Value :=
  ((values.find? fun entry => decide (entry.1 = position)).map Prod.snd).getD (.text ['?'])

/-- The loop over the statement and the one with its literals blank. -/
def fillQuestions (value : Nat → List Char) : Nat → List Char → List Char → List Char
  | _, [], _ => []
  | _, c :: rest, [] => c :: rest
  | position, c :: rest, m :: mask =>
    if m = '?' then value position ++ fillQuestions value (position + 1) rest mask
    else c :: fillQuestions value position rest mask

def questionMask (sql : List Char) : List Char := sub stringLiteral (fun word => List.replicate word.length '\x00') sql

/-- The name that a position's placeholder is replaced by. -/
def dollarName (position : Int) : List Char := '$' :: (toString (position + 1)).toList

/-- One round of the loop over the values. -/
def replaceRound (result : List Char) (entry : Int × Value) : List Char :=
  replaceAll (dollarName entry.1) (valueText tables entry.2) result

/-- In the order of `sorted(..., reverse=True)`. -/
def descending (values : List (Int × Value)) : List (Int × Value) := values.insertionSort fun a b => b.1 ≤ a.1

def substitutePlaceholders (sql : List Char) (values : List (Int × Value)) : List Char :=
  if (search (pgParam tables) sql).isSome = true then (descending values).foldl (replaceRound tables) sql
  else fillQuestions (fun position => valueText tables (valueAt values position)) 0 sql (questionMask sql)

def hasUnresolvedPlaceholders (sql : List Char) : Bool :=
  (search (pgParam tables) sql).isSome || decide ('?' ∈ sub stringLiteral (fun _ => []) sql)

end Source

section Meaning

/-- A placeholder in a statement: its text, its position, and whether the database reads it inside of a string literal. -/
structure Spot where
  token : List Char
  index : Int
  hidden : Bool
deriving DecidableEq

variable (d : Dialect)

/-- The next character is inside of a string literal. -/
def inLiteral : Mode → Bool
  | .quoted mark .. | .escaped mark _ => mark == '\'' || (mark == '"' && d = .mysql)
  | .dollar .. => true
  | _ => false

/-- The statement cut at the placeholders that a mask of it shows. -/
def cellsFrom (width : List Char → Option Nat) (index : Nat → List Char → Int) :
    State → Nat → Nat → List Char → List Char → List (Char ⊕ Spot)
  | _, _, _, [], _ => []
  | _, _, _, _ :: _, [] => []
  | s, number, passing + 1, c :: text, _ :: mask => cellsFrom width index (feed d s c) number passing text mask
  | s, number, 0, c :: text, m :: mask =>
    match width (m :: mask) with
    | none => .inl c :: cellsFrom width index (feed d s c) number 0 text mask
    | some n =>
      .inr ⟨(m :: mask).take n, index number ((m :: mask).take n), inLiteral d s.mode⟩ ::
        cellsFrom width index (feed d s c) (number + 1) (n - 1) text mask

variable (tables : Tables)

/-- The statement cut at the placeholders that are listed. -/
def cells (sql : List Char) : List (Char ⊕ Spot) :=
  if dollarSlots tables sql = [] then cellsFrom d questionWidth (fun number _ => number) begin 0 0 sql (questionMask sql)
  else
    cellsFrom d (dollarWidth tables) (fun _ token => (number tables (token.drop 1) : Int) - 1) begin 0 0 sql
      (maskStringLiterals tables sql)

def spots (cells : List (Char ⊕ Spot)) : List Spot := cells.filterMap Sum.getRight?

def write (value : Spot → List Char) : Char ⊕ Spot → List Char := Sum.elim (fun c => [c]) value

/-- The literal of a value. -/
def literalOf : Value → List Char
  | .int n => (toString n).toList
  | .text s =>
    if s ≠ [] ∧ s.all Char.isDigit = true then s
    else '\'' :: s.flatMap (fun c => if c = '\'' ∨ (c = '\\' ∧ d = .mysql) then [c, c] else [c]) ++ ['\'']

/-- The listed placeholders replaced, those inside of string literals too. -/
def filled (values : List (Int × Value)) (sql : List Char) : List Char :=
  (cells d tables sql).flatMap (write fun spot => valueText tables (valueAt values spot.index))

/-- What becomes of the statement: each listed placeholder outside of string literals is replaced once, by a literal of its
value, nothing else changes, and nothing is left to fill. -/
structure Fills (sql : List Char) (values : List (Int × Value)) : Prop where
  text : substitutePlaceholders tables sql values = (cells d tables sql).flatMap
    (write fun spot => if spot.hidden then spot.token else valueText tables (valueAt values spot.index))
  literals : ∀ spot ∈ spots (cells d tables sql),
    valueText tables (valueAt values spot.index) = literalOf d (valueAt values spot.index)
  resolved : hasUnresolvedPlaceholders tables (substitutePlaceholders tables sql values) = false

/-- A value that the function quotes as it has to be quoted. -/
def Plain : Value → Prop
  | .int _ => True
  | .text s => if s ≠ [] ∧ s.all (isDigit tables) = true then s.all Char.isDigit = true else d = .mysql → '\\' ∉ s

instance (d : Dialect) (tables : Tables) : DecidablePred (Plain d tables)
  | .int _ => isTrue trivial
  | .text s => inferInstanceAs (Decidable
    (if s ≠ [] ∧ s.all (isDigit tables) = true then s.all Char.isDigit = true else d = .mysql → '\\' ∉ s))

end Meaning

end Rdst.Registry.Prompted
