import Rdst.Lib.Slots
import Rdst.Lib.SqlLexer
import Rdst.Library.Selectors

namespace Rdst.Registry.Positional

open PyText Regex Slots SqlLexer
open Library.Listing (maskStringLiterals pgParam)

/-- A stored parameter: whether its type is `string`, and `str` of its value. -/
structure Stored where
  isString : Bool
  value : List Char

def paramLiteral (stored : Stored) : List Char :=
  if stored.isString then '\'' :: (stored.value.flatMap fun c => if c = '\'' then ['\'', '\''] else [c]) ++ ['\''] else stored.value

/-- The name of the parameter of a number. -/
def slotName (digits : List Char) : List Char := 'p' :: digits

def questionName (index : Nat) : List Char := slotName (toString index).toList

section Passes

variable (tables : Tables) (params : List Char → Option Stored) (sql : List Char)

/-- The matches of `_DOLLAR_SLOT` outside of the string literals. -/
def dollarSlots : List (Cursor Char × Cursor Char) := finditer (matchAt (pgParam tables)) (maskStringLiterals tables sql)

/-- `_substitute_dollar_slots`. -/
def substituteDollarSlots : List Char :=
  splice sql (edits (fun _ token => (params (slotName (token.drop 1))).map paramLiteral) (dollarSlots tables sql) 1)

/-- `(?<![:\w]):p\d+`. -/
def namedSlot : Cursor Char → Option (Cursor Char) :=
  matchNotAfter (fun c => c == ':' || isWord tables c)
    (.seq (.char (· == ':')) (.seq (.char (· == 'p')) (plus (.char (isDecimal tables)))))

def questionSlots : List (Cursor Char × Cursor Char) :=
  let masked := maskStringLiterals tables sql
  if dollarSlots tables sql ≠ [] ∨ finditer (namedSlot tables) masked ≠ [] then []
  else finditer (matchAt (.char (· == '?'))) masked

def substituteQuestionSlots : List Char :=
  splice sql (edits (fun index _ => (params (questionName index)).map paramLiteral) (questionSlots tables sql) 1)

/-- The textual passes of `reconstruct_sql`. -/
def fillPositional (d : Dialect) : List Char :=
  let filled := substituteDollarSlots tables params sql
  if d = .mysql then substituteQuestionSlots tables params filled else filled

end Passes

section Engine

variable (d : Dialect) (params : List Char → Option Stored)

/-- The next character is outside of string literals, quoted identifiers and comments. -/
def inCode : Mode → Bool
  | .line | .opening | .block .. | .quoted .. | .escaped .. | .dollar .. => false
  | _ => true

/-- A dollar sign goes on with no name and no opening of a string; after a number PostgreSQL reads it by itself. -/
def dollarBegins : Mode → Bool
  | .code run => run = [] || (d = .postgres && run.getLast?.any Char.isDigit)
  | .version digits => digits = [] || 5 ≤ digits.length
  | .tag _ => false
  | mode => inCode mode

/-- The number of the slot that a dollar sign begins; empty where it begins none. -/
def slotNumber (s : State) (after : List Char) : List Char :=
  let digits := after.takeWhile Char.isDigit
  if dollarBegins d s.mode = true ∧ (d = .postgres ∨ (after.dropWhile Char.isDigit).head?.any inName = false) then digits
  else []

/-- The text with each placeholder that has a value replaced by it, as the engine reads the text. -/
def intendedFrom : State → Nat → Nat → List Char → List Char
  | _, _, _, [] => []
  | s, index, passing + 1, c :: rest => intendedFrom (feed d s c) index passing rest
  | s, index, 0, c :: rest =>
    if c = '$' ∧ slotNumber d s rest ≠ [] then
      match params (slotName (slotNumber d s rest)) with
      | some stored => paramLiteral stored ++ intendedFrom (feed d s c) index (slotNumber d s rest).length rest
      | none => c :: intendedFrom (feed d s c) index 0 rest
    else if c = '?' ∧ d = .mysql ∧ inCode s.mode = true then
      ((params (questionName index)).map paramLiteral).getD [c] ++ intendedFrom (feed d s c) (index + 1) 0 rest
    else c :: intendedFrom (feed d s c) index 0 rest

def intended (sql : List Char) : List Char := intendedFrom d params begin 1 0 sql

end Engine

end Rdst.Registry.Positional
