import Rdst.Lib.Cuts
import Rdst.Lib.FirstFill
import Rdst.Registry.Positional

/-! The passes over a statement that sqlglot cannot read. -/

namespace Rdst.Registry.Fallback

open PyText Regex FirstFill
open Positional (Stored paramLiteral slotName)

/-- `'[^']*'`. -/
def stringLiteral : Pattern Char := .seq (.char (· == '\'')) (.seq (.star (.char (· != '\''))) (.char (· == '\'')))

section Passes

variable (tables : Tables)

/-- `\b\d+(?:\.\d+)?\b`. -/
def numberLiteral : Pattern Char :=
  sequence [wordEdge tables, plus (.char (isDecimal tables)),
    optional (.seq (.char (· == '.')) (plus (.char (isDecimal tables)))), wordEdge tables]

/-- `(?:(?<!\$)|(?<=\$\$))` fails. -/
def afterDollar (before : List Char) : Bool := before.head? == some '$' && before.take 2 != ['$', '$']

def numberAt (c : Cursor Char) : Option (Cursor Char) :=
  if afterDollar c.before = true then none else matchAt (numberLiteral tables) c

def paramName (count : Nat) : List Char := slotName (toString count).toList

/-- What `replace_with_placeholder` writes in the place of the matches after as many. -/
def placeholders : Nat → List (Char ⊕ List Char) → List Char
  | _, [] => []
  | count, .inl c :: rest => c :: placeholders count rest
  | count, .inr _ :: rest => ':' :: paramName (count + 1) ++ placeholders (count + 1) rest

/-- What it keeps of a match. -/
def extract (isString : Bool) (text : List Char) : Stored := ⟨isString, if isString then (text.drop 1).dropLast else text⟩

def matchesOf (pieces : List (Char ⊕ List Char)) : List (List Char) := pieces.filterMap Sum.getRight?

def numbered : Nat → List Stored → List (List Char × Stored)
  | _, [] => []
  | count, stored :: rest => (paramName (count + 1), stored) :: numbered (count + 1) rest

/-- `_fallback_normalize`. -/
def fallbackNormalize (sql : List Char) : List Char × List (List Char × Stored) :=
  let collapsed := sub someSpaces (fun _ => [' ']) sql
  let strings := cut (matchAt stringLiteral) collapsed
  let stringParams := (matchesOf strings).map (extract true)
  let numbers := cut (numberAt tables) (placeholders 0 strings)
  let numberParams := (matchesOf numbers).map (extract false)
  (strip (placeholders stringParams.length numbers), numbered 0 (stringParams ++ numberParams))

/-- `_fallback_reconstruct`. -/
def fallbackReconstruct (normalized : List Char) (params : List (List Char × Stored)) : List Char :=
  params.foldl (fun result param => replaceFirst (':' :: param.1) (paramLiteral param.2) result) normalized

def roundTrip (sql : List Char) : List Char :=
  fallbackReconstruct (fallbackNormalize tables sql).1 (fallbackNormalize tables sql).2

end Passes

end Rdst.Registry.Fallback
