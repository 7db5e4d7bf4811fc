import Rdst.Lib.Assoc
import Rdst.Lib.Numerals
import Rdst.Registry.Positional

namespace Rdst.Registry.TypedParams

open PyText Regex Assoc Float64 Numerals SqlLexer
open Positional (Stored paramLiteral)

abbrev Text := List Char

section Values

/-- A float of Python; a finite one is its sign and its size. -/
inductive PyFloat
  | nan
  | inf (negative : Bool)
  | finite (negative : Bool) (size : Double)

inductive ParamValue
  | text (value : Text)
  | int (value : ℤ)
  | float (value : PyFloat)
  | bool (value : Bool)
  | none

def signed (negative : Bool) (text : Text) : Text := if negative then '-' :: text else text

def intText (z : ℤ) : Text := signed (decide (z < 0)) (Nat.toDigits 10 z.natAbs)

def PyFloat.str : PyFloat → Text
  | .nan => "nan".toList
  | .inf negative => signed negative "inf".toList
  | .finite negative size => signed negative (writeFloat size)

def ParamValue.str : ParamValue → Text
  | .text value => value
  | .int value => intText value
  | .float value => value.str
  | .bool value => if value then "True".toList else "False".toList
  | .none => "None".toList

/-- A character of a text that `float` reads. -/
def asciiDigit (tables : Tables) (c : Char) : Char :=
  if isAscii c then c
  else if isSpace c then ' '
  else if tables.decimal c then Nat.digitChar (tables.digitValue c)
  else '?'

/-- Underscores are passed between digits. -/
def withoutUnderscores : Option Char → Text → Option Text
  | last, [] => if last = some '_' then none else some []
  | last, c :: rest =>
    if c = '_' then
      if last.any Char.isDigit then withoutUnderscores (some c) rest else none
    else if last = some '_' ∧ c.isDigit = false then none
    else (withoutUnderscores (some c) rest).map fun more => c :: more

def splitSign : Text → Bool × Text
  | '-' :: rest => (true, rest)
  | '+' :: rest => (false, rest)
  | rest => (false, rest)

/-- `float` of a text, or `none` for its ValueError. -/
def parseFloat (tables : Tables) (text : Text) : Option PyFloat :=
  match withoutUnderscores none (stripNumber (text.map (asciiDigit tables))) with
  | none => none
  | some body =>
    let (negative, body) := splitSign body
    let word := body.map Char.toLower
    if word = "inf".toList ∨ word = "infinity".toList then some (.inf negative)
    else if word = "nan".toList then some .nan
    else (readDecimal body).map fun d =>
      match Double.round d.value with
      | some size => .finite negative size
      | none => .inf negative

end Values

section Parameters

variable (tables : Tables)

structure Param where
  value : ParamValue
  isString : Bool
  source : Text

/-- A string is read by the first of `int` and `float` that takes it. -/
def cast : ParamValue → ParamValue
  | .text value =>
    match parseInt tables value with
    | some z => .int z
    | none =>
      match parseFloat tables value with
      | some x => .float x
      | none => .text value
  | value => value

def typedParameter (value : ParamValue) (source : Text) : Param :=
  let value := cast tables value
  { value := value
    isString := match value with
      | .int _ | .float _ => false
      | _ => true
    source := source }

/-- What follows the spellings of a slot, `:p`, `p`, `param_` and `$`. -/
def slotDigits : Text → Option Text
  | ':' :: 'p' :: rest => some rest
  | '$' :: rest => some rest
  | 'p' :: 'a' :: 'r' :: 'a' :: 'm' :: '_' :: rest => some rest
  | 'p' :: rest => some rest
  | _ => none

def canonicalParamKey (name : Text) : Except String Text :=
  let name := strip name
  match slotDigits name with
  | some digits =>
    if digits ≠ [] ∧ digits.all (isDecimal tables) = true then (int tables digits).map fun n => 'p' :: Nat.toDigits 10 n
    else .ok (name.dropWhile (· == ':'))
  | none => .ok (name.dropWhile (· == ':'))

/-- An entry of the registry, as far as its parameters go. -/
structure Entry where
  mostRecentParams : Dict Text ParamValue
  parameters : Dict Text Param
  lastAnalyzed : Text
  lastTarget : Text

/-- `{canonical_param_key(name): value for name, value in parameters.items()}` -/
def canonicalValues (parameters : List (Text × ParamValue)) : Except String (Dict Text ParamValue) :=
  parameters.foldlM (fun values item => do
    let key ← canonicalParamKey tables item.1
    pure (values.insert key item.2)) ∅

def updateParameterHistory (now : Text) (entry : Entry) (parameters : List (Text × ParamValue)) (target source : Text) :
    Except String Entry := do
  let values ← canonicalValues tables parameters
  pure { mostRecentParams := values
         parameters := mapItems (fun _ value => typedParameter tables value source) values
         lastAnalyzed := now
         lastTarget := if target ≠ [] then target else entry.lastTarget }

/-- `str` of the value and whether it is quoted, of which the slots are filled. -/
def Param.stored (param : Param) : Stored := ⟨param.isString, param.value.str⟩

/-- The literal in the place of a slot. -/
def Entry.literal (entry : Entry) (key : Text) : Option Text := (entry.parameters.lookup key).map fun param => paramLiteral param.stored

end Parameters

section Engine

/-- What a backslash and a character stand for in a string of MySQL. -/
def escape (c : Char) : Text :=
  if c = '%' ∨ c = '_' then ['\\', c]
  else if c = '0' then [Char.ofNat 0]
  else if c = 'b' then [Char.ofNat 8]
  else if c = 'n' then ['\n']
  else if c = 'r' then ['\r']
  else if c = 't' then ['\t']
  else if c = 'Z' then [Char.ofNat 26]
  else [c]

/-- The value of a string literal after its first quote, if it ends where the text does. -/
def readBody (d : Dialect) : Text → Option Text
  | [] => none
  | [c] => if c = '\'' then some [] else none
  | c :: x :: rest =>
    if c = '\'' then
      if x = '\'' then (readBody d rest).map fun value => '\'' :: value else none
    else if c = '\\' ∧ d = .mysql then (readBody d rest).map fun value => escape x ++ value
    else (readBody d (x :: rest)).map fun value => c :: value

def readString (d : Dialect) : Text → Option Text
  | '\'' :: rest => readBody d rest
  | _ => none

/-- A numeric literal, with a sign or without. -/
def IsNumber (literal : Text) : Prop := (readDecimal (splitSign literal).2).isSome = true ∧ literal.head? ≠ some '+'

/-- A literal is the string that was given, or it is that text and a number. -/
def Denotes (d : Dialect) (literal value : Text) : Prop :=
  readString d literal = some value ∨ (IsNumber value ∧ literal = value)

end Engine

end Rdst.Registry.TypedParams
