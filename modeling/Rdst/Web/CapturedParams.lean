import Rdst.Lib.Assoc
import Rdst.Lib.Weaving
import Rdst.Web.Frames
import Rdst.Web.SqlSlots

namespace Rdst.Web.SqlParameters

open PyText Regex Weaving Assoc

section Texts

/-- The text from so many UTF-16 units on. -/
def dropUnits : Nat → List Char → List Char
  | _, [] => []
  | n, c :: text => if n = 0 then c :: text else dropUnits (n - units [c]) text

def takeUnits : Nat → List Char → List Char
  | _, [] => []
  | n, c :: text => if n = 0 then [] else c :: takeUnits (n - units [c]) text

/-- `String.prototype.slice` between two places that no surrogate pair straddles. -/
def slice (text : List Char) (start stop : Nat) : List Char := takeUnits (stop - start) (dropUnits start text)

def quoteAsText (value : List Char) : List Char :=
  '\'' :: ((value.flatMap fun c => if c = '\'' then ['\'', '\''] else [c]) ++ ['\''])

/-- `/^-?(0|[1-9]\d*)(\.\d+)?$/` -/
def bareNumber : Pattern Char :=
  sequence [optional (.char (· == '-')),
    .alt (.char (· == '0')) (.seq (.char fun c => '1' ≤ c && c ≤ '9') (.star (.char Char.isDigit))),
    optional (.seq (.char (· == '.')) (plus (.char Char.isDigit)))]

/-- `RegExp.prototype.test` of a pattern between `^` and `$`. -/
def testWhole (p : Pattern Char) (text : List Char) : Bool := (successes p (start text)).any fun d => d.rest.isEmpty

variable (tables : Tables)

def keywords : List (List Char) := ["NULL".toList, "TRUE".toList, "FALSE".toList]

def formatValue (value : List Char) : List Char :=
  let trimmed := Web.trim value
  if testWhole bareNumber trimmed then trimmed
  else if upper tables trimmed ∈ keywords then upper tables trimmed
  else if 2 ≤ units trimmed ∧ trimmed.head? = some '\'' ∧ trimmed.getLast? = some '\'' then trimmed
  else if 2 ≤ units trimmed ∧ trimmed.head? = some '"' ∧ trimmed.getLast? = some '"' then
    quoteAsText (slice trimmed 1 (units trimmed - 1))
  else quoteAsText trimmed

end Texts

section Records

variable {Value : Type}

def protoKey : List Char := "__proto__".toList

def objectMethods : List (List Char) :=
  ["__defineGetter__", "__defineSetter__", "__lookupGetter__", "__lookupSetter__", "hasOwnProperty", "isPrototypeOf",
    "propertyIsEnumerable", "toLocaleString", "toString", "valueOf"].map String.toList

/-- What every object has from `Object.prototype`, as `String` gives it. -/
def inherited (key : List Char) : Option (List Char) :=
  if key = protoKey then some "[object Object]".toList
  else if key = "constructor".toList then some "function Object() \x7b [native code] \x7d".toList
  else if key ∈ objectMethods then some ("function ".toList ++ key ++ "() \x7b [native code] \x7d".toList)
  else none

/-- `record[key]`, of which `text` gives what `String` does, and nothing of `null`. -/
def property (text : Value → Option (List Char)) (record : Dict (List Char) Value) (key : List Char) : Option (List Char) :=
  match record.lookup key with
  | some value => text value
  | none => inherited key

/-- `record[key] = text`, which at `__proto__` does nothing. -/
def assign (record : Dict (List Char) (List Char)) (key value : List Char) : Dict (List Char) (List Char) :=
  if key = protoKey then record else record.insert key value

end Records

section Substitution

variable (tables : Tables)

/-- The state of the loop of `substituteParameters`. -/
structure Substitution where
  result : List Char
  questionIndex : Nat
  cursor : Nat

/-- `byPlaceholder.has(token) ? formatValue(values[key] || '') : token` -/
def substituted (params : List Parameter) (values : Dict (List Char) (List Char)) (token key : List Char) : List Char :=
  if ∃ p ∈ params, p.placeholder = token then formatValue tables ((property some values key).getD []) else token

def Substitution.next (sql : List Char) (params : List Parameter) (values : Dict (List Char) (List Char)) (s : Substitution)
    (found : PlaceholderMatch) : Substitution :=
  let result := s.result ++ slice sql s.cursor found.start
  if found.token = ['?'] then
    { result := result ++ substituted tables params values found.token (questionKey (s.questionIndex + 1))
      questionIndex := s.questionIndex + 1
      cursor := found.stop }
  else
    { result := result ++ substituted tables params values found.token found.token
      questionIndex := s.questionIndex
      cursor := found.stop }

def substituteParameters (sql : List Char) (params : List Parameter) (values : Dict (List Char) (List Char)) : List Char :=
  let done := (scanPlaceholders sql).foldl (Substitution.next tables sql params values) ⟨[], 0, 0⟩
  done.result ++ dropUnits done.cursor sql

variable {Value : Type} (text : Value → Option (List Char))

/-- `value.replace(/^[:@]/, '')` -/
def withoutSign : List Char → List Char
  | c :: name => if c = ':' ∨ c = '@' then name else c :: name
  | [] => []

/-- `value.replace('$', 'p')` -/
def dollarToP : List Char → List Char
  | [] => []
  | c :: rest => if c = '$' then 'p' :: rest else c :: dollarToP rest

def resolveInitialValue (param : Parameter) : Option (Dict (List Char) Value) → List Char
  | none => []
  | some storedParams =>
    let backendKey :=
      if param.type = .named then withoutSign param.placeholder
      else if param.placeholder.head? = some '$' then dollarToP param.placeholder
      else 'p' :: (toString param.index).toList
    (property text storedParams backendKey).getD []

def fillCapturedParams (sql : List Char) (storedParams : Option (Dict (List Char) Value)) : List Char :=
  let params := detectParameters sql
  if params = [] then sql
  else
    let toFill := params.filter fun p => resolveInitialValue text p storedParams ≠ []
    let values := toFill.foldl (fun values p => assign values p.placeholder (resolveInitialValue text p storedParams)) ∅
    if toFill = [] then sql else substituteParameters tables sql toFill values

def toBackendParamKey (param : Parameter) : List Char :=
  if param.type = .named then withoutSign param.placeholder
  else if param.placeholder.head? = some '$' then dollarToP param.placeholder
  else 'p' :: (toString param.index).toList

/-- `values[key]`, where it is not blank. -/
def entered (values : Dict (List Char) (List Char)) (param : Parameter) : Option (List Char) :=
  (property some values (parameterValueKey param)).filter fun value => Web.trim value ≠ []

def toBackendParams (parameters : List Parameter) (values : Dict (List Char) (List Char)) : Dict (List Char) (List Char) :=
  parameters.foldl (fun result parameter =>
    match entered values parameter with
    | some value => assign result (toBackendParamKey parameter) value
    | none => result) ∅

end Substitution

end Rdst.Web.SqlParameters
