import Mathlib.Data.List.Infix
import Rdst.Lib.PyText

namespace Rdst.Ask

open Regex PyText

section Blanking

variable (tables : Tables)

def isMysql (dialect : List Char) : Bool := decide ("mysql".toList <:+: casefold tables dialect)

/-- Whether the last of these characters, nearest first, belongs to an identifier or keyword. -/
def continuesIdentifier (before : List Char) : Bool :=
  before.head?.any fun c => isAlnum tables c || c == '_' || c == '$'

/-- What is left after the quoted span whose opening mark was just read. -/
def quotedEnd (quote : Char) (backslashEscapes : Bool) : List Char → List Char
  | [] | [_] => []
  | c :: next :: rest =>
    if (backslashEscapes && c == '\\') = true then quotedEnd quote backslashEscapes rest
    else if c = quote then
      if next = quote then quotedEnd quote backslashEscapes rest else next :: rest
    else quotedEnd quote backslashEscapes (next :: rest)

/-- What is left after so many open `/* */` comments. -/
def blockCommentEnd (nested : Bool) : Nat → List Char → List Char
  | 0, text => text
  | _ + 1, [] | _ + 1, [_] => []
  | depth + 1, c :: next :: rest =>
    if (nested && c == '/' && next == '*') = true then blockCommentEnd nested (depth + 2) rest
    else if c = '*' ∧ next = '/' then blockCommentEnd nested depth rest
    else blockCommentEnd nested (depth + 1) (next :: rest)

def dollarQuote : Pattern Char :=
  sequence [text "$",
    optional (sequence [.char fun c => c.isAlpha || c == '_', .star (.char fun c => c.isAlphanum || c == '_')]),
    text "$"]

def startsLineComment (mysql : Bool) (text : List Char) : Bool :=
  match text with
  | '-' :: '-' :: rest => !mysql || rest.head?.all fun c => c.toNat ≤ 32 || isSpace c
  | '#' :: _ => mysql
  | _ => false

/-- The opening tag of a dollar-quoted body that begins here. -/
def dollarTag (mysql : Bool) (before text : List Char) : Option (List Char) :=
  if mysql = true ∨ text.head? ≠ some '$' ∨ continuesIdentifier tables before = true then none
  else (matchAt dollarQuote ⟨before, text, []⟩).map (matched ⟨before, text, []⟩)

/-- What is left after the literal, the quoted name or the comment that begins here, if one does. -/
def spanEnd (mysql : Bool) (before : List Char) (ch : Char) (rest : List Char) : Option (List Char) :=
  if ch = '\'' ∨ ch = '"' ∨ ch = '\x60' then
    let backslash := ch != '\x60' && (mysql || (ch == '\'' &&
      (before.head?.any fun c => c == 'e' || c == 'E') && !continuesIdentifier tables before.tail))
    some (quotedEnd ch backslash rest)
  else
    match dollarTag tables mysql before (ch :: rest) with
    | some tag => some ((afterFirst tag ((ch :: rest).drop tag.length)).getD [])
    | none =>
      if startsLineComment mysql (ch :: rest) = true then some ((ch :: rest).dropWhile fun c => c ≠ '\n')
      else if ch = '/' ∧ rest.head? = some '*' then some (blockCommentEnd (!mysql) 1 rest.tail)
      else none

/-- The rest of the text with everything but the outermost code blanked out, `before` being what was read,
    nearest first, `depth` the open parentheses and `executable` whether a `/*!` is open. -/
def topLevelFrom (mysql : Bool) : Nat → List Char → List Char → Nat → Bool → List Char
  | 0, _, _, _, _ | _ + 1, _, [], _, _ => []
  | fuel + 1, before, ch :: rest, depth, executable =>
    let skip (after : List Char) (executable : Bool) : List Char :=
      let taken := (ch :: rest).take ((ch :: rest).length - after.length)
      List.replicate taken.length ' ' ++ topLevelFrom mysql fuel (taken.reverse ++ before) after depth executable
    if mysql = true ∧ "/*!".toList <+: ch :: rest then skip ((rest.drop 2).dropWhile (isDigit tables)) true
    else if executable = true ∧ "*/".toList <+: ch :: rest then skip (rest.drop 1) false
    else
      match spanEnd tables mysql before ch rest with
      | some after => skip after executable
      | none =>
        let opened := if ch = '(' then depth + 1 else depth
        (if opened = 0 then ch else ' ') ::
          topLevelFrom mysql fuel (ch :: before) rest (if ch = ')' then opened - 1 else opened) executable

def topLevelText (sql dialect : List Char) : List Char :=
  topLevelFrom tables (isMysql tables dialect) sql.length [] sql 0 false

end Blanking

section Limit

variable (tables : Tables)

def digits : Pattern Char := plus (.char (isDecimal tables))

def topLimit : Pattern Char :=
  sequence [wordEdge tables, anyCase "LIMIT", someSpaces, .group 1 (digits tables),
    optional (.alt (sequence [spaces, text ",", spaces, .group 2 (digits tables)])
      (sequence [someSpaces, anyCase "OFFSET", someSpaces, digits tables]))]

def topFetch : Pattern Char :=
  sequence [wordEdge tables, anyCase "FETCH", someSpaces, .alt (anyCase "FIRST") (anyCase "NEXT"), someSpaces,
    optional (.group 1 (digits tables)), spaces, anyCase "ROW", optional (anyCase "S"), someSpaces,
    .alt (anyCase "ONLY") (sequence [anyCase "WITH", someSpaces, anyCase "TIES"]), wordEdge tables]

/-- The match of one of the two patterns: the spans of its groups. -/
structure LimitMatch where
  fetch : Bool
  first : Option (Nat × Nat)
  second : Option (Nat × Nat)
deriving DecidableEq

def limitMatch (fetch : Bool) (found : Option (Cursor Char × Cursor Char)) : Option LimitMatch :=
  found.map fun place => ⟨fetch, place.2.span 1, place.2.span 2⟩

def outerLimit (sql dialect : List Char) : Option LimitMatch :=
  let text := topLevelText tables sql dialect
  (limitMatch false (search (topLimit tables) text)).or (limitMatch true (search (topFetch tables) text))

/-- The span that holds the count. -/
def LimitMatch.count (found : LimitMatch) : Option (Nat × Nat) :=
  if found.fetch = true then found.first else found.second.or found.first

def slice (text : List Char) (span : Nat × Nat) : List Char := (text.take span.2).drop span.1

/-- Whether there is a limit, and its count; `int` may raise. -/
def extractLimitClause (sql dialect : List Char) : Except String (Bool × Option Nat) :=
  match outerLimit tables sql dialect with
  | none => .ok (false, none)
  | some found =>
    match found.count with
    | some span => do
      let value ← int tables (slice (topLevelText tables sql dialect) span)
      return (true, some value)
    | none => .ok (true, some 1)

/-- `str` of a number. -/
def decimalText (n : Nat) : List Char := Nat.toDigits 10 n

/-- The statement that a limit is appended to. -/
def limitBase (sql : List Char) : List Char :=
  let sql := rstrip sql
  if sql.getLast? = some ';' then rstrip sql.dropLast else sql

def injectLimit (sql : List Char) (limit : Nat) : List Char :=
  limitBase sql ++ " LIMIT ".toList ++ decimalText limit

def replaceLimit (sql : List Char) (newLimit : Nat) (dialect : List Char) : List Char :=
  match (outerLimit tables sql dialect).bind LimitMatch.count with
  | some span => sql.take span.1 ++ decimalText newLimit ++ sql.drop span.2
  | none => sql

end Limit

end Rdst.Ask
