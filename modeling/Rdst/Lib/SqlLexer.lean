import Mathlib.Data.List.Basic
import Rdst.Lib.Letters

/-! How a database reads the text of a statement into tokens. -/

namespace SqlLexer

inductive Dialect
  | postgres
  | mysql
deriving DecidableEq

/-- A word is an identifier, a keyword or a number; an operator is one symbol after another. The body of a
    quoted token stands as it is written. -/
inductive Token
  | word (text : List Char)
  | quoted (mark : Char) (body : List Char)
  | symbol (c : Char)
deriving DecidableEq

/-- What has been read of an unfinished token, the latest character first. -/
inductive Mode
  | code (run : List Char)
  | dash
  | dashes
  | slash
  | star
  | line
  | opening
  | version (digits : List Char)
  | block (depth : Nat) (last : Option Char)
  | quoted (mark : Char) (escapes : Bool) (body : List Char)
  | escaped (mark : Char) (body : List Char)
  | closing (mark : Char) (escapes : Bool) (body : List Char)
  | tag (name : List Char)
  | dollar (name body : List Char)
deriving DecidableEq

/-- The tokens read so far, oldest first; `executable` inside of `/*! ... */`. -/
structure State where
  tokens : List Token
  mode : Mode
  executable : Bool
deriving DecidableEq

def isBlank (c : Char) : Bool := c == ' ' || (9 ≤ c.toNat && c.toNat ≤ 13)

def startsName (c : Char) : Bool := c.isAlpha || c == '_' || 128 ≤ c.toNat

def inName (c : Char) : Bool := startsName c || c.isDigit || c == '$'

def State.emit (s : State) (token : Token) : State := { s with tokens := s.tokens ++ [token] }

def State.enter (s : State) (mode : Mode) : State := { s with mode := mode }

/-- The word that the run is, if there is one. -/
def State.closeRun (s : State) (run : List Char) : State :=
  if run = [] then s else s.emit (.word run.reverse)

/-- A character of the code after the run. -/
def feedCode (d : Dialect) (s : State) (run : List Char) (c : Char) : State :=
  if (inName c && (c != '$' || d = .mysql || run ≠ [])) = true then s.enter (.code (c :: run))
  else
    let closed := s.closeRun run
    if c = '\'' then
      closed.enter (.quoted c (d = .mysql || run = ['e'] || run = ['E']) [])
    else if c = '"' then closed.enter (.quoted c (d = .mysql) [])
    else if c = '\x60' ∧ d = .mysql then closed.enter (.quoted c false [])
    else if c = '-' then closed.enter .dash
    else if c = '/' then closed.enter .slash
    else if c = '*' ∧ s.executable = true then closed.enter .star
    else if c = '#' ∧ d = .mysql then closed.enter .line
    else if c = '$' then closed.enter (.tag [])
    else if isBlank c = true then closed.enter (.code [])
    else (closed.emit (.symbol c)).enter (.code [])

/-- The characters at which a comment from two dashes on is over. -/
def endsLine (d : Dialect) (c : Char) : Bool := c == '\n' || (c == '\r' && d = .postgres)

def feed (d : Dialect) (s : State) (c : Char) : State :=
  match s.mode with
  | .code run => feedCode d s run c
  | .dash =>
    if c = '-' then s.enter (if d = .mysql then .dashes else .line)
    else feedCode d (s.emit (.symbol '-')) [] c
  -- MySQL asks for white space or a control character after the two dashes.
  | .dashes =>
    if c = '\n' then s.enter (.code [])
    else if c.toNat ≤ 32 ∨ c.toNat = 127 then s.enter .line
    else if c = '-' then (s.emit (.symbol '-')).enter .dashes
    else feedCode d ((s.emit (.symbol '-')).emit (.symbol '-')) [] c
  | .slash =>
    if c = '*' then s.enter (if d = .mysql then .opening else .block 1 none)
    else feedCode d (s.emit (.symbol '/')) [] c
  | .star =>
    if c = '/' then { s with mode := .code [], executable := false }
    else feedCode d (s.emit (.symbol '*')) [] c
  | .line => if endsLine d c = true then s.enter (.code []) else s
  | .opening =>
    if c = '!' then { s with mode := .version [], executable := true }
    else s.enter (.block 1 (if c = '*' then some c else none))
  -- A version is five or six digits; fewer are part of the code.
  | .version digits =>
    if c.isDigit = true ∧ digits.length < 6 then s.enter (.version (c :: digits))
    else if digits.length < 5 then feedCode d s digits c
    else feedCode d s [] c
  | .block depth last =>
    if last = some '*' ∧ c = '/' then
      s.enter (if depth ≤ 1 then .code [] else .block (depth - 1) none)
    else if last = some '/' ∧ c = '*' ∧ d = .postgres then s.enter (.block (depth + 1) none)
    else s.enter (.block depth (some c))
  | .quoted mark escapes body =>
    if c = mark then s.enter (.closing mark escapes body)
    else if c = '\\' ∧ escapes = true then s.enter (.escaped mark (c :: body))
    else s.enter (.quoted mark escapes (c :: body))
  | .escaped mark body => s.enter (.quoted mark true (c :: body))
  | .closing mark escapes body =>
    if c = mark then s.enter (.quoted mark escapes (c :: mark :: body))
    else feedCode d (s.emit (.quoted mark body.reverse)) [] c
  | .tag name =>
    if c = '$' then s.enter (.dollar name [])
    else if (startsName c || (c.isDigit && name ≠ [])) = true then s.enter (.tag (c :: name))
    else feedCode d (s.emit (.symbol '$')) name c
  | .dollar name body =>
    if c = '$' ∧ (name ++ ['$']).isPrefixOf body = true then
      (s.emit (.quoted '$' (body.drop (name.length + 1)).reverse)).enter (.code [])
    else s.enter (.dollar name (c :: body))

/-- The end of the text; what it leaves open the database refuses. -/
def finish (s : State) : List Token :=
  match s.mode with
  | .code run => (s.closeRun run).tokens
  | .dash => s.tokens ++ [.symbol '-']
  | .slash => s.tokens ++ [.symbol '/']
  | .star => s.tokens ++ [.symbol '*']
  | .version digits => (s.closeRun (if digits.length < 5 then digits else [])).tokens
  | .quoted mark _ body | .escaped mark body | .closing mark _ body => s.tokens ++ [.quoted mark body.reverse]
  | .tag name => ((s.emit (.symbol '$')).closeRun name).tokens
  | .dollar _ body => s.tokens ++ [.quoted '$' body.reverse]
  | .dashes | .line | .opening | .block .. => s.tokens

def begin : State := ⟨[], .code [], false⟩

def scan (d : Dialect) (s : State) (text : List Char) : State := text.foldl (feed d) s

def lex (d : Dialect) (text : List Char) : List Token := finish (scan d begin text)

end SqlLexer
