import Rdst.Lib.Run
import Rdst.Safety.QueryGate

namespace Rdst.Safety

open Regex PyText SqlLexer Machine

section Lexical

/-- What is left after the quoted text that begins here, in which the quote is doubled. -/
def skipQuoted (quote : Char) : List Char → Option (List Char)
  | [] => none
  | c :: rest =>
    if c = quote then
      match rest with
      | d :: further => if d = quote then skipQuoted quote further else some rest
      | [] => some []
    else skipQuoted quote rest

def isTagLetter (c : Char) : Bool := c.isAlpha || c == '_'

/-- `re.match(r"\$[A-Za-z_]*\$", ...)` after its first dollar: the tag, and what follows its second. -/
def dollarTag (text : List Char) : Option (List Char × List Char) :=
  match text.dropWhile isTagLetter with
  | '$' :: rest => some (text.takeWhile isTagLetter, rest)
  | _ => none

/-- The text outside of comments, with a blank for each quoted text; none where one does not end. -/
def bareText : Nat → List Char → Option (List Char)
  | 0, _ => none
  | _ + 1, [] => some []
  | fuel + 1, c :: rest =>
    if ['-', '-'].isPrefixOf (c :: rest) = true then bareText fuel ((c :: rest).dropWhile fun x => x ≠ '\n')
    else if ['/', '*'].isPrefixOf (c :: rest) = true then (afterFirst ['*', '/'] rest.tail).bind (bareText fuel)
    else if c ∈ ['\'', '"', '\x60'] then
      (skipQuoted c rest).bind fun left => (bareText fuel left).map fun bare => ' ' :: bare
    else
      match if c = '$' then dollarTag rest else none with
      | some (tag, body) =>
        (afterFirst ('$' :: (tag ++ ['$'])) body).bind fun left => (bareText fuel left).map fun bare => ' ' :: bare
      | none => (bareText fuel rest).map fun bare => c :: bare

def identifier : Pattern Char := .seq (.char startsKeyword) (.star (.char inKeyword))

def changingKeywords : List String :=
  ["INSERT", "UPDATE", "DELETE", "MERGE", "CREATE", "ALTER", "DROP", "TRUNCATE", "GRANT", "COPY", "REPLACE", "INTO"]

def lockingRead (tables : Tables) : Pattern Char :=
  choice
    [sequence [wordEdge tables, anyCase "FOR", someSpaces,
        choice [sequence [anyCase "NO", someSpaces, anyCase "KEY", someSpaces, anyCase "UPDATE"], anyCase "UPDATE",
          sequence [anyCase "KEY", someSpaces, anyCase "SHARE"], anyCase "SHARE"], wordEdge tables],
      sequence [wordEdge tables, anyCase "LOCK", someSpaces, anyCase "IN", someSpaces, anyCase "SHARE", someSpaces,
        anyCase "MODE", wordEdge tables]]

def stripBreaks (text : List Char) : List Char := (text.reverse.dropWhile fun c => c = ';').reverse

/-- `_lexical_read_only_select`. -/
def lexicalReadOnlySelect (tables : Tables) (sql : List Char) : Option Bool :=
  match bareText (sql.length + 1) sql with
  | none => none
  | some bare =>
    let visible := strip bare
    if ';' ∈ strip (stripBreaks visible) then some false
    else
      let words := findall identifier (upper tables visible)
      match words with
      | [] => none
      | first :: _ =>
        if first ∉ texts ["SELECT", "WITH"] then some false
        else if words.any (fun word => word ∈ texts changingKeywords) then some false
        else some !(search (lockingRead tables) visible).isSome

end Lexical

/-- One statement that begins with SELECT or WITH, changes nothing and locks no rows. -/
structure PlainSelect (tokens : List Token) : Prop where
  single : SingleStatement tokens
  starts : ∃ keyword ∈ texts ["SELECT", "WITH"], tokens.head? = some (.word keyword)
  no_changes : ∀ keyword ∈ texts changingKeywords, .word keyword ∉ tokens
  no_locks : ∀ clause ∈ ["FOR UPDATE", "FOR NO KEY UPDATE", "FOR SHARE", "FOR KEY SHARE"], ¬ phrase clause <:+: tokens

end Rdst.Safety
