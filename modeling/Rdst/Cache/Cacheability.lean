import Mathlib.Data.List.TakeWhile
import Rdst.Lib.SqlPieces
import Rdst.Library.Selectors
import Rdst.Safety.QueryGate

namespace Rdst.Cache

open Regex PyText SqlLexer
open Library.Listing (maskStringLiterals pgParam)

def uncacheablePatterns : List (String × String) :=
  [("NOW", "Uses non-deterministic NOW() function"),
    ("CURRENT_TIMESTAMP", "Uses non-deterministic CURRENT_TIMESTAMP function"),
    ("CURRENT_DATE", "Uses non-deterministic CURRENT_DATE function"),
    ("CURRENT_TIME", "Uses non-deterministic CURRENT_TIME function"),
    ("RAND", "Uses non-deterministic RAND() function"),
    ("RANDOM", "Uses non-deterministic RANDOM() function"),
    ("UUID", "Uses non-deterministic UUID() function"),
    ("FOR UPDATE", "Contains FOR UPDATE locking clause"),
    ("LOCK IN SHARE MODE", "Contains LOCK IN SHARE MODE clause"),
    ("TEMPORARY", "Uses temporary tables"),
    ("SESSION", "Uses session-specific variables or tables"),
    ("CALL ", "Calls stored procedures"),
    ("OVER (", "May contain unsupported window functions")]

def warningPatterns : List (String × String) :=
  [("UNION", "UNION queries may have limited support"),
    ("RECURSIVE", "Recursive CTEs may not be supported"),
    ("JSON_", "JSON functions may have limited support"),
    ("LATERAL", "LATERAL joins may not be supported")]

/-- The two kinds of comments are cut out one after the other, whatever they stand in. -/
def normalizeForAnalysis (tables : Tables) (query : List Char) : List Char :=
  upper tables (strip (sub someSpaces (fun _ => [' '])
    (sub Safety.blockComment (fun _ => []) (sub Safety.lineComment (fun _ => []) query))))

def contains (text : List Char) (pattern : String) : Bool := decide (pattern.toList <:+: text)

def isSelectQuery (normalized : List Char) : Bool :=
  "SELECT".toList.isPrefixOf normalized || "WITH".toList.isPrefixOf normalized

/-- The reasons of the patterns that the text contains: `_find_blocking_issues` and `_find_warnings`. -/
def findPatterns (patterns : List (String × String)) (normalized : List Char) : List String :=
  (patterns.filter fun entry => contains normalized entry.1).map Prod.snd

def findBlockingIssues (normalized : List Char) : List String := findPatterns uncacheablePatterns normalized

def findWarnings (normalized : List Char) : List String := findPatterns warningPatterns normalized

/-- `str.count`. -/
def count (word : String) (normalized : List Char) : Nat := (findall (text word) normalized).length

def determineConfidence (issues warnings : List String) (normalized : List Char) : String :=
  if 0 < issues.length then "high"
  else if 2 < warnings.length then "low"
  else if 0 < warnings.length then "medium"
  else
    let complexityScore := (if 3 < count " JOIN " normalized then 1 else 0) +
      (if 2 < count "(SELECT" normalized then 1 else 0) +
      if (contains normalized "GROUP BY" && contains normalized "HAVING") = true then 1 else 0
    if 1 < complexityScore then "medium" else "high"

def hasParameters (tables : Tables) (query : List Char) : Bool :=
  let scanned := maskStringLiterals tables query
  (search (pgParam tables) scanned).isSome || (search (text "?") scanned).isSome ||
    (search (.seq (text ":") (plus (.char (isWord tables)))) scanned).isSome

def generateCreateCacheCommand (query : List Char) (confidence : String) : List Char :=
  let clean := strip query
  let body := if clean.getLast? = some ';' then clean.dropLast else clean
  let command := "CREATE CACHE CONCURRENTLY FROM ".toList ++ body ++ [';']
  if confidence = "medium" then "-- Medium confidence - test before production use\n".toList ++ command
  else if confidence = "low" then "-- Low confidence - verify with EXPLAIN CREATE CACHE first\n".toList ++ command
  else command

structure CacheOptions where
  useAlways : Bool
  useConcurrently : Bool
  cacheType : Option String

/-- `frequency` is the `query_frequency` of the call, where it is a number. -/
def recommendCacheOptions (normalized : List Char) (frequency : Option Int) : CacheOptions where
  useAlways := !contains normalized "GROUP BY" && !contains normalized "JOIN" && decide (100 < frequency.getD 0)
  useConcurrently := true
  cacheType := if (contains normalized "GROUP BY" || contains normalized "AGGREGATE") = true then some "DEEP" else none

def bullets (title : String) (items : List String) : String :=
  if items = [] then ""
  else "\n\n" ++ title ++ " (" ++ toString items.length ++ "):" ++ String.join (items.map fun item => "\n  • " ++ item)

def generateExplanation (isCacheable : Bool) (issues warnings : List String) (confidence : String) : String :=
  if isCacheable = true then
    "✓ This query appears cacheable by Readyset (confidence: " ++ confidence ++ ")." ++
      if warnings = [] then "\n\nNo compatibility issues detected. You can create a cache using the provided command."
      else bullets "Warnings" warnings ++ "\n\nConsider testing with EXPLAIN CREATE CACHE before production use."
  else
    "✗ This query is NOT cacheable by Readyset." ++ bullets "Blocking issues" issues ++
      bullets "Additional concerns" warnings ++
      "\n\nConsider rewriting the query to avoid these patterns, or use traditional database optimization techniques."

structure CacheabilityReport where
  cacheable : Bool
  confidence : String
  issues : List String
  warnings : List String
  createCacheCommand : Option (List Char)
  explanation : String
  parameterized : Option Bool
  options : Option CacheOptions

def refused (issue explanation : String) : CacheabilityReport :=
  ⟨false, "high", [issue], [], none, explanation, none, none⟩

variable (tables : Tables)

def checkReadysetCacheability (query : List Char) (frequency : Option Int) : CacheabilityReport :=
  if strip query = [] then refused "Empty query provided" "Cannot analyze cacheability of an empty query"
  else
    let normalized := normalizeForAnalysis tables query
    if isSelectQuery normalized = false then
      refused "Only SELECT queries can be cached by Readyset"
        ("Readyset can only cache SELECT queries. " ++
          "INSERT, UPDATE, DELETE, and DDL statements cannot be cached.")
    else
      let issues := findBlockingIssues normalized
      let warnings := findWarnings normalized
      let cacheable := decide (issues.length = 0)
      let confidence := determineConfidence issues warnings normalized
      { cacheable := cacheable
        confidence := confidence
        issues := issues
        warnings := warnings
        createCacheCommand :=
          if cacheable = true ∨ confidence ∈ ["medium", "low"] then some (generateCreateCacheCommand query confidence)
          else none
        explanation := generateExplanation cacheable issues warnings confidence
        parameterized := some (hasParameters tables query)
        options := some (recommendCacheOptions normalized frequency) }

section Reading

/-- A pattern as the tokens of which it is the text. -/
def clause (pattern : String) : List Token := lex .postgres pattern.toList

def listedWords : List (List Char) :=
  uncacheablePatterns.flatMap fun entry => (clause entry.1).filterMap fun
    | .word w => some w
    | _ => none

/-- What the patterns can see of a token: a listed word, a symbol, or that there is another word or a quoted piece. -/
def outline (spelling : List Char → List Char) : Token → Token
  | .word w => .word (if spelling w ∈ listedWords then spelling w else [])
  | .quoted mark _ => .quoted mark []
  | .symbol c => .symbol c

/-- The tokens of a statement, with the listed words in any case. -/
def statementTokens (d : Dialect) (query : List Char) : List Token :=
  (lex d query).map (outline fun w => w.map Char.toUpper)

/-- The tokens of a normalised text, with the listed words as the patterns spell them. -/
def normalizedTokens (d : Dialect) (normalized : List Char) : List Token := (lex d normalized).map (outline id)

/-- The issues whose function, clause or keyword stands among the tokens. -/
def tokenIssues (tokens : List Token) : List String :=
  (uncacheablePatterns.filter fun entry => decide (clause entry.1 <:+: tokens)).map Prod.snd

/-- No listed word stands in the text just as a part of something else. -/
def NoPart (d : Dialect) (normalized : List Char) : Prop :=
  ∀ entry ∈ uncacheablePatterns, contains normalized entry.1 = true → clause entry.1 <:+: normalizedTokens d normalized

instance (d : Dialect) (normalized : List Char) : Decidable (NoPart d normalized) :=
  inferInstanceAs (Decidable (∀ entry ∈ _, _ → _))

/-- A listed clause that is read stands in the text with one blank at each gap. -/
def Spelled (d : Dialect) (normalized : List Char) : Prop :=
  ∀ entry ∈ uncacheablePatterns, ' ' ∈ entry.1.toList → clause entry.1 <:+: normalizedTokens d normalized →
    contains normalized entry.1 = true

instance (d : Dialect) (normalized : List Char) : Decidable (Spelled d normalized) :=
  inferInstanceAs (Decidable (∀ entry ∈ _, _ → _ → _))

end Reading

section Agreement

variable {tables} {d : Dialect} {query normalized : List Char}

/-- Which entries were chosen shows in their reasons. -/
theorem filter_reasons {entries : List (String × String)} (distinct : (entries.map Prod.snd).Nodup)
    {p q : String × String → Bool} (same : (entries.filter p).map Prod.snd = (entries.filter q).map Prod.snd) : ∀ entry ∈ entries, p entry = q entry := by
  intro entry listed
  have chosen : ∀ r : String × String → Bool, r entry = true ↔ entry.2 ∈ (entries.filter r).map Prod.snd := by
    intro r
    rw [List.mem_map]
    constructor
    · intro holds
      exact ⟨entry, List.mem_filter.mpr ⟨listed, holds⟩, rfl⟩
    · rintro ⟨other, inside, reason⟩
      obtain ⟨member, holds⟩ := List.mem_filter.mp inside
      exact List.inj_on_of_nodup_map distinct member listed reason ▸ holds
  rw [Bool.eq_iff_iff, chosen p, chosen q, same]

theorem clause_one : ∀ entry ∈ uncacheablePatterns, ' ' ∉ entry.1.toList →
    entry.1.toList ≠ [] ∧ clause entry.1 = [.word entry.1.toList] := by
  decide +kernel

/-- A word by itself is read only where it stands. -/
theorem word_spelled {entry : String × String} (listed : entry ∈ uncacheablePatterns) (one : ' ' ∉ entry.1.toList)
    (read : clause entry.1 <:+: normalizedTokens d normalized) : contains normalized entry.1 = true := by
  obtain ⟨some_, shape⟩ := clause_one entry listed one
  have member : Token.word entry.1.toList ∈ normalizedTokens d normalized := by
    rw [shape] at read
    exact read.subset List.mem_cons_self
  obtain ⟨token, inside, drawn⟩ := List.mem_map.mp member
  cases token with
  | word w =>
    simp only [outline, id, Token.word.injEq] at drawn
    split at drawn
    · rw [contains, decide_eq_true_eq, ← drawn]
      exact word_infix inside
    · exact absurd drawn.symm some_
  | quoted mark body => cases drawn
  | symbol c => cases drawn

theorem found_iff (same : normalizedTokens d normalized = statementTokens d query) :
    findBlockingIssues normalized = tokenIssues (statementTokens d query) ↔ NoPart d normalized ∧ Spelled d normalized := by
  have distinct : (uncacheablePatterns.map Prod.snd).Nodup := by decide +kernel
  have each : findBlockingIssues normalized = tokenIssues (statementTokens d query) ↔
      ∀ entry ∈ uncacheablePatterns,
        contains normalized entry.1 = decide (clause entry.1 <:+: normalizedTokens d normalized) := by
    rw [findBlockingIssues, findPatterns, tokenIssues, ← same]
    constructor
    · exact filter_reasons distinct
    · intro agree
      rw [List.filter_congr agree]
  rw [each]
  constructor
  · intro agree
    refine ⟨fun entry listed found => ?_, fun entry listed _ read => ?_⟩
    · rw [agree entry listed] at found
      exact of_decide_eq_true found
    · rw [agree entry listed]
      exact decide_eq_true read
  · rintro ⟨noPart, spelled⟩ entry listed
    rw [Bool.eq_iff_iff, decide_eq_true_eq]
    constructor
    · exact noPart entry listed
    · intro read
      by_cases gap : ' ' ∈ entry.1.toList
      · exact spelled entry listed gap read
      · exact word_spelled listed gap read

/-- What the tokens say is never one of the refusals of the check. -/
theorem tokenIssues_listed {tokens : List Token} {issue : String} (other : issue ∉ uncacheablePatterns.map Prod.snd) :
    [issue] ≠ tokenIssues tokens := by
  intro same
  have inside : issue ∈ tokenIssues tokens := same ▸ List.mem_cons_self
  obtain ⟨entry, chosen, reason⟩ := List.mem_map.mp inside
  exact other (List.mem_map.mpr ⟨entry, (List.mem_filter.mp chosen).1, reason⟩)

theorem strip_blank (text : List Char) : strip text = [] ↔ ∀ c ∈ text, isSpace c = true := by
  constructor
  · intro blank c inside
    rw [strip, rstrip, List.reverse_eq_nil_iff, List.dropWhile_eq_nil_iff] at blank
    by_contra solid
    have left : c ∈ text.dropWhile isSpace := by
      have whole := List.takeWhile_append_dropWhile (p := isSpace) (l := text)
      rw [← whole] at inside
      rcases List.mem_append.mp inside with front | rest
      · exact absurd (List.mem_takeWhile_imp front) solid
      · exact rest
    exact solid (blank c (List.mem_reverse.mpr left))
  · intro all
    rw [strip, List.dropWhile_eq_nil_iff.mpr all]
    rfl

/-- Of a blank text nothing is left. -/
theorem normalize_blank (blank : strip query = []) : isSelectQuery (normalizeForAnalysis tables query) = false := by
  have cut : ∀ {p : Pattern Char} {text : List Char}, (∀ c ∈ text, isSpace c = true) →
      ∀ c ∈ sub p (fun _ => []) text, isSpace c = true :=
    fun all => mem_sub (fun _ x none_ => absurd none_ List.not_mem_nil) all
  have spaced : ∀ w : List Char, ∀ c ∈ (fun _ => [' ']) w, isSpace c = true := by
    intro w c inside
    rw [List.mem_singleton.mp inside]
    rfl
  have all := (strip_blank query).mp blank
  have nothing := (strip_blank _).mpr (@mem_sub _ someSpaces _ _ spaced _ (@cut Safety.blockComment _ (@cut Safety.lineComment _ all)))
  rw [normalizeForAnalysis, nothing]
  rfl

end Agreement

end Rdst.Cache
