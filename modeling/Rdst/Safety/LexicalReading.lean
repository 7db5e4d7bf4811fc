import Rdst.Lib.SqlPlain
import Rdst.Safety.LexicalSelect

namespace Rdst.Safety

open Regex PyText SqlLexer Machine

section Reader

/-- PostgreSQL's reading of a text, with whether the last character outside of comments belongs to a name. -/
structure Reader where
  state : State
  beside : Bool
deriving DecidableEq

def besideAfter (r : Reader) (mode : Mode) : Bool :=
  match mode, r.state.mode with
  | .code (_ :: _), _ => true
  | .code [], .block .. => r.beside
  | .slash, .code run => run ≠ [] || r.beside
  | .slash, .tag name => name ≠ []
  | .block .., _ => r.beside
  | _, _ => false

def Reader.read (r : Reader) (c : Char) : Reader :=
  ⟨feed .postgres r.state c, besideAfter r (feed .postgres r.state c).mode⟩

/-- The character is one that the scan takes as PostgreSQL does: no name that only comments part from one before them, no
escaped quote, no comment in a comment, no carriage return that ends a comment, and no tag with a digit in it. -/
def Alike (r : Reader) (c : Char) : Prop :=
  match r.state.mode with
  | .code run => ¬ (run = [] ∧ r.beside = true ∧ inName c = true)
  | .escaped mark _ => c ≠ mark
  | .block _ last => ¬ (last = some '/' ∧ c = '*')
  | .line => c ≠ '\r'
  | .tag name => c = '$' → ∀ x ∈ name, isTagLetter x = true
  | _ => True

instance : DecidableRel Alike := fun r c => by
  unfold Alike
  letI (name : List Char) : Decidable (∀ x ∈ name, isTagLetter x = true) := List.decidableBAll _ name
  split <;> infer_instance

/-- Whether a text that the scan takes for a dollar quote begins in it. -/
def hasTag : List Char → Bool
  | [] => false
  | c :: rest => (c = '$' && (dollarTag rest).isSome) || hasTag rest

/-- No token is one that the scan takes for a quote. -/
def NoQuotes (tokens : List Token) : Prop :=
  ∀ token ∈ tokens, match token with
    | .word w => hasTag w = false
    | .symbol c => c ≠ '\x60'
    | .quoted .. => True

/-- The tokens outside of literals and quoted identifiers. -/
def unquoted (tokens : List Token) : List Token :=
  tokens.filter fun token => match token with
    | .quoted .. => false
    | _ => true

def codeAt (tokens : List Token) (run : List Char) (beside : Bool) : Reader := ⟨⟨tokens, .code run, false⟩, beside⟩

def readAll (r : Reader) (text : List Char) : Reader := text.foldl Reader.read r

/-- What PostgreSQL reads of a text from here to its end. -/
def tokensFrom (r : Reader) (text : List Char) : List Token := finish (readAll r text).state

theorem readAll_state (r : Reader) (text : List Char) : (readAll r text).state = scan .postgres r.state text := by
  induction text generalizing r with
  | nil => rfl
  | cons c rest ih => exact ih (r.read c)

theorem tokensFrom_append (r : Reader) (front rest : List Char) :
    tokensFrom r (front ++ rest) = tokensFrom (readAll r front) rest := by
  rw [tokensFrom, readAll, List.foldl_append]
  rfl

theorem extends_tokensFrom (r : Reader) (text : List Char) : r.state.tokens <+: tokensFrom r text := by
  rw [tokensFrom, readAll_state]
  exact (scan_extends r.state text).trans (finish_extends _)

theorem unquoted_append (first second : List Token) : unquoted (first ++ second) = unquoted first ++ unquoted second :=
  List.filter_append ..

/-- A reader that waits for what follows goes on like one that has read what it waits for. -/
theorem settle {p q : Reader} (text : List Char) (ends : finish p.state = finish q.state)
    (goes : ∀ c ∈ text.head?, p.read c = q.read c ∧ (Alike p c → Alike q c)) :
    tokensFrom p text = tokensFrom q text ∧ (EveryTurn Reader.read Alike p text → EveryTurn Reader.read Alike q text) := by
  cases text with
  | nil => exact ⟨ends, id⟩
  | cons c rest =>
    obtain ⟨same, alike⟩ := goes c rfl
    constructor
    · show finish (readAll (p.read c) rest).state = finish (readAll (q.read c) rest).state
      rw [same]
    · intro every
      exact ⟨alike every.1, same ▸ every.2⟩

theorem besideAfter_calm {r : Reader} (calm : r.beside = false) (settled : ∀ run, r.state.mode = .code run → run = [])
    (untagged : ∀ name, r.state.mode ≠ .tag name) (mode : Mode) : besideAfter r mode = match mode with
      | .code (_ :: _) => true
      | _ => false := by
  cases mode with
  | code run =>
    cases run with
    | nil => cases before : r.state.mode <;> simp [besideAfter, before, calm]
    | cons c run => rfl
  | slash =>
    cases before : r.state.mode with
    | code run => simp [besideAfter, before, calm, settled run before]
    | tag name => exact absurd before (untagged name)
    | _ => simp [besideAfter, before]
  | block depth last => simp [besideAfter, calm]
  | _ => rfl

theorem feedCode_mode (tokens : List Token) (first second : Mode) (run : List Char) (c : Char) :
    feedCode .postgres ⟨tokens, first, false⟩ run c = feedCode .postgres ⟨tokens, second, false⟩ run c := by
  by_cases empty : run = []
  · simp [feedCode, State.closeRun, State.enter, State.emit, empty]
  · simp [feedCode, State.closeRun, State.enter, State.emit, empty]

end Reader

section Regions

variable {tokens : List Token} {text rest : List Char}

theorem closeRun_word (tokens : List Token) (mode : Mode) (run : List Char) :
    State.closeRun ⟨tokens, mode, false⟩ run = ⟨tokens ++ word run, mode, false⟩ := by
  by_cases empty : run = []
  · simp [State.closeRun, word, empty]
  · simp [State.closeRun, State.emit, word, empty]

/-- A comment from two dashes on is read to the end of its line. -/
theorem line_reads {beside : Bool} (every : EveryTurn Reader.read Alike ⟨⟨tokens, .line, false⟩, beside⟩ text) :
    tokensFrom ⟨⟨tokens, .line, false⟩, beside⟩ text =
        tokensFrom (codeAt tokens [] false) (text.dropWhile fun c => c ≠ '\n') ∧
      EveryTurn Reader.read Alike (codeAt tokens [] false) (text.dropWhile fun c => c ≠ '\n') := by
  induction text generalizing beside with
  | nil => exact ⟨rfl, True.intro⟩
  | cons c rest ih =>
    by_cases newline : c = '\n'
    · subst newline
      have settled := settle (p := ⟨⟨tokens, .line, false⟩, beside⟩) (q := codeAt tokens [] false) ('\n' :: rest) rfl (by
          rintro c ⟨⟩
          exact ⟨rfl, fun _ => by simp [Alike, codeAt]⟩)
      exact ⟨settled.1, settled.2 every⟩
    · have stays : Reader.read ⟨⟨tokens, .line, false⟩, beside⟩ c = ⟨⟨tokens, .line, false⟩, false⟩ := by
        have return_ : c ≠ '\r' := every.1
        simp [Reader.read, feed, endsLine, newline, return_, besideAfter]
      have later := every.2
      rw [stays] at later
      have read := ih later
      rw [List.dropWhile_cons_of_pos (by simpa using newline)]
      refine ⟨?_, read.2⟩
      rw [← read.1, ← stays]
      rfl

/-- A comment is read to its first end. -/
theorem block_reads {last : Option Char} {beside : Bool} (ends : afterFirst ['*', '/'] text = some rest)
    (every : EveryTurn Reader.read Alike ⟨⟨tokens, .block 1 last, false⟩, beside⟩ text)
    (opened : last = some '*' → text.head? ≠ some '/') :
    tokensFrom ⟨⟨tokens, .block 1 last, false⟩, beside⟩ text = tokensFrom (codeAt tokens [] beside) rest ∧
      EveryTurn Reader.read Alike (codeAt tokens [] beside) rest := by
  induction text generalizing last with
  | nil => cases ends
  | cons c text ih =>
    have open_ : ¬ (last = some '*' ∧ c = '/') := fun both => opened both.1 (by rw [both.2]; rfl)
    have flat : ¬ (last = some '/' ∧ c = '*') := every.1
    have stays : Reader.read ⟨⟨tokens, .block 1 last, false⟩, beside⟩ c =
        ⟨⟨tokens, .block 1 (some c), false⟩, beside⟩ := by
      simp only [Reader.read, feed, open_, flat, if_false, and_true, State.enter, besideAfter]
    have later := every.2
    rw [stays] at later
    have goes : tokensFrom ⟨⟨tokens, .block 1 last, false⟩, beside⟩ (c :: text) =
        tokensFrom ⟨⟨tokens, .block 1 (some c), false⟩, beside⟩ text := by
      rw [← stays]
      rfl
    rw [goes]
    rw [afterFirst] at ends
    split at ends
    · -- The end stands here.
      rename_i here
      cases text with
      | nil => simp at here
      | cons d text =>
        simp only [List.isPrefixOf_cons_cons, List.isPrefixOf_nil_left, Bool.and_true, Bool.and_eq_true, beq_iff_eq] at here
        obtain ⟨rfl, rfl⟩ := here
        cases ends
        have closed : Reader.read ⟨⟨tokens, .block 1 (some '*'), false⟩, beside⟩ '/' = codeAt tokens [] beside := by
          simp [Reader.read, feed, State.enter, besideAfter, codeAt]
        have after := later.2
        rw [closed] at after
        refine ⟨?_, after⟩
        rw [← closed]
        rfl
    · rename_i other
      apply ih ends later
      rintro ⟨⟩ slash
      cases text with
      | nil => cases slash
      | cons d text =>
        cases slash
        exact other rfl

theorem skipQuoted_other {quote c : Char} (other : c ≠ quote) (text : List Char) :
    skipQuoted quote (c :: text) = skipQuoted quote text := by
  rw [skipQuoted.eq_def]
  simp [other]

theorem skipQuoted_quote (quote : Char) (text : List Char) : skipQuoted quote (quote :: text) =
    match text with
    | d :: further => if d = quote then skipQuoted quote further else some text
    | [] => some [] := by
  rw [skipQuoted.eq_def]
  cases text <;> simp

/-- A quoted text is read to the quote that ends it. -/
theorem quote_reads {mark : Char} {mode : Mode} (ends : skipQuoted mark text = some rest)
    (inside : (∃ escapes body, mode = .quoted mark escapes body) ∨ ∃ body, mode = .escaped mark body)
    (every : EveryTurn Reader.read Alike ⟨⟨tokens, mode, false⟩, false⟩ text) :
    ∃ body, tokensFrom ⟨⟨tokens, mode, false⟩, false⟩ text =
        tokensFrom (codeAt (tokens ++ [.quoted mark body]) [] false) rest ∧
      EveryTurn Reader.read Alike (codeAt (tokens ++ [.quoted mark body]) [] false) rest := by
  induction hn : text.length using Nat.strongRecOn generalizing text mode with
  | ind n ih =>
    cases text with
    | nil => cases ends
    | cons c text =>
      have turn : tokensFrom ⟨⟨tokens, mode, false⟩, false⟩ (c :: text) =
          tokensFrom (Reader.read ⟨⟨tokens, mode, false⟩, false⟩ c) text := rfl
      have shorter : text.length < n := by
        rw [← hn]
        simp
      rcases inside with ⟨escapes, body, rfl⟩ | ⟨body, rfl⟩
      · by_cases closes : c = mark
        · subst closes
          have closing : Reader.read ⟨⟨tokens, .quoted c escapes body, false⟩, false⟩ c =
              ⟨⟨tokens, .closing c escapes body, false⟩, false⟩ := by
            simp [Reader.read, feed, State.enter, besideAfter]
          have later := every.2
          rw [closing] at later
          rw [turn, closing]
          rw [skipQuoted_quote] at ends
          cases text with
          | nil =>
            cases ends
            exact ⟨body.reverse, rfl, True.intro⟩
          | cons d text =>
            simp only at ends
            by_cases doubled : d = c
            · subst doubled
              rw [if_pos rfl] at ends
              have goes_on : Reader.read ⟨⟨tokens, .closing d escapes body, false⟩, false⟩ d =
                  ⟨⟨tokens, .quoted d escapes (d :: d :: body), false⟩, false⟩ := by
                simp [Reader.read, feed, State.enter, besideAfter]
              have after := later.2
              rw [goes_on] at after
              obtain ⟨body', read⟩ := ih text.length (by simp at shorter; omega) ends (.inl ⟨_, _, rfl⟩) after rfl
              refine ⟨body', ?_, read.2⟩
              rw [← read.1, ← goes_on]
              rfl
            · rw [if_neg doubled] at ends
              cases ends
              refine ⟨body.reverse, ?_⟩
              have settled := settle (p := ⟨⟨tokens, .closing c escapes body, false⟩, false⟩)
                (q := codeAt (tokens ++ [.quoted c body.reverse]) [] false) (d :: text) rfl (by
                  rintro x ⟨⟩
                  refine ⟨?_, fun _ => by simp [Alike, codeAt]⟩
                  have same := feedCode_mode (tokens ++ [.quoted c body.reverse]) (.closing c escapes body) (.code []) [] d
                  simp only [Reader.read, codeAt, feed, if_neg doubled, State.emit]
                  rw [same, besideAfter_calm rfl (by simp) (by simp), besideAfter_calm rfl (by simp) (by simp)])
              exact ⟨settled.1, settled.2 later⟩
        · rw [skipQuoted_other closes] at ends
          have next : ∃ mode', Reader.read ⟨⟨tokens, .quoted mark escapes body, false⟩, false⟩ c =
              ⟨⟨tokens, mode', false⟩, false⟩ ∧ ((∃ escapes body, mode' = .quoted mark escapes body) ∨
                ∃ body, mode' = .escaped mark body) := by
            by_cases escape : c = '\\' ∧ escapes = true
            · refine ⟨.escaped mark (c :: body), ?_, .inr ⟨_, rfl⟩⟩
              simp only [Reader.read, feed, if_neg closes, if_pos escape, State.enter, besideAfter]
            · refine ⟨.quoted mark escapes (c :: body), ?_, .inl ⟨_, _, rfl⟩⟩
              simp only [Reader.read, feed, if_neg closes, if_neg escape, State.enter, besideAfter]
          obtain ⟨mode', stays, inside'⟩ := next
          have later := every.2
          rw [stays] at later
          rw [turn, stays]
          exact ih text.length shorter ends inside' later rfl
      · have plain_ : c ≠ mark := every.1
        rw [skipQuoted_other plain_] at ends
        have stays : Reader.read ⟨⟨tokens, .escaped mark body, false⟩, false⟩ c =
            ⟨⟨tokens, .quoted mark true (c :: body), false⟩, false⟩ := by
          simp [Reader.read, feed, State.enter, besideAfter]
        have later := every.2
        rw [stays] at later
        rw [turn, stays]
        exact ih text.length shorter ends (.inl ⟨_, _, rfl⟩) later rfl

/-- A dollar-quoted text is read to the first occurrence of its tag. -/
theorem dollar_reads {name : List Char} (ends : afterFirst ('$' :: (name.reverse ++ ['$'])) text = some rest)
    (every : EveryTurn Reader.read Alike ⟨⟨tokens, .dollar name [], false⟩, false⟩ text) :
    ∃ body, tokensFrom ⟨⟨tokens, .dollar name [], false⟩, false⟩ text =
        tokensFrom (codeAt (tokens ++ [.quoted '$' body]) [] false) rest ∧
      EveryTurn Reader.read Alike (codeAt (tokens ++ [.quoted '$' body]) [] false) rest := by
  obtain ⟨front, split, first⟩ := afterFirst_spec (by simp) ends
  have goes : ∀ remaining passed, front ++ '$' :: (name.reverse ++ ['$']) = passed ++ remaining → remaining ≠ [] →
      EveryTurn Reader.read Alike ⟨⟨tokens, .dollar name passed.reverse, false⟩, false⟩ (remaining ++ rest) →
      ∃ body, tokensFrom ⟨⟨tokens, .dollar name passed.reverse, false⟩, false⟩ (remaining ++ rest) =
          tokensFrom (codeAt (tokens ++ [.quoted '$' body]) [] false) rest ∧
        EveryTurn Reader.read Alike (codeAt (tokens ++ [.quoted '$' body]) [] false) rest := by
    intro remaining
    induction remaining with
    | nil => exact fun _ _ none_ => absurd rfl none_
    | cons c remaining ih =>
      intro passed parts _ every
      have turn : tokensFrom ⟨⟨tokens, .dollar name passed.reverse, false⟩, false⟩ (c :: remaining ++ rest) =
          tokensFrom (Reader.read ⟨⟨tokens, .dollar name passed.reverse, false⟩, false⟩ c) (remaining ++ rest) := rfl
      rw [turn]
      have later := every.2
      by_cases last : remaining = []
      · subst last
        have whole : passed ++ [c] = front ++ '$' :: name.reverse ++ ['$'] := by simpa using parts.symm
        obtain ⟨same, dollar⟩ := List.append_inj' whole rfl
        cases dollar
        have closes : (name ++ ['$']).isPrefixOf passed.reverse = true := by
          rw [List.isPrefixOf_iff_prefix, same]
          exact ⟨front.reverse, by simp⟩
        have closed : Reader.read ⟨⟨tokens, .dollar name passed.reverse, false⟩, false⟩ '$' =
            codeAt (tokens ++ [.quoted '$' (passed.reverse.drop (name.length + 1)).reverse]) [] false := by
          simp [Reader.read, feed, closes, State.enter, State.emit, besideAfter, codeAt]
        rw [closed] at later ⊢
        exact ⟨_, rfl, later⟩
      · have open_ : ¬ (c = '$' ∧ (name ++ ['$']).isPrefixOf passed.reverse = true) := by
          rintro ⟨rfl, tagged⟩
          obtain ⟨tail, shape⟩ := List.isPrefixOf_iff_prefix.mp tagged
          apply first (passed ++ ['$']) remaining (by rw [parts]; simp) last
          have reversed := congrArg List.reverse shape
          simp only [List.reverse_append, List.reverse_reverse, List.reverse_singleton] at reversed
          exact ⟨tail.reverse, by rw [← reversed]; simp⟩
        have stays : Reader.read ⟨⟨tokens, .dollar name passed.reverse, false⟩, false⟩ c =
            ⟨⟨tokens, .dollar name (passed ++ [c]).reverse, false⟩, false⟩ := by
          simp only [Reader.read, feed, if_neg open_, State.enter, besideAfter, List.reverse_append,
            List.reverse_singleton, List.singleton_append]
        have next := later
        change EveryTurn Reader.read Alike (Reader.read _ c) (remaining ++ rest) at next
        rw [stays] at next ⊢
        exact ih (passed ++ [c]) (by rw [parts]; simp) last next
  subst split
  have read := goes (front ++ '$' :: (name.reverse ++ ['$'])) [] rfl (by simp) (by simpa using every)
  simpa using read

theorem tag_reads (letters name : List Char) (tagged : ∀ c ∈ letters, isTagLetter c = true) :
    readAll ⟨⟨tokens, .tag name, false⟩, false⟩ letters = ⟨⟨tokens, .tag (letters.reverse ++ name), false⟩, false⟩ := by
  induction letters generalizing name with
  | nil => rfl
  | cons c letters ih =>
    have letter := tagged c List.mem_cons_self
    have starts : startsName c = true := by
      simp only [isTagLetter, Bool.or_eq_true] at letter
      simp only [startsName, Bool.or_eq_true]
      exact .inl letter
    have other : c ≠ '$' := by
      rintro rfl
      exact absurd letter (by decide)
    have stays : Reader.read ⟨⟨tokens, .tag name, false⟩, false⟩ c = ⟨⟨tokens, .tag (c :: name), false⟩, false⟩ := by
      simp [Reader.read, feed, other, starts, State.enter, besideAfter]
    show readAll (Reader.read _ c) letters = _
    rw [stays, ih (c :: name) fun x member => tagged x (List.mem_cons_of_mem _ member)]
    simp

end Regions

section Code

variable {tokens : List Token} {run : List Char} {c : Char}

theorem feedCode_joins (mode : Mode) (joined : joins run c = true) :
    feedCode .postgres ⟨tokens, mode, false⟩ run c = ⟨tokens, .code (c :: run), false⟩ := by
  have inside : (inName c && (c != '$' || decide (Dialect.postgres = .mysql) || decide (run ≠ []))) = true := by
    simpa [joins] using joined
  rw [feedCode, if_pos inside]
  rfl

/-- Where no name goes on, the run is a word. -/
theorem feedCode_apart (tokens : List Token) (mode : Mode) (apart : joins run c = false) :
    feedCode .postgres ⟨tokens, mode, false⟩ run c = feedCode .postgres ⟨tokens ++ word run, mode, false⟩ [] c ∨
      (c = '\'' ∧ (run = ['e'] ∨ run = ['E']) ∧
        feedCode .postgres ⟨tokens, mode, false⟩ run c = ⟨tokens ++ word run, .quoted '\'' true [], false⟩) := by
  have outside : ∀ run, joins run c = false →
      (inName c && (c != '$' || decide (Dialect.postgres = .mysql) || decide (run ≠ []))) = false := by
    intro run apart
    simpa [joins] using apart
  by_cases escapes : c = '\'' ∧ (run = ['e'] ∨ run = ['E'])
  · right
    obtain ⟨rfl, escape⟩ := escapes
    refine ⟨rfl, escape, ?_⟩
    rcases escape with rfl | rfl <;> rfl
  · left
    rw [feedCode, feedCode, outside run apart, outside [] (joins_fewer apart), closeRun_word, closeRun_word]
    simp only [word, if_true, List.append_nil]
    by_cases quote : c = '\''
    · have plain_ : run ≠ ['e'] ∧ run ≠ ['E'] := ⟨fun e => escapes ⟨quote, .inl e⟩, fun e => escapes ⟨quote, .inr e⟩⟩
      simp [quote, plain_.1, plain_.2]
    · simp [quote]

theorem feedCode_mark (mode : Mode) (apart : joins [] c = false) (special : c ∉ ['\'', '"', '-', '/', '$']) :
    feedCode .postgres ⟨tokens, mode, false⟩ [] c = ⟨tokens ++ mark c, .code [], false⟩ := by
  have outside : (inName c && (c != '$' || decide (Dialect.postgres = .mysql) || decide (([] : List Char) ≠ []))) = false := by
    simpa [joins] using apart
  simp only [List.mem_cons, List.not_mem_nil, or_false, not_or] at special
  obtain ⟨quote, double, dash, slash, dollar⟩ := special
  rw [feedCode, outside, closeRun_word]
  cases blank : isBlank c <;>
    simp [quote, double, dash, slash, dollar, blank, mark, word, State.enter, State.emit]

theorem feedCode_not_block (tokens : List Token) (run : List Char) (c : Char) (mode : Mode) (depth : Nat) (last : Option Char) :
    (feedCode .postgres ⟨tokens, mode, false⟩ run c).mode ≠ .block depth last := by
  cases joined : joins run c with
  | true => simp [feedCode_joins mode joined]
  | false =>
    rcases feedCode_apart tokens mode joined with same | ⟨-, -, same⟩
    · rw [same]
      by_cases special : c ∈ ['\'', '"', '-', '/', '$']
      · simp only [List.mem_cons, List.not_mem_nil, or_false] at special
        rcases special with rfl | rfl | rfl | rfl | rfl <;> exact Mode.noConfusion
      · simp [feedCode_mark mode (joins_fewer joined) special]
    · simp [same]

/-- A run becomes the beginning of a word. -/
theorem run_word (tokens : List Token) {run : List Char} (beside : Bool) (some_ : run ≠ []) (text : List Char) :
    ∃ w, .word w ∈ tokensFrom (codeAt tokens run beside) text ∧ run.reverse <+: w := by
  induction text generalizing run beside with
  | nil => exact ⟨run.reverse, by simp [tokensFrom, readAll, codeAt, finish, closeRun_word, word, some_], List.prefix_refl _⟩
  | cons c rest ih =>
    have turn : tokensFrom (codeAt tokens run beside) (c :: rest) =
        tokensFrom ((codeAt tokens run beside).read c) rest := rfl
    cases joined : joins run c with
    | true =>
      have stays : (codeAt tokens run beside).read c = codeAt tokens (c :: run) true := by
        simp [Reader.read, codeAt, feed, feedCode_joins _ joined, besideAfter]
      rw [turn, stays]
      obtain ⟨w, member, begins⟩ := ih true (List.cons_ne_nil c run)
      refine ⟨w, member, List.IsPrefix.trans ?_ begins⟩
      simp
    | false =>
      have closed : tokens ++ word run <+: ((codeAt tokens run beside).read c).state.tokens := by
        show _ <+: (feedCode .postgres ⟨tokens, .code run, false⟩ run c).tokens
        rcases feedCode_apart tokens (.code run) joined with same | ⟨-, -, same⟩
        · rw [same]
          exact feedCode_extends (d := .postgres) ⟨tokens ++ word run, .code run, false⟩ [] c
        · exact ⟨[], by simp [same]⟩
      have all := closed.trans (extends_tokensFrom _ rest)
      refine ⟨run.reverse, turn ▸ all.subset ?_, List.prefix_refl _⟩
      simp [word, some_]

theorem hasTag_append (front : List Char) {tag back : List Char} (tagged : ∀ c ∈ tag, isTagLetter c = true) :
    hasTag (front ++ '$' :: (tag ++ '$' :: back)) = true := by
  induction front with
  | nil =>
    have found : (dollarTag (tag ++ '$' :: back)).isSome = true := by
      have dropped : (tag ++ '$' :: back).dropWhile isTagLetter = '$' :: back := by
        rw [List.dropWhile_append_of_pos tagged]
        rfl
      simp [dollarTag, dropped]
    simp [hasTag, found]
  | cons c front ih => simp [hasTag, ih]

/-- What a tag is: letters between two dollars. -/
theorem dollarTag_spec {text tag body : List Char} (found : dollarTag text = some (tag, body)) :
    text = tag ++ '$' :: body ∧ ∀ c ∈ tag, isTagLetter c = true := by
  rw [dollarTag] at found
  split at found
  · rename_i rest shape
    cases found
    refine ⟨?_, fun c member => List.all_eq_true.mp List.all_takeWhile c member⟩
    rw [← shape, List.takeWhile_append_dropWhile]
  · cases found

end Code

section Simulation

variable {tokens : List Token} {run text rest visible : List Char} {fuel : Nat} {beside : Bool} {c : Char}

/-- What the scan does at a character. -/
theorem bareText_cases (scanned : bareText (fuel + 1) (c :: rest) = some visible) :
    (∃ body, c = '-' ∧ rest = '-' :: body ∧ bareText fuel (body.dropWhile fun x => x ≠ '\n') = some visible) ∨
    (∃ body left, c = '/' ∧ rest = '*' :: body ∧ afterFirst ['*', '/'] body = some left ∧
      bareText fuel left = some visible) ∨
    (∃ left more, c ∈ ['\'', '"', '\x60'] ∧ skipQuoted c rest = some left ∧ bareText fuel left = some more ∧
      visible = ' ' :: more) ∨
    (∃ tag body left more, c = '$' ∧ dollarTag rest = some (tag, body) ∧
      afterFirst ('$' :: (tag ++ ['$'])) body = some left ∧ bareText fuel left = some more ∧ visible = ' ' :: more) ∨
    ∃ more, c ∉ ['\'', '"', '\x60'] ∧ (c = '-' → rest.head? ≠ some '-') ∧ (c = '/' → rest.head? ≠ some '*') ∧
      (c = '$' → dollarTag rest = none) ∧ bareText fuel rest = some more ∧ visible = c :: more := by
  rw [bareText] at scanned
  split at scanned
  · rename_i dashes
    cases rest with
    | nil => simp at dashes
    | cons d body =>
      simp only [List.isPrefixOf_cons_cons, List.isPrefixOf_nil_left, Bool.and_true, Bool.and_eq_true, beq_iff_eq] at dashes
      obtain ⟨rfl, rfl⟩ := dashes
      exact .inl ⟨body, rfl, rfl, by simpa using scanned⟩
  rename_i noDashes
  split at scanned
  · rename_i opens
    cases rest with
    | nil => simp at opens
    | cons d body =>
      simp only [List.isPrefixOf_cons_cons, List.isPrefixOf_nil_left, Bool.and_true, Bool.and_eq_true, beq_iff_eq] at opens
      obtain ⟨rfl, rfl⟩ := opens
      obtain ⟨left, ends, read⟩ := Option.bind_eq_some_iff.mp scanned
      exact .inr (.inl ⟨body, left, rfl, rfl, ends, read⟩)
  rename_i noComment
  split at scanned
  · rename_i quote
    obtain ⟨left, ends, read⟩ := Option.bind_eq_some_iff.mp scanned
    obtain ⟨more, bare, same⟩ := Option.map_eq_some_iff.mp read
    exact .inr (.inr (.inl ⟨left, more, quote, ends, bare, same.symm⟩))
  rename_i unquoted
  split at scanned
  · rename_i tag body tagged
    have dollar : c = '$' := by
      by_contra other
      rw [if_neg other] at tagged
      cases tagged
    rw [if_pos dollar] at tagged
    obtain ⟨left, ends, read⟩ := Option.bind_eq_some_iff.mp scanned
    obtain ⟨more, bare, same⟩ := Option.map_eq_some_iff.mp read
    exact .inr (.inr (.inr (.inl ⟨tag, body, left, more, dollar, tagged, ends, bare, same.symm⟩)))
  · rename_i untagged
    obtain ⟨more, bare, same⟩ := Option.map_eq_some_iff.mp scanned
    refine .inr (.inr (.inr (.inr ⟨more, unquoted, ?_, ?_, ?_, bare, same.symm⟩)))
    · rintro rfl first
      cases rest with
      | nil => cases first
      | cons d rest =>
        cases first
        exact noDashes rfl
    · rintro rfl first
      cases rest with
      | nil => cases first
      | cons d rest =>
        cases first
        exact noComment rfl
    · rintro rfl
      exact untagged

theorem bareText_line (scanned : bareText fuel (text.dropWhile fun x => x ≠ '\n') = some visible) :
    ∀ c ∈ visible.head?, inName c = false := by
  cases fuel with
  | zero => cases scanned
  | succ fuel =>
    cases shape : text.dropWhile fun x => x ≠ '\n' with
    | nil =>
      rw [shape] at scanned
      cases scanned
      simp
    | cons c rest =>
      have newline : c = '\n' := by
        have stops := List.head?_dropWhile_not (fun x : Char => decide (x ≠ '\n')) text
        rw [shape] at stops
        simpa using stops
      subst newline
      rw [shape] at scanned
      rcases bareText_cases scanned with ⟨_, dash, -⟩ | ⟨_, _, slash, -⟩ | ⟨_, _, quote, -⟩ | ⟨_, _, _, _, dollar, -⟩ |
        ⟨more, -, -, -, -, -, rfl⟩
      · exact absurd dash (by decide)
      · exact absurd slash (by decide)
      · exact absurd quote (by decide)
      · exact absurd dollar (by decide)
      · rintro c ⟨⟩
        decide

/-- After a comment that stands at the end of a name goes no name on. -/
theorem bareText_apart (scanned : bareText fuel text = some visible)
    (every : EveryTurn Reader.read Alike (codeAt tokens [] true) text) : ∀ c ∈ visible.head?, inName c = false := by
  induction fuel generalizing text visible with
  | zero => cases scanned
  | succ fuel ih =>
    cases text with
    | nil =>
      cases scanned
      simp
    | cons c rest =>
      rcases bareText_cases scanned with ⟨body, -, -, read⟩ | ⟨body, left, rfl, rfl, ends, read⟩ | ⟨_, _, -, -, -, rfl⟩ |
        ⟨_, _, _, _, -, -, -, -, rfl⟩ | ⟨more, -, -, -, -, -, rfl⟩
      · exact bareText_line read
      · have opened : (codeAt tokens [] true).read '/' = ⟨⟨tokens, .slash, false⟩, true⟩ := rfl
        have inside : Reader.read ⟨⟨tokens, .slash, false⟩, true⟩ '*' = ⟨⟨tokens, .block 1 none, false⟩, true⟩ := rfl
        have later := every.2.2
        rw [opened, inside] at later
        exact ih read (block_reads ends later nofun).2
      · rintro c ⟨⟩
        decide
      · rintro c ⟨⟩
        decide
      · rintro x ⟨⟩
        have outside : ¬ (([] : List Char) = [] ∧ true = true ∧ inName c = true) := every.1
        simpa using outside

theorem unquoted_word (run : List Char) : unquoted (word run) = word run := by
  by_cases empty : run = [] <;> simp [word, empty, unquoted]

theorem unquoted_mark (c : Char) : unquoted (mark c) = mark c := by
  cases blank : isBlank c <;> simp [mark, blank, unquoted]

/-- From here on the scan keeps what PostgreSQL reads outside of quotes. -/
def Keeps (fuel : Nat) : Prop :=
  ∀ text visible tokens run beside, bareText fuel text = some visible →
    EveryTurn Reader.read Alike (codeAt tokens run beside) text → NoQuotes (tokensFrom (codeAt tokens run beside) text) →
      unquoted (tokensFrom (codeAt tokens run beside) text) = unquoted tokens ++ plain run visible

/-- A dollar with which no quote begins is a symbol. -/
theorem tag_keeps (keeps : ∀ less ≤ fuel, Keeps less) {name : List Char} (scanned : bareText fuel text = some visible)
    (every : EveryTurn Reader.read Alike ⟨⟨tokens, .tag name, false⟩, false⟩ text)
    (untagged : dollarTag (name.reverse ++ text) = none)
    (clean : NoQuotes (tokensFrom ⟨⟨tokens, .tag name, false⟩, false⟩ text)) :
    unquoted (tokensFrom ⟨⟨tokens, .tag name, false⟩, false⟩ text) =
      unquoted tokens ++ .symbol '$' :: plain name visible := by
  induction text generalizing fuel name visible with
  | nil =>
    cases fuel with
    | zero => cases scanned
    | succ fuel =>
      cases scanned
      have ends : tokensFrom ⟨⟨tokens, .tag name, false⟩, false⟩ [] = tokens ++ [.symbol '$'] ++ word name := by
        simp [tokensFrom, readAll, finish, State.emit, closeRun_word]
      rw [ends, unquoted_append, unquoted_append, unquoted_word, plain]
      simp [unquoted]
  | cons c rest ih =>
    by_cases dollar : c = '$'
    · subst dollar
      exfalso
      have letters : '$' = '$' → ∀ x ∈ name, isTagLetter x = true := every.1
      have dropped : (name.reverse ++ '$' :: rest).dropWhile isTagLetter = '$' :: rest := by
        rw [List.dropWhile_append_of_pos fun x member => letters rfl x (List.mem_reverse.mp member)]
        rfl
      simp [dollarTag, dropped] at untagged
    · by_cases goes_on : (startsName c || (c.isDigit && name ≠ [])) = true
      · have stays : Reader.read ⟨⟨tokens, .tag name, false⟩, false⟩ c = ⟨⟨tokens, .tag (c :: name), false⟩, false⟩ := by
          simp only [Reader.read, feed, if_neg dollar, if_pos goes_on, State.enter, besideAfter]
        have inside : inName c = true := by
          simp only [Bool.or_eq_true, Bool.and_eq_true] at goes_on
          simp only [inName, Bool.or_eq_true]
          exact .inl (goes_on.imp id And.left)
        have ordinary : c ∉ ['\'', '"', '\x60', '-', '/'] := by
          intro member
          simp only [List.mem_cons, List.not_mem_nil, or_false] at member
          rcases member with rfl | rfl | rfl | rfl | rfl <;> exact absurd inside (by decide)
        have later := every.2
        rw [stays] at later
        have turn : tokensFrom ⟨⟨tokens, .tag name, false⟩, false⟩ (c :: rest) =
            tokensFrom ⟨⟨tokens, .tag (c :: name), false⟩, false⟩ rest := by
          rw [← stays]
          rfl
        cases fuel with
        | zero => cases scanned
        | succ fuel =>
          rcases bareText_cases scanned with ⟨_, rfl, -⟩ | ⟨_, _, rfl, -⟩ | ⟨_, _, quote, -⟩ | ⟨_, _, _, _, rfl, -⟩ |
            ⟨more, -, -, -, -, read, rfl⟩
          · simp at ordinary
          · simp at ordinary
          · simp only [List.mem_cons, List.not_mem_nil, or_false] at quote ordinary
            exact absurd quote (by tauto)
          · exact absurd rfl dollar
          · rw [turn] at clean ⊢
            have joined : joins name c = true := by simp [joins, inside, dollar]
            rw [plain, joined, if_pos rfl]
            exact ih (fun less few => keeps less (by omega)) read later (by simpa using untagged) clean
      · have settled := settle (p := ⟨⟨tokens, .tag name, false⟩, false⟩)
          (q := codeAt (tokens ++ [.symbol '$']) name false) (c :: rest)
          (by simp [finish, codeAt, State.emit, closeRun_word]) (by
            rintro x ⟨⟩
            refine ⟨?_, fun _ => by simp [Alike, codeAt]⟩
            have same := feedCode_mode (tokens ++ [.symbol '$']) (.tag name) (.code name) name c
            simp only [Reader.read, codeAt, feed, if_neg dollar, if_neg goes_on, State.emit]
            rw [same]
            cases mode : (feedCode .postgres ⟨tokens ++ [.symbol '$'], .code name, false⟩ name c).mode with
            | code run => cases run <;> simp [besideAfter]
            | _ => simp [besideAfter])
        rw [settled.1] at clean ⊢
        rw [keeps fuel (Nat.le_refl _) _ _ _ _ _ scanned (settled.2 every) clean, unquoted_append]
        simp [unquoted]

theorem extends_after {r : Reader} {c : Char} {token : Token} (member : token ∈ (r.read c).state.tokens) (rest : List Char) :
    token ∈ tokensFrom r (c :: rest) :=
  (extends_tokensFrom (r.read c) rest).subset member

/-- What stands at the beginning of a pending symbol. -/
theorem pending_keeps {mode : Mode} {beside' : Bool} (keeps : Keeps fuel)
    (pending : mode = .dash ∧ c = '-' ∨ mode = .slash ∧ c = '/') (other : ∀ x ∈ rest.head?, ¬ (x = c ∧ c = '-') ∧ ¬ (x = '*' ∧ c = '/'))
    (scanned : bareText fuel rest = some visible)
    (every : EveryTurn Reader.read Alike ⟨⟨tokens, mode, false⟩, beside'⟩ rest)
    (clean : NoQuotes (tokensFrom ⟨⟨tokens, mode, false⟩, beside'⟩ rest)) :
    unquoted (tokensFrom ⟨⟨tokens, mode, false⟩, beside'⟩ rest) =
      unquoted tokens ++ .symbol c :: plain [] visible := by
  have settled := settle (p := ⟨⟨tokens, mode, false⟩, beside'⟩) (q := codeAt (tokens ++ [.symbol c]) [] false)
    rest (by rcases pending with ⟨rfl, rfl⟩ | ⟨rfl, rfl⟩ <;> rfl) (by
      intro x first
      refine ⟨?_, fun _ => by simp [Alike, codeAt]⟩
      have same := feedCode_mode (tokens ++ [.symbol c]) mode (.code []) [] x
      have fed : feed .postgres ⟨tokens, mode, false⟩ x = feedCode .postgres ⟨tokens ++ [.symbol c], mode, false⟩ [] x := by
        obtain ⟨noDash, noStar⟩ := other x first
        rcases pending with ⟨rfl, rfl⟩ | ⟨rfl, rfl⟩
        · have plain_ : x ≠ '-' := fun equal => noDash ⟨equal, rfl⟩
          simp [feed, plain_, State.emit]
        · have plain_ : x ≠ '*' := fun equal => noStar ⟨equal, rfl⟩
          simp [feed, plain_, State.emit]
      rw [Reader.read, Reader.read, fed, same]
      simp only [codeAt, feed, Reader.mk.injEq, true_and]
      have notBlock := feedCode_not_block (tokens ++ [.symbol c]) [] x (.code [])
      cases next : (feedCode .postgres ⟨tokens ++ [.symbol c], .code [], false⟩ [] x).mode with
      | block depth last => exact absurd next (notBlock depth last)
      | code run => rcases pending with ⟨rfl, -⟩ | ⟨rfl, -⟩ <;> cases run <;> rfl
      | slash => rcases pending with ⟨rfl, -⟩ | ⟨rfl, -⟩ <;> rfl
      | _ => rfl)
  rw [settled.1] at clean ⊢
  rw [keeps _ _ _ _ _ scanned (settled.2 every) clean, unquoted_append]
  simp [unquoted]

theorem read_dash (tokens : List Token) (run : List Char) (beside : Bool) :
    (codeAt tokens run beside).read '-' = ⟨⟨tokens ++ word run, .dash, false⟩, false⟩ := by
  simp [Reader.read, codeAt, feed, feedCode, inName, startsName, closeRun_word, State.enter, besideAfter]

theorem read_slash (tokens : List Token) (run : List Char) (beside : Bool) :
    (codeAt tokens run beside).read '/' = ⟨⟨tokens ++ word run, .slash, false⟩, run ≠ [] || beside⟩ := by
  simp [Reader.read, codeAt, feed, feedCode, inName, startsName, closeRun_word, State.enter, besideAfter]

theorem read_quote (tokens : List Token) (run : List Char) (beside : Bool) (quote : c = '\'' ∨ c = '"') :
    ∃ escapes, (codeAt tokens run beside).read c = ⟨⟨tokens ++ word run, .quoted c escapes [], false⟩, false⟩ := by
  rcases quote with rfl | rfl
  · exact ⟨run = ['e'] || run = ['E'], by
      simp [Reader.read, codeAt, feed, feedCode, inName, startsName, closeRun_word, State.enter, besideAfter]⟩
  · exact ⟨false, by
      simp [Reader.read, codeAt, feed, feedCode, inName, startsName, closeRun_word, State.enter, besideAfter]⟩

theorem read_dollar (tokens : List Token) (beside : Bool) :
    (codeAt tokens [] beside).read '$' = ⟨⟨tokens, .tag [], false⟩, false⟩ := by
  simp [Reader.read, codeAt, feed, feedCode, inName, startsName, closeRun_word, State.enter, besideAfter, word]

/-- The scan keeps what PostgreSQL reads outside of quotes, wherever it takes each character as PostgreSQL does. -/
theorem bareText_keeps (fuel : Nat) : Keeps fuel := by
  induction fuel using Nat.strongRecOn with
  | ind fuel ih =>
    intro text visible tokens run beside scanned every clean
    cases fuel with
    | zero => cases scanned
    | succ fuel =>
      have keeps : Keeps fuel := ih fuel (Nat.lt_succ_self fuel)
      cases text with
      | nil =>
        cases scanned
        have ends : tokensFrom (codeAt tokens run beside) [] = tokens ++ word run := by
          simp [tokensFrom, readAll, codeAt, finish, closeRun_word]
        rw [ends, unquoted_append, unquoted_word, plain]
      | cons c rest =>
        have turn : tokensFrom (codeAt tokens run beside) (c :: rest) =
            tokensFrom ((codeAt tokens run beside).read c) rest := rfl
        have later : EveryTurn Reader.read Alike ((codeAt tokens run beside).read c) rest := every.2
        rcases bareText_cases scanned with ⟨body, rfl, rfl, read⟩ | ⟨body, left, rfl, rfl, ends, read⟩ |
          ⟨left, more, quote, ends, read, rfl⟩ | ⟨tag, body, left, more, rfl, tagged, ends, read, rfl⟩ |
          ⟨more, unquoted_, noDash, noStar, untagged, read, rfl⟩
        · -- A comment to the end of the line.
          have inside : Reader.read ⟨⟨tokens ++ word run, .dash, false⟩, false⟩ '-' =
              ⟨⟨tokens ++ word run, .line, false⟩, false⟩ := rfl
          rw [read_dash] at turn later
          have after := later.2
          rw [inside] at after
          obtain ⟨same, goes⟩ := line_reads after
          have line : tokensFrom ⟨⟨tokens ++ word run, .dash, false⟩, false⟩ ('-' :: body) =
              tokensFrom ⟨⟨tokens ++ word run, .line, false⟩, false⟩ body := by
            rw [← inside]
            rfl
          rw [turn, line, same] at clean ⊢
          rw [keeps _ _ _ _ _ read goes clean, unquoted_append, unquoted_word, plain_apart run (bareText_line read),
            List.append_assoc]
        · -- A comment to its end.
          have inside : Reader.read ⟨⟨tokens ++ word run, .slash, false⟩, run ≠ [] || beside⟩ '*' =
              ⟨⟨tokens ++ word run, .block 1 none, false⟩, run ≠ [] || beside⟩ := rfl
          rw [read_slash] at turn later
          have after := later.2
          rw [inside] at after
          obtain ⟨same, goes⟩ := block_reads ends after fun same => absurd same (by simp)
          have block : tokensFrom ⟨⟨tokens ++ word run, .slash, false⟩, run ≠ [] || beside⟩ ('*' :: body) =
              tokensFrom ⟨⟨tokens ++ word run, .block 1 none, false⟩, run ≠ [] || beside⟩ body := by
            rw [← inside]
            rfl
          rw [turn, block, same] at clean ⊢
          rw [keeps _ _ _ _ _ read goes clean, unquoted_append, unquoted_word]
          by_cases empty : run = []
          · simp [empty, word]
          · have apart := bareText_apart read (by simpa [empty] using goes)
            rw [plain_apart run apart, List.append_assoc]
        · -- A quoted text.
          by_cases tick : c = '\x60'
          · subst tick
            exfalso
            have symbol : Token.symbol '\x60' ∈ ((codeAt tokens run beside).read '\x60').state.tokens := by
              simp [Reader.read, codeAt, feed, feedCode, inName, startsName, closeRun_word, isBlank, State.enter, State.emit]
            exact clean _ (extends_after symbol rest) rfl
          · have mark : c = '\'' ∨ c = '"' := by
              simp only [List.mem_cons, List.not_mem_nil, or_false] at quote
              tauto
            obtain ⟨escapes, opened⟩ := read_quote tokens run beside mark
            rw [opened] at turn later
            obtain ⟨body, same, goes⟩ := quote_reads ends (.inl ⟨escapes, [], rfl⟩) later
            rw [turn, same] at clean ⊢
            rw [keeps _ _ _ _ _ read goes clean, unquoted_append, unquoted_append, unquoted_word]
            have blank : joins run ' ' = false := rfl
            simp [plain, blank, SqlLexer.mark, isBlank, unquoted]
        · -- A dollar quote.
          obtain ⟨shape, letters⟩ := dollarTag_spec tagged
          by_cases empty : run = []
          · subst empty
            subst shape
            rw [read_dollar] at turn later
            have opened : readAll ⟨⟨tokens, .tag [], false⟩, false⟩ (tag ++ ['$']) =
                ⟨⟨tokens, .dollar tag.reverse [], false⟩, false⟩ := by
              rw [readAll, List.foldl_append]
              show Reader.read (readAll _ tag) '$' = _
              rw [tag_reads tag [] letters]
              simp [Reader.read, feed, State.enter, besideAfter]
            have split : tag ++ '$' :: body = tag ++ ['$'] ++ body := by simp
            rw [split] at later
            have inside := (everyTurn_append.mp later).2
            change EveryTurn Reader.read Alike (readAll _ (tag ++ ['$'])) body at inside
            rw [opened] at inside
            have begun : tokensFrom ⟨⟨tokens, .tag [], false⟩, false⟩ (tag ++ '$' :: body) =
                tokensFrom ⟨⟨tokens, .dollar tag.reverse [], false⟩, false⟩ body := by
              rw [split, tokensFrom_append, opened]
            rw [begun] at turn
            obtain ⟨quoted, same, goes⟩ := dollar_reads (by simpa using ends) inside
            rw [turn, same] at clean ⊢
            rw [keeps _ _ _ _ _ read goes clean, unquoted_append]
            simp [plain, joins, SqlLexer.mark, isBlank, unquoted, inName, startsName, word]
          · exfalso
            have joined : ∀ (letters run : List Char), run ≠ [] → (∀ c ∈ letters, isTagLetter c = true) → ∀ beside,
                ∃ beside', readAll (codeAt tokens run beside) (letters ++ ['$']) =
                  codeAt tokens ('$' :: (letters.reverse ++ run)) beside' := by
              intro letters
              induction letters with
              | nil =>
                intro run some_ _ beside
                have goes_on : joins run '$' = true := by simp [joins, some_, inName]
                exact ⟨true, by simp [readAll, Reader.read, codeAt, feed, feedCode_joins _ goes_on, besideAfter]⟩
              | cons d letters ih =>
                intro run some_ tagged beside
                have letter := tagged d List.mem_cons_self
                have goes_on : joins run d = true := by
                  rw [joins_some some_]
                  simp only [isTagLetter, Bool.or_eq_true] at letter
                  simp only [inName, startsName, Bool.or_eq_true]
                  exact .inl (.inl (.inl letter))
                have stays : (codeAt tokens run beside).read d = codeAt tokens (d :: run) true := by
                  simp [Reader.read, codeAt, feed, feedCode_joins _ goes_on, besideAfter]
                obtain ⟨beside', same⟩ := ih (d :: run) (by simp) (fun x member => tagged x (List.mem_cons_of_mem _ member)) true
                refine ⟨beside', ?_⟩
                show readAll (Reader.read _ d) (letters ++ ['$']) = _
                rw [stays, same]
                simp
            have goes_on : joins run '$' = true := by simp [joins, empty, inName]
            have stays : (codeAt tokens run beside).read '$' = codeAt tokens ('$' :: run) true := by
              simp [Reader.read, codeAt, feed, feedCode_joins _ goes_on, besideAfter]
            obtain ⟨beside', same⟩ := joined tag ('$' :: run) (by simp) letters true
            have split : rest = tag ++ ['$'] ++ body := by simp [shape]
            rw [turn, stays, split, tokensFrom_append, same] at clean
            obtain ⟨w, member, begins⟩ := run_word tokens beside' (by simp : '$' :: (tag.reverse ++ '$' :: run) ≠ []) body
            obtain ⟨back, rfl⟩ := begins
            have tagged' : hasTag _ = false := clean _ member
            rw [show ('$' :: (tag.reverse ++ '$' :: run)).reverse ++ back = run.reverse ++ '$' :: (tag ++ '$' :: back) by simp,
              hasTag_append run.reverse letters] at tagged'
            cases tagged'
        · -- A character of the code.
          cases goes_on : joins run c with
          | true =>
            have stays : (codeAt tokens run beside).read c = codeAt tokens (c :: run) true := by
              simp [Reader.read, codeAt, feed, feedCode_joins _ goes_on, besideAfter]
            rw [stays] at turn later
            rw [turn] at clean ⊢
            rw [keeps _ _ _ _ _ read later clean, plain, goes_on, if_pos rfl]
          | false =>
            have here : plain run (c :: more) = word run ++ (SqlLexer.mark c ++ plain [] more) := by
              rw [plain, goes_on, if_neg (by simp), List.append_assoc]
            rw [here]
            by_cases dash : c = '-'
            · subst dash
              rw [read_dash] at turn later
              rw [turn] at clean ⊢
              have other : ∀ x ∈ rest.head?, ¬ (x = '-' ∧ '-' = '-') ∧ ¬ (x = '*' ∧ '-' = '/') := by
                intro x first
                exact ⟨fun both => noDash rfl (both.1 ▸ first), fun both => absurd both.2 (by decide)⟩
              rw [pending_keeps keeps (.inl ⟨rfl, rfl⟩) other read later clean, unquoted_append, unquoted_word]
              simp [SqlLexer.mark, isBlank]
            by_cases slash : c = '/'
            · subst slash
              rw [read_slash] at turn later
              rw [turn] at clean ⊢
              have other : ∀ x ∈ rest.head?, ¬ (x = '/' ∧ '/' = '-') ∧ ¬ (x = '*' ∧ '/' = '/') := by
                intro x first
                exact ⟨fun both => absurd both.2 (by decide), fun both => noStar rfl (both.1 ▸ first)⟩
              rw [pending_keeps keeps (.inr ⟨rfl, rfl⟩) other read later clean, unquoted_append, unquoted_word]
              simp [SqlLexer.mark, isBlank]
            by_cases dollar : c = '$'
            · subst dollar
              have empty : run = [] := by
                by_contra some_
                simp [joins, some_, inName] at goes_on
              subst empty
              rw [read_dollar] at turn later
              rw [turn] at clean ⊢
              rw [tag_keeps (fun less few => ih less (by omega)) read later (by simpa using untagged rfl) clean]
              simp [SqlLexer.mark, isBlank, word]
            · have special : c ∉ ['\'', '"', '-', '/', '$'] := by
                simp only [List.mem_cons, List.not_mem_nil, or_false, not_or] at unquoted_ ⊢
                tauto
              have single : c ≠ '\'' := fun equal => special (by simp [equal])
              have fed : feedCode .postgres ⟨tokens, .code run, false⟩ run c =
                  ⟨tokens ++ word run ++ SqlLexer.mark c, .code [], false⟩ := by
                rcases feedCode_apart tokens (.code run) goes_on with same | ⟨quote, -⟩
                · rw [same, feedCode_mark _ (joins_fewer goes_on) special]
                · exact absurd quote single
              have stays : (codeAt tokens run beside).read c = codeAt (tokens ++ word run ++ SqlLexer.mark c) [] false := by
                simp [Reader.read, codeAt, feed, fed, besideAfter]
              rw [stays] at turn later
              rw [turn] at clean ⊢
              rw [keeps _ _ _ _ _ read later clean, unquoted_append, unquoted_append, unquoted_word, unquoted_mark]
              simp

end Simulation

end Rdst.Safety
