import Mathlib.Data.List.TakeWhile
import Rdst.Safety.LexicalReading

namespace Rdst.Safety

open Regex PyText SqlLexer Machine

/-- The token leaves something of itself in a text without quotes and white space. -/
def Shown (token : Token) : Prop :=
  match token with
  | .word w => w.any (fun c => !isSpace c) = true
  | .symbol c => c ≠ ';' ∧ isSpace c = false
  | .quoted .. => False

instance : DecidablePred Shown := fun token => by
  unfold Shown
  split <;> infer_instance

/-- The scan takes the text as PostgreSQL does. -/
structure ReadsAlike (sql : List Char) : Prop where
  scanned : EveryTurn Reader.read Alike (codeAt [] [] false) sql
  no_quotes : NoQuotes (lex .postgres sql)
  starts : ∃ first rest, (lex .postgres sql).head? = some (.word (first :: rest)) ∧ startsKeyword first = true ∧
    ∀ c ∈ rest, inKeyword c = true
  breaks : ¬ SingleStatement (lex .postgres sql) →
    ∃ token ∈ (lex .postgres sql).dropWhile fun token => token ≠ .symbol ';', Shown token

section Characters

/-- A fact of the characters that the scan knows is one of 128 cases. -/
theorem ascii_all (holds : Char → Bool) (cases_ : ∀ code : Fin 128, holds (Char.ofNat code.val) = true) {c : Char}
    (ascii : c.toNat < 128) : holds c = true := by
  have holds_here := cases_ ⟨c.toNat, ascii⟩
  rwa [Char.ofNat_toNat] at holds_here

theorem starts_keyword (c : Char) (starts : startsKeyword c = true) : inKeyword c = true := by
  simp only [startsKeyword, Bool.or_eq_true] at starts
  simp only [inKeyword, Char.isAlphanum, Bool.or_eq_true]
  exact starts.imp_left .inl

theorem keyword_solid {c : Char} (keyword : inKeyword c = true) : isSpace c = false := by
  have every : (!inKeyword c || !isSpace c) = true :=
    ascii_all (fun c => !inKeyword c || !isSpace c) (by decide +kernel) (inKeyword_ascii keyword)
  simpa [keyword] using every

theorem keyword_upper {c : Char} (keyword : inKeyword c = true) :
    inKeyword c.toUpper = true ∧ (startsKeyword c = true → startsKeyword c.toUpper = true) := by
  have every : (!inKeyword c || inKeyword c.toUpper && (!startsKeyword c || startsKeyword c.toUpper)) = true :=
    ascii_all (fun c => !inKeyword c || inKeyword c.toUpper && (!startsKeyword c || startsKeyword c.toUpper))
      (by decide +kernel) (inKeyword_ascii keyword)
  simp only [keyword, Bool.not_true, Bool.false_or, Bool.and_eq_true, Bool.or_eq_true, Bool.not_eq_true'] at every
  refine ⟨every.1, fun starts => every.2.resolve_left ?_⟩
  simp [starts]

theorem keyword_inName {c : Char} (keyword : inKeyword c = true) : inName c = true := by
  simp only [inKeyword, Char.isAlphanum, Bool.or_eq_true] at keyword
  simp only [inName, startsName, Bool.or_eq_true]
  rcases keyword with (alpha | digit) | underscore
  · exact .inl (.inl (.inl (.inl alpha)))
  · exact .inl (.inr digit)
  · exact .inl (.inl (.inl (.inr underscore)))

theorem outside_apart {c : Char} (outside : inName c = false) : ¬ InWord c := by
  rintro ⟨inside, -⟩
  rw [outside] at inside
  cases inside

theorem apart_ascii {c : Char} (apart : ¬ InWord c) : isAscii c = true := by
  by_contra high
  apply apart
  have beyond : 128 ≤ c.toNat := by simpa [isAscii] using high
  refine ⟨by simp [inName, startsName, beyond], ?_⟩
  rintro rfl
  exact absurd beyond (by decide)

theorem apart_keyword {c : Char} (apart : ¬ InWord c) : inKeyword c = false := by
  by_contra keyword
  have inside : inKeyword c = true := by simpa using keyword
  refine apart ⟨keyword_inName inside, ?_⟩
  rintro rfl
  exact absurd inside (by decide)

theorem apart_isWord (tables : Tables) {c : Char} (apart : ¬ InWord c) : isWord tables c = false := by
  have outside := apart_keyword apart
  simp only [inKeyword, Bool.or_eq_false_iff] at outside
  simp [isWord, isAlnum, apart_ascii apart, outside.1, outside.2]

theorem blank_space {c : Char} (blank : isBlank c = true) : isSpace c = true := by
  simp only [isBlank, Bool.or_eq_true, Bool.and_eq_true, beq_iff_eq, decide_eq_true_eq] at blank
  rcases blank with rfl | ⟨least, greatest⟩
  · decide
  · simp [isSpace, least, greatest]

theorem upper_append (tables : Tables) (first second : List Char) :
    upper tables (first ++ second) = upper tables first ++ upper tables second := List.flatMap_append ..

/-- Beside a name the upper case of a text shows no keyword's letter. -/
theorem upper_last (tables : Tables) {text : List Char} (apart : ∀ c ∈ text.getLast?, ¬ InWord c) :
    ∀ c ∈ (upper tables text).getLast?, inKeyword c = false := by
  rcases List.eq_nil_or_concat text with rfl | ⟨init, last, rfl⟩
  · exact nofun
  · have outside : ¬ InWord last := apart last (by simp)
    have one : upper tables [last] = [last.toUpper] := by simp [upper, apart_ascii outside]
    rw [List.concat_eq_append, upper_append, one]
    rintro c edge
    have same : last.toUpper = c := by simpa using edge
    by_contra keyword
    have inside := inKeyword_of_upper (same ▸ (by simpa using keyword) : inKeyword last.toUpper = true)
    rw [apart_keyword outside] at inside
    cases inside

theorem upper_head (tables : Tables) {text : List Char} (apart : ∀ c ∈ text.head?, ¬ InWord c) :
    ∀ c ∈ (upper tables text).head?, inKeyword c = false := by
  cases text with
  | nil => exact nofun
  | cons first rest =>
    have outside : ¬ InWord first := apart first rfl
    have one : upper tables (first :: rest) = first.toUpper :: upper tables rest := by
      simp [upper, apart_ascii outside]
    rw [one]
    rintro c ⟨⟩
    by_contra keyword
    have inside := inKeyword_of_upper (by simpa using keyword : inKeyword first.toUpper = true)
    rw [apart_keyword outside] at inside
    cases inside

theorem letters_of_upper {word keyword : List Char} (same : word.map Char.toUpper = keyword)
    (letters : ∀ c ∈ keyword, inKeyword c = true) : ∀ c ∈ word, inKeyword c = true :=
  fun _ member => inKeyword_of_upper (letters _ (same ▸ List.mem_map_of_mem member))

end Characters

section Gate

variable {tables : Tables} {sql bare visible : List Char}

/-- What the scan has seen to where it answers yes. -/
theorem select_accepted (accepted : lexicalReadOnlySelect tables sql = some true) :
    ∃ bare, bareText (sql.length + 1) sql = some bare ∧ ';' ∉ strip (stripBreaks (strip bare)) ∧
      (∃ first others, findall identifier (upper tables (strip bare)) = first :: others ∧
        first ∈ texts ["SELECT", "WITH"]) ∧
      (∀ word ∈ findall identifier (upper tables (strip bare)), word ∉ texts changingKeywords) ∧
      (search (lockingRead tables) (strip bare)).isSome = false := by
  unfold lexicalReadOnlySelect at accepted
  cases scanned : bareText (sql.length + 1) sql with
  | none =>
    rw [scanned] at accepted
    cases accepted
  | some bare =>
    rw [scanned] at accepted
    simp only at accepted
    split at accepted
    · cases accepted
    rename_i single
    cases words : findall identifier (upper tables (strip bare)) with
    | nil =>
      rw [words] at accepted
      cases accepted
    | cons first others =>
      rw [words] at accepted
      simp only at accepted
      split at accepted
      · cases accepted
      rename_i starts
      split at accepted
      · cases accepted
      rename_i harmless
      refine ⟨bare, rfl, single, ⟨first, others, words, not_not.mp starts⟩, ?_, by simpa using accepted⟩
      simpa [words] using harmless

theorem lex_from (sql : List Char) : tokensFrom (codeAt [] [] false) sql = lex .postgres sql := by
  rw [tokensFrom, readAll_state]
  rfl

/-- Outside of quotes PostgreSQL reads what the scan leaves of the text. -/
theorem bare_reads (alike : ReadsAlike sql) (scanned : bareText (sql.length + 1) sql = some bare) :
    unquoted (lex .postgres sql) = plain [] bare := by
  have reads := bareText_keeps (sql.length + 1) sql bare [] [] false scanned alike.scanned
  rw [lex_from] at reads
  simpa [unquoted] using reads alike.no_quotes

/-- A word in the text without quotes is one in the text that the scan looks at. -/
theorem visible_stands {before word after : List Char} (some_ : word ≠ []) (first : ∀ c ∈ word.head?, isSpace c = false)
    (last : ∀ c ∈ word.getLast?, isSpace c = false) (apart : ∀ c ∈ before.getLast?, ¬ InWord c)
    (apart' : ∀ c ∈ after.head?, ¬ InWord c) :
    ∃ before' after', strip (before ++ (word ++ after)) = before' ++ (word ++ after') ∧
      (∀ c ∈ before'.getLast?, ¬ InWord c) ∧ ∀ c ∈ after'.head?, ¬ InWord c :=
  ⟨_, _, strip_stops some_ first last, fun c edge => apart c (getLast_dropWhile isSpace before c edge),
    fun c edge => apart' c (head_rstrip after c edge)⟩

theorem word_listed {before after rest : List Char} {first : Char} (starts : startsKeyword first = true)
    (inner : ∀ c ∈ first :: rest, inKeyword c = true) (apart : ∀ c ∈ before.getLast?, ¬ InWord c)
    (apart' : ∀ c ∈ after.head?, ¬ InWord c) :
    (first :: rest).map Char.toUpper ∈ findall identifier (upper tables (before ++ (first :: rest ++ after))) := by
  rw [upper_append, upper_append, upper_ascii tables inner]
  apply findall_name starts_keyword ((keyword_upper (inner first List.mem_cons_self)).2 starts) ?_
    (upper_last tables apart) (upper_head tables apart')
  intro c member
  obtain ⟨x, own, rfl⟩ := List.mem_map.mp member
  exact (keyword_upper (inner x (List.mem_cons_of_mem _ own))).1

theorem word_first {after rest : List Char} {first : Char} (starts : startsKeyword first = true)
    (inner : ∀ c ∈ first :: rest, inKeyword c = true) (apart : ∀ c ∈ after.head?, ¬ InWord c) :
    ∃ others, findall identifier (upper tables (first :: rest ++ after)) = (first :: rest).map Char.toUpper :: others := by
  rw [upper_append, upper_ascii tables inner]
  apply findall_name_first ((keyword_upper (inner first List.mem_cons_self)).2 starts) ?_ (upper_head tables apart)
  intro c member
  obtain ⟨x, own, rfl⟩ := List.mem_map.mp member
  exact (keyword_upper (inner x (List.mem_cons_of_mem _ own))).1

/-- A word of letters as a keyword is found among the words that the scan lists. -/
theorem keyword_listed (tables : Tables) {front back : List Token} {w : List Char} (read : plain [] bare = front ++ .word w :: back)
    (keyword : ∃ first rest, w.map Char.toUpper = first :: rest ∧ startsKeyword first = true ∧
      ∀ c ∈ first :: rest, inKeyword c = true) :
    w.map Char.toUpper ∈ findall identifier (upper tables (strip bare)) := by
  obtain ⟨first, rest, same, starts, inner⟩ := keyword
  obtain ⟨before, after, rfl, apart, apart', -, some_, -⟩ := plain_word read
  have letters : ∀ c ∈ w, inKeyword c = true := letters_of_upper same inner
  obtain ⟨before', after', visible, outside, outside'⟩ := visible_stands some_
    (fun c member => keyword_solid (letters c (List.mem_of_mem_head? member)))
    (fun c member => keyword_solid (letters c (List.mem_of_mem_getLast? member))) apart
    (fun c member => outside_apart (apart' c member))
  rw [visible]
  cases w with
  | nil => exact absurd rfl some_
  | cons c w =>
    rw [List.map_cons, List.cons.injEq] at same
    exact word_listed (startsKeyword_of_upper (same.1 ▸ starts)) letters outside outside'

/-- The first word that PostgreSQL reads is the first that the scan lists. -/
theorem first_listed (tables : Tables) {back : List Token} {first : Char} {rest : List Char}
    (read : plain [] bare = .word (first :: rest) :: back) (starts : startsKeyword first = true)
    (inner : ∀ c ∈ rest, inKeyword c = true) :
    ∃ others, findall identifier (upper tables (strip bare)) = (first :: rest).map Char.toUpper :: others := by
  obtain ⟨gap, after, rfl, blanks, apart, -, -, -⟩ := plain_first read
  have letters : ∀ c ∈ first :: rest, inKeyword c = true := by
    intro c member
    rcases List.mem_cons.mp member with rfl | later
    · exact starts_keyword c starts
    · exact inner c later
  have solid : ∀ c ∈ first :: rest, isSpace c = false := fun c member => keyword_solid (letters c member)
  have trimmed : strip (gap ++ (first :: rest ++ after)) = gap.dropWhile isSpace ++ (first :: rest ++ rstrip after) :=
    strip_stops (List.cons_ne_nil first rest) (fun c member => solid c (List.mem_of_mem_head? member))
      (fun c member => solid c (List.mem_of_mem_getLast? member))
  have none_ : gap.dropWhile isSpace = [] :=
    List.dropWhile_eq_nil_iff.mpr fun c member => blank_space (blanks c member)
  rw [trimmed, none_, List.nil_append]
  exact word_first starts letters fun c edge => outside_apart (apart c (head_rstrip after c edge))

theorem shown_stands {text : List Char} {token : Token} (member : token ∈ plain [] text) (shown : Shown token) :
    ∃ c ∈ text, isSpace c = false ∧ c ≠ ';' := by
  obtain ⟨front, back, read⟩ := List.append_of_mem member
  cases token with
  | word w =>
    obtain ⟨before, after, rfl, -, -, -, -, names⟩ := plain_word read
    obtain ⟨c, own, solid⟩ := List.any_eq_true.mp shown
    refine ⟨c, by simp [own], by simpa using solid, ?_⟩
    rintro rfl
    exact absurd (names _ own) (by decide)
  | symbol c =>
    obtain ⟨before, after, rfl, -⟩ := plain_symbol read
    exact ⟨c, by simp, shown.2, shown.1⟩
  | quoted mark body => cases shown

/-- A semicolon with something of the code after it stays in the text that the scan looks at. -/
theorem break_seen {front back : List Token} {token : Token} (read : plain [] bare = front ++ .symbol ';' :: back)
    (later : token ∈ back) (shown : Shown token) : ';' ∈ strip (stripBreaks (strip bare)) := by
  obtain ⟨before, after, rfl, tokens⟩ := plain_symbol read
  obtain ⟨c, member, solid, other⟩ := shown_stands (tokens ▸ later) shown
  obtain ⟨middle, rest, rfl⟩ := List.append_of_mem member
  have split : before ++ ';' :: (middle ++ c :: rest) = before ++ ((';' :: middle ++ [c]) ++ rest) := by simp
  have some_ : ';' :: middle ++ [c] ≠ [] := by simp
  have first : ∀ x ∈ (';' :: middle ++ [c]).head?, isSpace x = false := by
    rintro x ⟨⟩
    decide
  have last : ∀ x ∈ (';' :: middle ++ [c]).getLast?, isSpace x = false := by
    intro x edge
    rw [List.getLast?_append] at edge
    cases edge
    exact solid
  have stays : ∀ x ∈ (';' :: middle ++ [c]).getLast?, (decide (x = ';')) = false := by
    intro x edge
    rw [List.getLast?_append] at edge
    cases edge
    exact decide_eq_false other
  rw [split, strip_stops some_ first last, stripBreaks, trim_stops some_ stays, strip_stops some_ first last]
  simp

theorem anyCase_moves {word : String} {shown : List Char} (same : word.toList.map Char.toUpper = shown.map Char.toUpper)
    (before rest : List Char) (groups : List (Nat × Nat × Nat)) :
    Moves (anyCase word) ⟨before, shown ++ rest, groups⟩ ⟨shown.reverse ++ before, rest, groups⟩ := by
  rw [anyCase]
  generalize word.toList = letters at same ⊢
  induction letters generalizing shown before with
  | nil =>
    have none_ : shown = [] := by simpa using same.symm
    rw [none_]
    rfl
  | cons letter letters ih =>
    obtain ⟨c, others, rfl, first, later⟩ := List.map_eq_cons_iff.mp same.symm
    have fits : sameLetter letter c = true := by simp [sameLetter, first]
    refine ⟨⟨c :: before, others ++ rest, groups⟩, ⟨c, others ++ rest, rfl, fits, rfl⟩, ?_⟩
    simpa [Regex.sequence] using ih (c :: before) later.symm

theorem consumes_anyCase {word : String} (some_ : word.toList ≠ []) : Consumes (anyCase word) := by
  rw [anyCase]
  cases letters : word.toList with
  | nil => exact absurd letters some_
  | cons letter letters => exact (consumes_char _).before

theorem someSpaces_moves {gap : List Char} (some_ : gap ≠ []) (blanks : ∀ c ∈ gap, isSpace c = true) (before rest : List Char)
    (groups : List (Nat × Nat × Nat)) :
    Moves someSpaces ⟨before, gap ++ rest, groups⟩ ⟨gap.reverse ++ before, rest, groups⟩ := by
  cases gap with
  | nil => exact absurd rfl some_
  | cons c gap =>
    refine ⟨⟨c :: before, gap ++ rest, groups⟩, ⟨c, gap ++ rest, rfl, blanks c List.mem_cons_self, rfl⟩, ?_⟩
    exact moves_chars.mpr ⟨gap, rfl, fun x member => blanks x (List.mem_cons_of_mem _ member), by simp⟩

/-- A lock for what `target` names is found. -/
theorem lock_found {before keyword gap target after : List Char} (for_ : keyword.map Char.toUpper = "FOR".toList)
    (blanks : ∀ c ∈ gap, isSpace c = true) (some_ : gap ≠ []) (solid : ∀ c ∈ target.getLast?, inKeyword c = true)
    (named : target ≠ []) (names : ∀ start groups,
      Moves (anyCase "SHARE") ⟨start, target ++ after, groups⟩ ⟨target.reverse ++ start, after, groups⟩ ∨
        Moves (sequence [anyCase "KEY", someSpaces, anyCase "SHARE"]) ⟨start, target ++ after, groups⟩
          ⟨target.reverse ++ start, after, groups⟩)
    (apart : ∀ c ∈ before.getLast?, ¬ InWord c) (apart' : ∀ c ∈ after.head?, ¬ InWord c) :
    (search (lockingRead tables) (before ++ (keyword ++ (gap ++ (target ++ after))))).isSome = true := by
  have consumes : Consumes (lockingRead tables) :=
    (consumes_anyCase (by decide)).before.after.either (consumes_anyCase (by decide)).before.after
  apply search_isSome consumes
  intro groups
  obtain ⟨first, rest, rfl⟩ : ∃ first rest, keyword = first :: rest := by
    cases keyword with
    | nil => cases for_
    | cons first rest => exact ⟨first, rest, rfl⟩
  have letters : ∀ c ∈ first :: rest, inKeyword c = true := letters_of_upper for_ (List.all_eq_true.mp rfl)
  have begins : atBoundary (isWord tables) ⟨before.reverse, first :: rest ++ (gap ++ (target ++ after)), groups⟩ = true :=
    atBoundary_start (fun c edge => apart_isWord tables (apart c edge)) (isWord_of_inKeyword tables (letters first (by simp)))
  have ends : ∀ start, atBoundary (isWord tables) ⟨target.reverse ++ start, after, groups⟩ = true := by
    intro start
    obtain ⟨init, last, rfl⟩ := List.eq_nil_or_concat target |>.resolve_left named
    have edge : isWord tables last = true := isWord_of_inKeyword tables (solid last (by simp))
    simpa using atBoundary_end edge fun c edge => apart_isWord tables (apart' c edge)
  exact ⟨_, .inl ⟨_, ⟨begins, rfl⟩, _, anyCase_moves (by rw [for_]; decide) _ _ groups, _,
    someSpaces_moves some_ blanks _ _ groups, _, .inr (.inr ((names _ groups).symm)), _, ⟨ends _, rfl⟩, rfl⟩⟩

/-- A lock that PostgreSQL reads is found in the text that the scan looks at. -/
theorem lock_seen {before keyword gap target after : List Char} (for_ : keyword.map Char.toUpper = "FOR".toList)
    (blanks : ∀ c ∈ gap, isSpace c = true) (some_ : gap ≠ []) (solid : ∀ c ∈ target.getLast?, inKeyword c = true)
    (named : target ≠ []) (names : ∀ after start groups,
      Moves (anyCase "SHARE") ⟨start, target ++ after, groups⟩ ⟨target.reverse ++ start, after, groups⟩ ∨
        Moves (sequence [anyCase "KEY", someSpaces, anyCase "SHARE"]) ⟨start, target ++ after, groups⟩
          ⟨target.reverse ++ start, after, groups⟩)
    (apart : ∀ c ∈ before.getLast?, ¬ InWord c) (apart' : ∀ c ∈ after.head?, ¬ InWord c) :
    (search (lockingRead tables) (strip (before ++ (keyword ++ (gap ++ (target ++ after)))))).isSome = true := by
  have letters : ∀ c ∈ keyword, inKeyword c = true := letters_of_upper for_ (List.all_eq_true.mp rfl)
  have first : ∀ c ∈ (keyword ++ (gap ++ target)).head?, isSpace c = false := by
    intro c edge
    cases keyword with
    | nil => cases for_
    | cons x rest =>
      cases edge
      exact keyword_solid (letters _ List.mem_cons_self)
  have last : ∀ c ∈ (keyword ++ (gap ++ target)).getLast?, isSpace c = false := by
    intro c edge
    obtain ⟨init, x, rfl⟩ := List.eq_nil_or_concat target |>.resolve_left named
    have same : x = c := by simpa using edge
    exact keyword_solid (solid c (by simp [same]))
  obtain ⟨before', after', visible, outside, outside'⟩ := visible_stands (by simp [named]) first last apart apart'
  have shape : keyword ++ (gap ++ (target ++ after)) = keyword ++ (gap ++ target) ++ after := by simp
  rw [shape, visible]
  have found : (search (lockingRead tables) (before' ++ (keyword ++ (gap ++ (target ++ after'))))).isSome = true :=
    lock_found for_ blanks some_ solid named (names after') outside outside'
  simpa using found

/-- The word that follows one stands after white space. -/
theorem next_word {after w : List Char} {back : List Token} (read : plain [] after = .word w :: back)
    (apart : ∀ c ∈ after.head?, inName c = false) :
    ∃ gap rest, after = gap ++ (w ++ rest) ∧ gap ≠ [] ∧ (∀ c ∈ gap, isSpace c = true) ∧
      (∀ c ∈ rest.head?, inName c = false) ∧ plain [] rest = back ∧ w ≠ [] := by
  obtain ⟨gap, rest, rfl, blanks, apart', left, some_, names⟩ := plain_first read
  refine ⟨gap, rest, rfl, ?_, fun c member => blank_space (blanks c member), apart', left, some_⟩
  rintro rfl
  cases w with
  | nil => exact some_ rfl
  | cons c w =>
    have outside := apart c rfl
    rw [names c List.mem_cons_self] at outside
    cases outside

/-- Keywords that a database reads one after another are words of the text. -/
theorem words_read {tokens front back : List Token} {keywords : List (List Char)} {capital : Token → Token}
    (capitals : ∀ token keyword, capital token = .word keyword → ∃ w, token = .word w ∧ w.map Char.toUpper = keyword)
    (read : tokens.map capital = front ++ (keywords.map .word ++ back)) :
    ∃ (before : List Token) (words : List (List Char)) (after : List Token),
      tokens = before ++ (words.map .word ++ after) ∧ words.map (List.map Char.toUpper) = keywords := by
  obtain ⟨before, others, rfl, -, later⟩ := List.map_eq_append_iff.mp read
  clear read
  refine ⟨before, ?_⟩
  induction keywords generalizing others with
  | nil => exact ⟨[], others, rfl, rfl⟩
  | cons keyword keywords ih =>
    obtain ⟨token, rest, rfl, here, more⟩ := List.map_eq_cons_iff.mp later
    obtain ⟨w, rfl, same⟩ := capitals token keyword here
    obtain ⟨words, after, split, all⟩ := ih rest more
    refine ⟨w :: words, after, ?_, by rw [List.map_cons, same, all]⟩
    simpa using split

theorem capital_word {d : Dialect} {front back : List Token} {keywords : List (List Char)}
    (read : readByDatabase d sql = front ++ (keywords.map .word ++ back)) :
    ∃ (before : List Token) (words : List (List Char)) (after : List Token),
      unquoted (lex d sql) = before ++ (words.map .word ++ after) ∧ words.map (List.map Char.toUpper) = keywords := by
  obtain ⟨before, words, after, split, same⟩ := words_read (by
    intro token keyword here
    cases token with
    | word w =>
      cases here
      exact ⟨w, rfl, rfl⟩
    | _ => cases here) read
  refine ⟨unquoted before, words, unquoted after, ?_, same⟩
  have kept : unquoted (words.map Token.word) = words.map .word := by
    rw [unquoted, List.filter_eq_self]
    intro token member
    obtain ⟨w, -, rfl⟩ := List.mem_map.mp member
    rfl
  rw [split, unquoted_append, unquoted_append, kept]

theorem single_read {d : Dialect} (single : SingleStatement (lex d sql)) : SingleStatement (readByDatabase d sql) := by
  intro token member
  rw [readByDatabase, List.dropWhile_map] at member
  obtain ⟨own, later, rfl⟩ := List.mem_map.mp member
  have same : own = .symbol ';' := by
    apply single
    convert later using 2
    funext other
    cases other <;> rfl
  rw [same]

theorem share_seen {front back : List Token} {f w : List Char} (for_ : f.map Char.toUpper = "FOR".toList)
    (share : w.map Char.toUpper = "SHARE".toList) (read : plain [] bare = front ++ (.word f :: .word w :: back)) :
    (search (lockingRead tables) (strip bare)).isSome = true := by
  obtain ⟨before, after, rfl, apart, edge, left, -, -⟩ := plain_word read
  obtain ⟨gap, rest, rfl, some_, blanks, edge', -, named⟩ := next_word left edge
  have letters := letters_of_upper share (List.all_eq_true.mp rfl)
  apply lock_seen for_ blanks some_ (fun c last => letters c (List.mem_of_mem_getLast? last)) named ?_ apart
    (fun c first => outside_apart (edge' c first))
  intro after start groups
  exact .inl (anyCase_moves (by rw [share]; decide) start after groups)

theorem key_share_seen {front back : List Token} {f k w : List Char} (for_ : f.map Char.toUpper = "FOR".toList)
    (key : k.map Char.toUpper = "KEY".toList) (share : w.map Char.toUpper = "SHARE".toList)
    (read : plain [] bare = front ++ (.word f :: .word k :: .word w :: back)) :
    (search (lockingRead tables) (strip bare)).isSome = true := by
  obtain ⟨before, after, rfl, apart, edge, left, -, -⟩ := plain_word read
  obtain ⟨gap, rest, rfl, some_, blanks, edge', left', named⟩ := next_word left edge
  obtain ⟨gap', rest', rfl, some_', blanks', edge'', -, named'⟩ := next_word left' edge'
  have letters := letters_of_upper share (List.all_eq_true.mp rfl)
  have shape : k ++ (gap' ++ (w ++ rest')) = k ++ (gap' ++ w) ++ rest' := by simp
  rw [shape]
  apply lock_seen for_ blanks some_ ?_ (by simp [named]) ?_ apart (fun c first => outside_apart (edge'' c first))
  · intro c last
    obtain ⟨init, x, rfl⟩ := List.eq_nil_or_concat w |>.resolve_left named'
    have same : x = c := by simpa using last
    exact letters c (by simp [same])
  · intro after start groups
    right
    have first := anyCase_moves (by rw [key]; decide : "KEY".toList.map Char.toUpper = k.map Char.toUpper) start
      (gap' ++ (w ++ after)) groups
    have second := someSpaces_moves some_' blanks' (k.reverse ++ start) (w ++ after) groups
    have third := anyCase_moves (by rw [share]; decide : "SHARE".toList.map Char.toUpper = w.map Char.toUpper)
      (gap'.reverse ++ (k.reverse ++ start)) after groups
    have whole : Moves (Regex.sequence [anyCase "KEY", someSpaces, anyCase "SHARE"])
        ⟨start, k ++ (gap' ++ (w ++ after)), groups⟩ ⟨w.reverse ++ (gap'.reverse ++ (k.reverse ++ start)), after, groups⟩ :=
      ⟨_, first, _, second, _, third, rfl⟩
    simpa using whole

/-- What PostgreSQL reads after the first semicolon the scan would see. -/
theorem single_kept (alike : ReadsAlike sql) (reads : unquoted (lex .postgres sql) = plain [] bare)
    (unbroken : ';' ∉ strip (stripBreaks (strip bare))) : SingleStatement (lex .postgres sql) := by
  by_contra several
  obtain ⟨token, member, shown⟩ := alike.breaks several
  cases rest : (lex .postgres sql).dropWhile fun token => token ≠ .symbol ';' with
  | nil =>
    rw [rest] at member
    cases member
  | cons first back =>
    have stops := List.head?_dropWhile_not (fun token : Token => decide (token ≠ .symbol ';')) (lex .postgres sql)
    rw [rest] at stops member
    have same : first = .symbol ';' := by simpa using stops
    subst same
    have own : token ∈ back := by
      rcases List.mem_cons.mp member with rfl | later
      · exact absurd rfl shown.1
      · exact later
    have split := List.takeWhile_append_dropWhile (l := lex .postgres sql) (p := fun token => decide (token ≠ .symbol ';'))
    rw [rest] at split
    rw [← split, unquoted_append] at reads
    have read : plain [] bare = unquoted _ ++ .symbol ';' :: unquoted back := reads.symm
    apply unbroken
    apply break_seen read (List.mem_filter.mpr ⟨own, ?_⟩) shown
    cases token with
    | quoted mark body => cases shown
    | _ => rfl

/-- The first word of the text is the first that the scan lists. -/
theorem starts_kept (tables : Tables) (alike : ReadsAlike sql) (reads : unquoted (lex .postgres sql) = plain [] bare) :
    ∃ word others, findall identifier (upper tables (strip bare)) = word :: others ∧
      (readByDatabase .postgres sql).head? = some (.word word) := by
  obtain ⟨c, rest, head, begins, inner⟩ := alike.starts
  cases shape : lex .postgres sql with
  | nil =>
    rw [shape] at head
    cases head
  | cons token back =>
    rw [shape] at head
    cases head
    have read : plain [] bare = .word (c :: rest) :: unquoted back := by
      rw [← reads, shape]
      rfl
    obtain ⟨others, listed⟩ := first_listed tables read begins inner
    refine ⟨_, others, listed, ?_⟩
    rw [readByDatabase, shape]
    rfl

/-- A changing keyword that PostgreSQL reads is among the words that the scan lists. -/
theorem changes_listed (tables : Tables) (reads : unquoted (lex .postgres sql) = plain [] bare) {keyword : List Char}
    (listed : keyword ∈ texts changingKeywords) (member : .word keyword ∈ readByDatabase .postgres sql) :
    keyword ∈ findall identifier (upper tables (strip bare)) := by
  obtain ⟨front, back, split⟩ := List.append_of_mem member
  have split' : readByDatabase .postgres sql = front ++ ([keyword].map .word ++ back) := split
  obtain ⟨before, read, after, kept, same⟩ := capital_word split'
  obtain ⟨w, rfl, upper_⟩ := List.map_eq_singleton_iff.mp same
  rw [reads] at kept
  have shapes : ∀ keyword ∈ texts changingKeywords, keyword.head?.any startsKeyword = true ∧ keyword.all inKeyword = true := by
    decide
  obtain ⟨begins, letters⟩ := shapes keyword listed
  have shape : ∃ first rest, w.map Char.toUpper = first :: rest ∧ startsKeyword first = true ∧
      ∀ c ∈ first :: rest, inKeyword c = true := by
    rw [upper_]
    cases keyword with
    | nil => cases begins
    | cons first rest => exact ⟨first, rest, rfl, by simpa using begins, by simpa using letters⟩
  have found := keyword_listed tables kept shape
  rwa [upper_] at found

theorem locks_kept (tables : Tables) (reads : unquoted (lex .postgres sql) = plain [] bare)
    (unlocked : (search (lockingRead tables) (strip bare)).isSome = false) :
    ∀ clause ∈ ["FOR SHARE", "FOR KEY SHARE"], ¬ phrase clause <:+: readByDatabase .postgres sql := by
  rintro clause member ⟨front, back, split⟩
  have found : (search (lockingRead tables) (strip bare)).isSome = true := by
    simp only [List.mem_cons, List.not_mem_nil, or_false] at member
    rcases member with rfl | rfl
    · have split' : readByDatabase .postgres sql = front ++ (["FOR".toList, "SHARE".toList].map .word ++ back) := by
        rw [← split, List.append_assoc]
        rfl
      obtain ⟨before, read, after, kept, same⟩ := capital_word split'
      obtain ⟨f, others, rfl, for_, later⟩ := List.map_eq_cons_iff.mp same
      obtain ⟨w, rfl, share⟩ := List.map_eq_singleton_iff.mp later
      exact share_seen for_ share (reads.symm.trans kept)
    · have split' : readByDatabase .postgres sql =
          front ++ (["FOR".toList, "KEY".toList, "SHARE".toList].map .word ++ back) := by
        rw [← split, List.append_assoc]
        rfl
      obtain ⟨before, read, after, kept, same⟩ := capital_word split'
      obtain ⟨f, others, rfl, for_, later⟩ := List.map_eq_cons_iff.mp same
      obtain ⟨k, others', rfl, key, last⟩ := List.map_eq_cons_iff.mp later
      obtain ⟨w, rfl, share⟩ := List.map_eq_singleton_iff.mp last
      exact key_share_seen for_ key share (reads.symm.trans kept)
  rw [unlocked] at found
  cases found

/-- Texts that the scan lets through, though PostgreSQL reads a second statement, a change or another beginning. -/
theorem fooled_texts :
    ∀ sql ∈ texts ["SELECT E'\\''; DELETE FROM t --'", "SELECT 1 /* /* */ ' */ ; DELETE FROM t --'",
        "SELECT 1 --\r; DELETE FROM t", "SELECT 1 \x60; DELETE FROM t --\x60", "SELECT $a1$'$a1$; DELETE FROM t --'",
        "SELECT a$b$; DELETE FROM t --$b$", "SELECT 1; 'x'", "WITH x AS (DELETE/**/FROM t RETURNING 1) SELECT 1",
        "(SELECT 1)"],
      lexicalReadOnlySelect asciiTables sql = some true ∧ ¬ PlainSelect (readByDatabase .postgres sql) := by
  have accepted : ∀ sql ∈ texts ["SELECT E'\\''; DELETE FROM t --'", "SELECT 1 /* /* */ ' */ ; DELETE FROM t --'",
        "SELECT 1 --\r; DELETE FROM t", "SELECT 1 \x60; DELETE FROM t --\x60", "SELECT $a1$'$a1$; DELETE FROM t --'",
        "SELECT a$b$; DELETE FROM t --$b$", "SELECT 1; 'x'", "WITH x AS (DELETE/**/FROM t RETURNING 1) SELECT 1",
        "(SELECT 1)"],
      lexicalReadOnlySelect asciiTables sql = some true ∧
        (.word "DELETE".toList ∈ readByDatabase .postgres sql ∨
          (∃ token ∈ (readByDatabase .postgres sql).dropWhile fun token => token ≠ .symbol ';', token ≠ .symbol ';') ∨
          (readByDatabase .postgres sql).head? = some (.symbol '(')) := by decide +kernel
  intro sql member
  obtain ⟨let_through, changes | ⟨token, later, other⟩ | bracket⟩ := accepted sql member
  · exact ⟨let_through, fun plain_ => plain_.no_changes _ (by decide) changes⟩
  · exact ⟨let_through, fun plain_ => other (plain_.single token later)⟩
  · refine ⟨let_through, fun plain_ => ?_⟩
    obtain ⟨keyword, -, head⟩ := plain_.starts
    rw [bracket] at head
    cases head

end Gate

end Rdst.Safety
