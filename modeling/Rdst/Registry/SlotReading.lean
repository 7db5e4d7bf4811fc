import Rdst.Lib.Marking
import Rdst.Registry.Positional

namespace Rdst.Registry.Positional

open PyText Regex Slots SqlLexer
open Library.Listing (maskStringLiterals maskFrom pgParam singleQuoted dollarQuoteOpen)

/-- How a text is scanned that has no literals but between apostrophes or dollar tags, and no comments and identifiers with
    quotes. A tag and the text seen after it are kept in reverse. -/
inductive Scan
  | code
  | quote
  | tag (name : List Char)
  | body (name seen : List Char)
deriving DecidableEq

section Scan

variable (tables : Tables)

/-- A character that goes on with the name of a dollar tag. -/
def inTag (name : List Char) (c : Char) : Bool := if name = [] then c.isAlpha || c == '_' else isWord tables c

def Scan.leave (c : Char) : Scan := if c = '\'' then .quote else if c = '$' then .tag [] else .code

def Scan.step : Scan → Char → Scan
  | .code, c => leave c
  | .quote, c => if c = '\'' then .code else .quote
  | .tag name, c => if c = '$' then .body name [] else if inTag tables name c then .tag (c :: name) else leave c
  | .body name seen, c => if c = '$' ∧ (name ++ ['$']).isPrefixOf seen then .code else .body name (c :: seen)

def scanned (text : List Char) : Scan := text.foldl (Scan.step tables) .code

/-- A dollar tag is completed. -/
def completes : List Char → List Char → Bool
  | _, [] => false
  | name, c :: rest => c == '$' || inTag tables name c && completes (c :: name) rest

/-- The character is in the text of a literal, or one of its quotes. -/
def hides : Scan → Char → List Char → Bool
  | .code, c, rest => c == '\'' || (c == '$' && completes tables [] rest)
  | .tag name, c, rest => c == '\'' || completes tables name (c :: rest)
  | .quote, _, _ | .body .., _, _ => true

/-- The text with the literals blank. -/
def visible : Scan → List Char → List Char
  | _, [] => []
  | b, c :: rest => (if hides tables b c rest then ' ' else c) :: visible (b.step tables c) rest

end Scan

section Mask

variable {tables : Tables} {name : List Char}

theorem inTag_dollar (name : List Char) : inTag tables name '$' = false := by
  unfold inTag
  split <;> rfl

theorem inTag_quote (name : List Char) : inTag tables name '\'' = false := by
  unfold inTag
  split <;> rfl

/-- A tag that is never completed hides nothing. -/
theorem visible_tag (text : List Char) (open_ : completes tables name text = false) :
    visible tables (.tag name) text = visible tables .code text := by
  induction text generalizing name with
  | nil => rfl
  | cons c rest ih =>
    have other : c ≠ '$' := by
      intro same
      simp [completes, same] at open_
    have shown : hides tables (.tag name) c rest = hides tables .code c rest := by
      simp only [hides, open_, Bool.or_false, beq_false_of_ne other, Bool.false_and]
    rw [visible, visible, shown]
    congr 1
    cases goes : inTag tables name c with
    | true =>
      have quote : c ≠ '\'' := by
        intro same
        rw [same, inTag_quote] at goes
        exact Bool.noConfusion goes
      have later : completes tables (c :: name) rest = false := by
        simpa [completes, goes, other] using open_
      have one : Scan.step tables (.tag name) c = .tag (c :: name) := by simp [Scan.step, other, goes]
      have two : Scan.step tables .code c = .code := by simp [Scan.step, Scan.leave, other, quote]
      rw [one, two, ih later]
    | false =>
      have one : Scan.step tables (.tag name) c = Scan.leave c := by simp [Scan.step, other, goes]
      rw [one]
      rfl

/-- What the pieces of a literal's text leave is read in the literal still. -/
theorem visible_pieces {c e : Cursor Char}
    (moves : Moves (.star (.alt (.char (· != '\'')) (literal "''".toList))) c e) :
    visible tables .quote c.rest = List.replicate (c.rest.length - e.rest.length) ' ' ++ visible tables .quote e.rest := by
  have path : Relation.ReflTransGen (fun a b : Cursor Char =>
      Moves (.alt (.char (· != '\'')) (literal "''".toList)) a b ∧ b.rest.length < a.rest.length) c e := moves
  induction path with
  | refl => simp
  | @tail d e path step done =>
    have before := done path
    obtain ⟨piece, shorter⟩ := step
    have longer : d.rest.length ≤ c.rest.length := Moves.length_le (p := .star _) path
    rw [before]
    rcases piece with ⟨x, rest, text, other, same⟩ | two
    · have quote : x ≠ '\'' := by simpa using other
      have left : e.rest = rest := by rw [same]; rfl
      have stays : Scan.step tables .quote x = .quote := if_neg quote
      rw [text] at longer ⊢
      rw [left, visible, stays]
      simp only [hides, if_true]
      rw [List.length_cons] at longer ⊢
      have one : c.rest.length - rest.length = c.rest.length - (rest.length + 1) + 1 := by omega
      rw [one, List.replicate_succ', List.append_assoc]
      rfl
    · obtain ⟨text, -⟩ := moves_literal.mp two
      have split : d.rest = '\'' :: '\'' :: e.rest := text
      rw [split] at longer ⊢
      have both : visible tables .quote ('\'' :: '\'' :: e.rest) = ' ' :: ' ' :: visible tables .quote e.rest := rfl
      rw [both]
      simp only [List.length_cons] at longer ⊢
      have one : c.rest.length - e.rest.length = c.rest.length - (e.rest.length + 1 + 1) + 1 + 1 := by omega
      rw [one, List.replicate_succ', List.replicate_succ', List.append_assoc, List.append_assoc]
      rfl

theorem visible_open {text : List Char} (none_ : '\'' ∉ text) :
    visible tables .quote text = List.replicate text.length ' ' := by
  induction text with
  | nil => rfl
  | cons c rest ih =>
    rw [List.mem_cons, not_or] at none_
    have stays : Scan.step tables .quote c = .quote := if_neg (Ne.symm none_.1)
    rw [visible, stays, ih none_.2]
    rfl

theorem pieces_of_plain {run rest before : List Char} {groups : List (Nat × Nat × Nat)} (plain : '\'' ∉ run) :
    Moves (.star (.alt (.char (· != '\'')) (literal "''".toList))) ⟨before, run ++ rest, groups⟩
      ⟨run.reverse ++ before, rest, groups⟩ := by
  show Relation.ReflTransGen _ _ _
  induction run generalizing before with
  | nil => exact .refl
  | cons x run ih =>
    rw [List.mem_cons, not_or] at plain
    have later := @ih (x :: before) plain.2
    have other : (x != '\'') = true := by simpa using Ne.symm plain.1
    have first : Moves (.alt (.char (· != '\'')) (literal "''".toList)) (⟨before, x :: run ++ rest, groups⟩ : Cursor Char)
        ⟨x :: before, run ++ rest, groups⟩ := .inl ⟨x, run ++ rest, rfl, other, rfl⟩
    have path := Relation.ReflTransGen.head ⟨first, by simp⟩ later
    simpa using path

theorem quoted_closed {c d : Cursor Char} (found : matchAt singleQuoted c = some d) :
    ∃ rest, c.rest = '\'' :: rest ∧ visible tables .quote rest =
      List.replicate (rest.length - d.rest.length) ' ' ++ visible tables .code d.rest ∧ d.rest.length ≤ rest.length := by
  obtain ⟨e, ⟨x, rest, text, quote, rfl⟩, f, pieces, g, ⟨y, after, text', quote', rfl⟩, last⟩ := moves_of_matchAt found
  have end_ : d = f.next y after := last
  have opens : x = '\'' := by simpa using quote
  have closes : y = '\'' := by simpa using quote'
  subst opens closes
  have inside := @visible_pieces tables _ _ pieces
  have long := Moves.length_le pieces
  refine ⟨rest, text, ?_, ?_⟩
  · have here : (c.next '\'' rest).rest = rest := rfl
    rw [here] at inside long
    rw [inside, end_, text']
    have ending : visible tables .quote ('\'' :: after) = ' ' :: visible tables .code after := rfl
    rw [ending]
    rw [text', List.length_cons] at long
    have one : rest.length - (f.next '\'' after).rest.length = rest.length - (after.length + 1) + 1 := by
      show rest.length - after.length = _
      omega
    rw [one, List.replicate_succ', List.append_assoc]
    rfl
  · rw [end_]
    rw [text', List.length_cons] at long
    show after.length ≤ rest.length
    have here : (c.next '\'' rest).rest = rest := rfl
    rw [here] at long
    omega

theorem quoted_open {c : Cursor Char} {rest : List Char} (text : c.rest = '\'' :: rest) (none_ : matchAt singleQuoted c = none) :
    '\'' ∉ rest := by
  intro member
  obtain ⟨run, after, split, plain⟩ := List.eq_append_cons_of_mem member
  obtain ⟨before, whole, groups⟩ := c
  cases text
  subst split
  have first : Moves (.char (· == '\'')) (⟨before, '\'' :: (run ++ '\'' :: after), groups⟩ : Cursor Char)
      ⟨'\'' :: before, run ++ '\'' :: after, groups⟩ := ⟨'\'', _, rfl, rfl, rfl⟩
  have last : Moves (.char (· == '\'')) (⟨run.reverse ++ '\'' :: before, '\'' :: after, groups⟩ : Cursor Char)
      ⟨'\'' :: (run.reverse ++ '\'' :: before), after, groups⟩ := ⟨'\'', after, rfl, rfl, rfl⟩
  have moves : Moves singleQuoted (⟨before, '\'' :: (run ++ '\'' :: after), groups⟩ : Cursor Char) _ :=
    ⟨_, first, _, pieces_of_plain plain, _, last, rfl⟩
  obtain ⟨d, found⟩ := matchAt_of_moves (consumes_char _).before moves
  have clash : none = some d := none_.symm.trans found
  exact nomatch clash

end Mask

section Dollars

variable {tables : Tables}

/-- The run goes on with the name of a dollar tag. -/
def TagRun (tables : Tables) : List Char → List Char → Prop
  | _, [] => True
  | name, c :: run => inTag tables name c = true ∧ TagRun tables (c :: name) run

theorem completes_iff {name text : List Char} : completes tables name text = true ↔
    ∃ run after, text = run ++ '$' :: after ∧ TagRun tables name run := by
  induction text generalizing name with
  | nil =>
    constructor
    · exact nofun
    · intro ⟨run, after, empty, _⟩
      cases run <;> cases empty
  | cons c rest ih =>
    rw [completes, Bool.or_eq_true, Bool.and_eq_true, beq_iff_eq, ih]
    constructor
    · intro goes
      rcases goes with rfl | ⟨inside, run, after, split, tags⟩
      · exact ⟨[], rest, rfl, True.intro⟩
      · exact ⟨c :: run, after, by rw [split]; rfl, inside, tags⟩
    · intro ⟨run, after, split, tags⟩
      cases run with
      | nil =>
        cases split
        exact .inl rfl
      | cons d run =>
        cases split
        exact .inr ⟨tags.1, run, after, rfl, tags.2⟩

theorem tagRun_words {name : List Char} (some_ : name ≠ []) (run : List Char) :
    TagRun tables name run ↔ ∀ c ∈ run, isWord tables c = true := by
  induction run generalizing name with
  | nil => simp [TagRun]
  | cons c run ih => simp [TagRun, inTag, some_, ih]

theorem tag_found {c d : Cursor Char} {text : List Char} (starts : c.rest = '$' :: text)
    (found : matchAt (dollarQuoteOpen tables) c = some d) :
    ∃ run, text = run ++ '$' :: d.rest ∧ TagRun tables [] run ∧ matched c d = '$' :: (run ++ ['$']) := by
  obtain ⟨e, ⟨x, rest, here, dollar, rfl⟩, f, name, g, ⟨y, after, there, dollar', rfl⟩, last⟩ := moves_of_matchAt found
  have end_ : d = f.next y after := last
  have first : x = '$' := by simpa using dollar
  have second : y = '$' := by simpa using dollar'
  subst first second
  rw [starts] at here
  cases here
  have shape : ∃ run, text = run ++ f.rest ∧ TagRun tables [] run := by
    rcases name with ⟨h, ⟨z, more, split, letter, rfl⟩, words⟩ | none_
    · obtain ⟨run, split', words, -⟩ := moves_chars.mp words
      have next : text = z :: more := split
      have next' : more = run ++ f.rest := split'
      refine ⟨z :: run, by rw [next, next']; rfl, ?_, (tagRun_words (by simp) run).mpr words⟩
      exact letter
    · have same : f = c.next '$' text := none_
      exact ⟨[], by rw [same]; rfl, True.intro⟩
  obtain ⟨run, split, tags⟩ := shape
  rw [there] at split
  have left : d.rest = after := by rw [end_]; rfl
  refine ⟨run, by rw [left]; exact split, tags, ?_⟩
  have whole := matched_append c.before d.before ('$' :: (run ++ ['$'])) d.rest c.groups d.groups
  have cursor : c = ⟨c.before, '$' :: (run ++ ['$']) ++ d.rest, c.groups⟩ := by
    obtain ⟨before, rest, groups⟩ := c
    simp only at starts
    rw [starts, split, left]
    simp
  rw [cursor]
  exact whole

theorem tag_missing {c : Cursor Char} {text : List Char} (starts : c.rest = '$' :: text)
    (none_ : matchAt (dollarQuoteOpen tables) c = none) : completes tables [] text = false := by
  by_contra completed
  rw [Bool.not_eq_false, completes_iff] at completed
  obtain ⟨run, after, split, tags⟩ := completed
  obtain ⟨before, whole, groups⟩ := c
  cases starts
  subst split
  have first : Moves (.char (· == '$')) (⟨before, '$' :: (run ++ '$' :: after), groups⟩ : Cursor Char)
      ⟨'$' :: before, run ++ '$' :: after, groups⟩ := ⟨'$', _, rfl, rfl, rfl⟩
  have last : Moves (.char (· == '$')) (⟨run.reverse ++ '$' :: before, '$' :: after, groups⟩ : Cursor Char)
      ⟨'$' :: (run.reverse ++ '$' :: before), after, groups⟩ := ⟨'$', after, rfl, rfl, rfl⟩
  have name : Moves (optional (.seq (.char fun c => c.isAlpha || c == '_') (.star (.char (isWord tables)))))
      (⟨'$' :: before, run ++ '$' :: after, groups⟩ : Cursor Char) ⟨run.reverse ++ '$' :: before, '$' :: after, groups⟩ := by
    cases run with
    | nil => exact .inr rfl
    | cons x run =>
      have words := (tagRun_words (by simp) run).mp tags.2
      have path : Moves (.star (.char (isWord tables))) (⟨x :: '$' :: before, run ++ '$' :: after, groups⟩ : Cursor Char)
          ⟨run.reverse ++ x :: '$' :: before, '$' :: after, groups⟩ := moves_chars.mpr ⟨run, rfl, words, rfl⟩
      have whole : (x :: run).reverse ++ '$' :: before = run.reverse ++ x :: '$' :: before := by simp
      rw [whole]
      exact .inl ⟨_, ⟨x, run ++ '$' :: after, rfl, tags.1, rfl⟩, path⟩
  have moves : Moves (dollarQuoteOpen tables) (⟨before, '$' :: (run ++ '$' :: after), groups⟩ : Cursor Char) _ :=
    ⟨_, first, _, name, _, last, rfl⟩
  obtain ⟨d, found⟩ := matchAt_of_moves (consumes_char _).before moves
  have clash : none = some d := none_.symm.trans found
  exact nomatch clash

/-- The tag that opens a literal is hidden. -/
theorem visible_run {name run after : List Char} (tags : TagRun tables name run) :
    visible tables (.tag name) (run ++ '$' :: after) =
      List.replicate (run.length + 1) ' ' ++ visible tables (.body (run.reverse ++ name) []) after := by
  induction run generalizing name with
  | nil =>
    have hidden : hides tables (.tag name) '$' after = true := by simp [hides, completes]
    rw [List.nil_append, visible, hidden]
    rfl
  | cons c run ih =>
    have completed : completes tables name (c :: (run ++ '$' :: after)) = true :=
      completes_iff.mpr ⟨c :: run, after, rfl, tags⟩
    have hidden : hides tables (.tag name) c (run ++ '$' :: after) = true := by simp [hides, completed]
    have other : c ≠ '$' := by
      intro same
      have inside := tags.1
      rw [same, inTag_dollar] at inside
      exact Bool.noConfusion inside
    have goes : Scan.step tables (.tag name) c = .tag (c :: name) := by simp [Scan.step, other, tags.1]
    rw [List.cons_append, visible, hidden, goes, ih tags.2]
    simp [List.replicate_succ]

/-- The tag in full. -/
def needle (name : List Char) : List Char := '$' :: (name.reverse ++ ['$'])

/-- A literal ends where its tag does. -/
theorem step_body (name done : List Char) (c : Char) : Scan.step tables (.body name done.reverse) c =
    if needle name <:+ done ++ [c] then .code else .body name (done ++ [c]).reverse := by
  have closing : (c = '$' ∧ (name ++ ['$']).isPrefixOf done.reverse) ↔ needle name <:+ done ++ [c] := by
    rw [List.isPrefixOf_iff_prefix, ← List.reverse_suffix, List.reverse_reverse, List.reverse_append]
    have parts : needle name = (['$'].reverse ++ name.reverse) ++ ['$'] := rfl
    rw [parts]
    constructor
    · intro ⟨same, tail⟩
      rw [same]
      obtain ⟨u, split⟩ := tail
      exact ⟨u, by rw [← split]; simp⟩
    · intro ⟨u, split⟩
      rw [← List.append_assoc] at split
      obtain ⟨tail, same⟩ := List.append_inj' split rfl
      exact ⟨(List.cons.inj same).1.symm, u, tail⟩
  rw [List.reverse_append]
  exact if_congr closing rfl rfl

/-- The text up to the end of the tag is hidden, when none ends before. -/
theorem visible_body {name done left rest : List Char} (some_ : left ≠ []) (ends : needle name <:+ done ++ left)
    (first : ∀ early late, done ++ left = early ++ late → late ≠ [] → ¬ needle name <:+ early) :
    visible tables (.body name done.reverse) (left ++ rest) =
      List.replicate left.length ' ' ++ visible tables .code rest := by
  induction left generalizing done with
  | nil => exact absurd rfl some_
  | cons c left ih =>
    have hidden : hides tables (.body name done.reverse) c (left ++ rest) = true := rfl
    rw [List.cons_append, visible, hidden, if_pos rfl, step_body]
    cases left with
    | nil =>
      rw [if_pos ends]
      rfl
    | cons e left =>
      rw [if_neg (first (done ++ [c]) (e :: left) (by simp) (by simp)), ih (by simp) (by simpa using ends)
        fun early late parts => first early late (by simpa using parts)]
      rfl

/-- Without another tag the rest of the text is hidden. -/
theorem visible_unclosed {name done left : List Char}
    (never : ∀ early late, done ++ left = early ++ late → ¬ needle name <:+ early) :
    visible tables (.body name done.reverse) left = List.replicate left.length ' ' := by
  induction left generalizing done with
  | nil => rfl
  | cons c left ih =>
    have hidden : hides tables (.body name done.reverse) c left = true := rfl
    rw [visible, hidden, if_pos rfl, step_body, if_neg (never (done ++ [c]) left (by simp)),
      ih fun early late parts => never early late (by simpa using parts)]
    rfl

/-- The tag that opens a literal is hidden. -/
theorem visible_opening {run : List Char} (tags : TagRun tables [] run) (rest : List Char) :
    visible tables .code ('$' :: (run ++ '$' :: rest)) =
      List.replicate (needle run.reverse).length ' ' ++ visible tables (.body run.reverse []) rest := by
  have completed : completes tables [] (run ++ '$' :: rest) = true := completes_iff.mpr ⟨run, rest, rfl, tags⟩
  have hidden : hides tables .code '$' (run ++ '$' :: rest) = true := by simp [hides, completed]
  have starts : Scan.step tables .code '$' = .tag [] := rfl
  rw [visible, hidden, if_pos rfl, starts, visible_run tags, List.append_nil]
  simp [needle, List.replicate_succ]

theorem visible_literal {run body rest : List Char} (tags : TagRun tables [] run)
    (ends : beforeFirst (needle run.reverse) rest = some body) : ∃ after, rest = body ++ (needle run.reverse ++ after) ∧
      visible tables .code ('$' :: (run ++ '$' :: rest)) =
        List.replicate ((needle run.reverse).length + body.length + (needle run.reverse).length) ' ' ++
          visible tables .code after := by
  have tagged : needle run.reverse ≠ [] := List.cons_ne_nil _ _
  obtain ⟨after, split, first⟩ := beforeFirst_spec tagged ends
  have some_ : body ++ needle run.reverse ≠ [] := List.append_ne_nil_of_right_ne_nil _ tagged
  have hidden : visible tables (.body run.reverse ([] : List Char).reverse) (body ++ needle run.reverse ++ after) = _ :=
    visible_body some_ (List.suffix_append _ _) first
  refine ⟨after, split, ?_⟩
  rw [List.reverse_nil] at hidden
  rw [visible_opening tags, split, ← List.append_assoc body, hidden, ← List.append_assoc, List.replicate_append_replicate,
    List.length_append, Nat.add_assoc]

theorem visible_literal_open {run rest : List Char} (tags : TagRun tables [] run)
    (open_ : beforeFirst (needle run.reverse) rest = none) :
    visible tables .code ('$' :: (run ++ '$' :: rest)) = List.replicate ('$' :: (run ++ '$' :: rest)).length ' ' := by
  have hidden : visible tables (.body run.reverse ([] : List Char).reverse) rest = _ :=
    visible_unclosed fun early late parts => beforeFirst_none open_ parts
  rw [List.reverse_nil] at hidden
  rw [visible_opening tags, hidden, List.replicate_append_replicate]
  congr 1
  simp [needle]
  omega

end Dollars

section Mask

variable {tables : Tables}

theorem matched_length {c d : Cursor Char} : (matched c d).length = c.rest.length - d.rest.length := by
  unfold matched
  rw [List.length_take]
  omega

/-- The mask of a text is the text with its literals blank. -/
theorem mask_visible (sql : List Char) : maskStringLiterals tables sql = visible tables .code sql := by
  have run : ∀ fuel (c : Cursor Char), c.rest.length < fuel → maskFrom tables fuel c = visible tables .code c.rest := by
    intro fuel
    induction fuel with
    | zero => exact fun _ enough => absurd enough (Nat.not_lt_zero _)
    | succ fuel ih =>
      intro c enough
      rw [maskFrom]
      cases text : c.rest with
      | nil => rfl
      | cons x rest =>
        rw [text, List.length_cons] at enough
        have kept : maskFrom tables fuel (c.next x rest) = visible tables .code rest := ih _ (Nat.lt_of_succ_lt_succ enough)
        simp only
        by_cases quote : x = '\''
        · subst quote
          have opens : visible tables .code ('\'' :: rest) = ' ' :: visible tables .quote rest := rfl
          rw [if_pos rfl, opens]
          cases found : matchAt singleQuoted c with
          | none =>
            rw [visible_open (quoted_open text found)]
            rfl
          | some d =>
            obtain ⟨rest', text', closes, shorter⟩ := @quoted_closed tables _ _ found
            cases text.symm.trans text'
            have later := ih d (by omega)
            simp only [matched_length, text, List.length_cons, closes, later]
            rw [Nat.succ_sub shorter, List.replicate_succ]
            rfl
        · rw [if_neg quote]
          by_cases dollar : x = '$'
          · subst dollar
            rw [if_pos rfl]
            cases found : matchAt (dollarQuoteOpen tables) c with
            | none =>
              have open_ := tag_missing text found
              have shown : hides tables .code '$' rest = false := by simp [hides, open_]
              simp only [kept]
              rw [visible, shown]
              exact congrArg _ (visible_tag rest open_).symm
            | some d =>
              obtain ⟨run, split, tags, opening⟩ := tag_found text found
              have tag_ : matched c d = needle run.reverse := by rw [opening, needle, List.reverse_reverse]
              simp only [tag_]
              cases ends : beforeFirst (needle run.reverse) d.rest with
              | none => rw [split, visible_literal_open tags ends]
              | some body =>
                obtain ⟨after, whole, hidden⟩ := visible_literal tags ends
                have left : List.drop ((needle run.reverse).length + body.length + (needle run.reverse).length)
                    ('$' :: rest) = after := by
                  have parts : '$' :: rest = (needle run.reverse ++ (body ++ needle run.reverse)) ++ after := by
                    rw [split, whole]
                    simp [needle]
                  rw [parts, List.drop_left']
                  rw [List.length_append, List.length_append, Nat.add_assoc]
                have shorter : after.length < fuel := by
                  have lengths := congrArg List.length left
                  rw [List.length_drop, List.length_cons] at lengths
                  have tag_length : (needle run.reverse).length = run.length + 2 := by simp [needle]
                  omega
                simp only [left]
                rw [ih _ shorter, split, hidden]
          · rw [if_neg dollar, kept]
            have shown : hides tables .code x rest = false := by simp [hides, quote, dollar]
            have stays : Scan.step tables .code x = .code := by simp [Scan.step, Scan.leave, quote, dollar]
            rw [visible, shown, stays]
            rfl
  exact run _ _ (Nat.lt_succ_self _)

end Mask

end Rdst.Registry.Positional
