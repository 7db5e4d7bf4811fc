import Rdst.Lib.SqlLexer
import Rdst.Registry.FallbackMarks

/-! What comes back of a statement that went through the passes. -/

namespace Rdst.Registry.Fallback

open PyText Regex FirstFill Spacing SqlLexer
open Positional (Stored paramLiteral slotName)

section Property

variable (d : Dialect)

/-- The modes inside of a literal of the engine. -/
def inLiteral : Mode → Bool
  | .quoted mark _ _ | .escaped mark _ | .closing mark _ _ => mark == '\'' || (mark == '"' && d = .mysql)
  | .dollar _ _ => true
  | _ => false

/-- The characters of a statement, those of its literals with a mark. -/
def marked : State → List Char → List (Bool × Char)
  | _, [] => []
  | s, c :: rest => (inLiteral d (feed d s c).mode, c) :: marked (feed d s c) rest

/-- The text is the statement up to white space outside of literals. -/
def GivenBack (sql out : List Char) : Prop := Alike isSpace (marked d begin sql) out

/-- White space inside of a literal is a blank between two other characters. -/
def SpacesKept (sql : List Char) : Prop :=
  ∀ before c after, sql = before ++ c :: after → isSpace c = true → inLiteral d (scan d begin (before ++ [c])).mode = true →
    c = ' ' ∧ (∀ x ∈ before.getLast?, isSpace x = false) ∧ ∃ y ∈ after.head?, isSpace y = false

/-- The name `:pN` of a literal stands nowhere in front of it, in the statement with the literals of lower
    numbers as they are and those of higher numbers as their names. -/
def Uncovered (tables : Tables) (sql : List Char) : Prop :=
  Clear (names tables) (slots (marks tables sql)) (cells (marks tables sql))

end Property

section Spaces

variable {d : Dialect}

/-- The modes inside of a literal that a space does not end. -/
def inside (d : Dialect) : Mode → Bool
  | .closing _ _ _ => false
  | mode => inLiteral d mode

theorem space_other {c : Char} (space : isSpace c = true) : c ≠ '\'' ∧ c ≠ '"' ∧ c ≠ '$' ∧ c ≠ '\\' := by
  refine ⟨?_, ?_, ?_, ?_⟩ <;>
    · rintro rfl
      cases space

theorem feedCode_space {c : Char} (space : isSpace c = true) (s : State) (run : List Char) :
    inLiteral d (feedCode d s run c).mode = false := by
  obtain ⟨quote, double, -, -⟩ := space_other space
  unfold feedCode
  simp only [quote, double, if_false]
  split_ifs with _ tick
  · rfl
  · simp [State.enter, inLiteral, tick.1]
  all_goals rfl

theorem feed_space {c : Char} (space : isSpace c = true) (s : State) :
    inLiteral d (feed d s c).mode = inside d s.mode ∧ inside d (feed d s c).mode = inLiteral d (feed d s c).mode := by
  have outside : ∀ (s' : State) (run : List Char), inside d (feedCode d s' run c).mode = inLiteral d (feedCode d s' run c).mode := by
    intro s' run
    have code := feedCode_space (d := d) space s' run
    rw [code]
    cases mode : (feedCode d s' run c).mode <;> rw [mode] at code <;> first | rfl | exact code
  obtain ⟨quote, double, dollar, back⟩ := space_other space
  unfold feed
  cases mode : s.mode with
  | code run => exact ⟨feedCode_space space s run, outside s run⟩
  | dash =>
    simp only
    split
    · cases d <;> exact ⟨rfl, rfl⟩
    · exact ⟨feedCode_space space _ _, outside _ _⟩
  | dashes =>
    simp only
    split_ifs
    all_goals first | exact ⟨rfl, rfl⟩ | exact ⟨feedCode_space space _ _, outside _ _⟩
  | slash =>
    simp only
    split
    · cases d <;> exact ⟨rfl, rfl⟩
    · exact ⟨feedCode_space space _ _, outside _ _⟩
  | star =>
    simp only
    split
    · exact ⟨rfl, rfl⟩
    · exact ⟨feedCode_space space _ _, outside _ _⟩
  | line =>
    simp only
    split
    · exact ⟨rfl, rfl⟩
    · rw [mode]
      exact ⟨rfl, rfl⟩
  | opening =>
    simp only
    split <;> exact ⟨rfl, rfl⟩
  | version digits =>
    simp only
    split_ifs
    all_goals first | exact ⟨rfl, rfl⟩ | exact ⟨feedCode_space space _ _, outside _ _⟩
  | block depth last =>
    simp only
    split_ifs
    all_goals exact ⟨rfl, rfl⟩
  | quoted mark escapes body =>
    simp only
    by_cases same : c = mark
    · subst same
      rw [if_pos rfl]
      simp [State.enter, inLiteral, inside, quote, double]
    · rw [if_neg same, if_neg fun both => back both.1]
      exact ⟨rfl, rfl⟩
  | escaped mark body => exact ⟨rfl, rfl⟩
  | closing mark escapes body =>
    simp only
    by_cases same : c = mark
    · subst same
      rw [if_pos rfl]
      simp [State.enter, inLiteral, inside, quote, double]
    · rw [if_neg same]
      exact ⟨feedCode_space space _ _, outside _ _⟩
  | tag name =>
    simp only
    rw [if_neg dollar]
    split
    · exact ⟨rfl, rfl⟩
    · exact ⟨feedCode_space space _ _, outside _ _⟩
  | dollar name body =>
    simp only
    rw [if_neg fun both => dollar both.1]
    exact ⟨rfl, rfl⟩

theorem marked_append (s : State) (first second : List Char) :
    marked d s (first ++ second) = marked d s first ++ marked d (scan d s first) second := by
  induction first generalizing s with
  | nil => rfl
  | cons c rest ih => exact congrArg (_ :: ·) (ih _)

theorem marked_chars (s : State) (text : List Char) : (marked d s text).map Prod.snd = text := by
  induction text generalizing s with
  | nil => rfl
  | cons c rest ih => exact congrArg (c :: ·) (ih _)

/-- A literal neither begins nor ends with white space. -/
theorem marked_steady (s : State) (text : List Char) : Steady isSpace (marked d s text) := by
  induction text generalizing s with
  | nil => exact List.isChain_nil
  | cons c rest ih =>
    cases rest with
    | nil => exact List.isChain_singleton _
    | cons e rest =>
      refine List.isChain_cons_cons.mpr ⟨fun space next => ?_, ih (feed d s c)⟩
      show inLiteral d (feed d s c).mode = inLiteral d (feed d (feed d s c) e).mode
      rw [(feed_space next (feed d s c)).1, (feed_space space s).2]

theorem marked_first (text : List Char) : ∀ p ∈ (marked d begin text).head?, isSpace p.2 = true → p.1 = false := by
  cases text with
  | nil => simp [marked]
  | cons c rest =>
    intro p head space
    obtain rfl := Option.some.inj head
    exact (feed_space space begin).1

theorem single_kept (sql : List Char) : Single isSpace ' ' false (marked d begin sql) ↔ SpacesKept d sql := by
  rw [single_iff]
  have last : ∀ (s : State) (text : List Char), (marked d s text).getLast?.map Prod.snd = text.getLast? := by
    intro s text
    rw [← List.getLast?_map, marked_chars]
  have first : ∀ (s : State) (text : List Char), (marked d s text).head?.map Prod.snd = text.head? := by
    intro s text
    rw [← List.head?_map, marked_chars]
  constructor
  · intro single before c after split space literal
    have cut : marked d begin sql = marked d begin before ++ (inLiteral d (feed d (scan d begin before) c).mode, c) ::
        marked d (feed d (scan d begin before) c) after := by
      rw [split, marked_append]
      rfl
    have mode : inLiteral d (feed d (scan d begin before) c).mode = true := by
      simpa [scan] using literal
    obtain ⟨same, front, q, next, solid⟩ := single _ _ _ cut mode space
    refine ⟨same, fun x member => ?_, q.2, ?_, solid⟩
    · rw [← last begin, Option.mem_def, Option.map_eq_some_iff] at member
      obtain ⟨p, there, rfl⟩ := member
      exact front p there
    · rw [← first (feed d (scan d begin before) c), Option.mem_def, Option.map_eq_some_iff]
      exact ⟨q, next, rfl⟩
  · intro kept before p after split marks space
    have text : sql = before.map Prod.snd ++ p.2 :: after.map Prod.snd := by
      rw [← marked_chars (d := d) begin sql, split, List.map_append, List.map_cons]
    have parts : marked d begin sql = marked d begin (before.map Prod.snd) ++
        (inLiteral d (feed d (scan d begin (before.map Prod.snd)) p.2).mode, p.2) ::
          marked d (feed d (scan d begin (before.map Prod.snd)) p.2) (after.map Prod.snd) := by
      conv_lhs => rw [text]
      rw [marked_append]
      rfl
    have length : (marked d begin (before.map Prod.snd)).length = before.length := by
      rw [← List.length_map (f := Prod.snd), marked_chars, List.length_map]
    obtain ⟨-, later⟩ := List.append_inj (parts.symm.trans split) length
    obtain ⟨here, -⟩ := List.cons.inj later
    have mode : inLiteral d (scan d begin (before.map Prod.snd ++ [p.2])).mode = true := by
      rw [← marks, ← here]
      simp [scan]
    obtain ⟨same, front, y, next, solid⟩ := kept _ p.2 _ text space mode
    refine ⟨same, fun q member => front q.2 ?_, ?_⟩
    · rw [List.getLast?_map]
      exact Option.mem_map_of_mem _ member
    · rw [List.head?_map, Option.mem_def, Option.map_eq_some_iff] at next
      obtain ⟨q, there, rfl⟩ := next
      exact ⟨q, there, solid⟩

end Spaces

section Passes

variable (tables : Tables)

def strings (sql : List Char) : List (Char ⊕ List Char) := cut (matchAt stringLiteral) (sub someSpaces (fun _ => [' ']) sql)

def rawMarks (sql : List Char) : List (Char ⊕ Literal tables) :=
  (cut (inkNumber tables) (inks 0 (strings sql))).filterMap (markOf tables)

theorem strings_fit (sql : List Char) : Fit (strings sql) := by
  have text : uncut (strings sql) = collapse isSpace ' ' false sql := by
    rw [strings, uncut_cut (takes_matchAt _)]
    exact sub_run isSpace ' ' sql
  have spaces : ∀ (inside : Bool) (text : List Char), ∀ c ∈ collapse isSpace ' ' inside text, isSpace c = true → c = ' ' := by
    intro inside text
    induction text generalizing inside with
    | nil => simp [collapse]
    | cons x rest ih =>
      intro c member space
      cases blank : isSpace x with
      | true =>
        cases inside with
        | true =>
          rw [collapse, if_pos blank, if_pos rfl] at member
          exact ih true c member space
        | false =>
          rw [collapse, if_pos blank, if_neg Bool.false_ne_true] at member
          rcases List.mem_cons.mp member with rfl | member
          · rfl
          · exact ih true c member space
      | false =>
        rw [collapse, if_neg (by simp [blank])] at member
        rcases List.mem_cons.mp member with rfl | member
        · rw [blank] at space
          cases space
        · exact ih false c member space
  refine ⟨fun word inside => ?_, fun c inside => ?_⟩
  · obtain ⟨c, d, found, rfl⟩ := mem_cut inside
    obtain ⟨e, ⟨x, rest, here, quote, rfl⟩, e', run, ⟨y, rest', there, quote', rfl⟩⟩ := moves_of_matchAt found
    obtain ⟨body, shape, others, -⟩ := moves_chars.mp run
    have first : x = '\'' := by simpa using quote
    have last : y = '\'' := by simpa using quote'
    have body_eq : rest = body ++ y :: rest' := by rw [← there]; exact shape
    have taken : c.rest = ('\'' :: (body ++ ['\''])) ++ rest' := by
      rw [here, body_eq, first, last]
      simp
    rw [matched_word taken]
    have clean : '\'' ∉ body := fun member => by simpa using others '\'' member
    simp [stringText, clean, List.getLast?_cons]
  · apply spaces false sql
    rw [← text]
    exact List.mem_flatMap.mpr ⟨.inl c, inside, by simp⟩

theorem raw_walk (sql : List Char) : Walk tables 0 (strings sql) (cut (inkNumber tables) (inks 0 (strings sql))) :=
  walk (strings sql) 0 _ [] (Nat.lt_succ_self _)

theorem raw_numbers (sql : List Char) :
    (cut (inkNumber tables) (inks 0 (strings sql))).map (Sum.map Ink.char (List.map Ink.char)) =
      cut (numberAt tables) (placeholders 0 (strings sql)) := by
  rw [cut_map Ink.char (inkNumber_map tables), inks_char]

/-- The numbers of the literals do not change with the blanks at the ends. -/
theorem cells_front (strings numbers : Nat) (ms : List (Char ⊕ Literal tables)) :
    cellsFrom strings numbers (ms.dropWhile (blank tables)) =
      (cellsFrom strings numbers ms).dropWhile (Sum.elim isSpace fun _ => false) := by
  induction ms with
  | nil => rfl
  | cons m ms ih =>
    cases m with
    | inl c =>
      cases space : isSpace c with
      | true =>
        rw [List.dropWhile_cons_of_pos (by simpa [blank] using space), ih, cellsFrom,
          List.dropWhile_cons_of_pos (by simpa using space)]
      | false =>
        rw [List.dropWhile_cons_of_neg (by simp [blank, space]), cellsFrom, List.dropWhile_cons_of_neg (by simp [space])]
    | inr l =>
      rw [List.dropWhile_cons_of_neg (by simp [blank]), cellsFrom]
      split <;> rw [List.dropWhile_cons_of_neg (by simp)]

theorem cells_end (strings numbers : Nat) (ms : List (Char ⊕ Literal tables)) :
    cellsFrom strings numbers (trimEnd (blank tables) ms) =
      trimEnd (Sum.elim isSpace fun _ => false) (cellsFrom strings numbers ms) := by
  have empty : ∀ (s n : Nat) (ms : List (Char ⊕ Literal tables)), cellsFrom s n ms = [] ↔ ms = [] := by
    intro s n ms
    cases ms with
    | nil => simp [cellsFrom]
    | cons m ms =>
      cases m with
      | inl c => simp [cellsFrom]
      | inr l =>
        rw [cellsFrom]
        split <;> simp
  induction ms generalizing strings numbers with
  | nil => rfl
  | cons m ms ih =>
    cases m with
    | inl c =>
      have same : (Sum.elim isSpace (fun _ => false) (.inl c : Char ⊕ (Nat × Literal tables))) = blank tables (.inl c) := rfl
      rw [trimEnd_cons, cellsFrom, trimEnd_cons, ← ih, same]
      simp only [empty]
      split <;> rfl
    | inr l =>
      have solid : blank tables (.inr l) = false := rfl
      rw [trimEnd_solid solid, cellsFrom, cellsFrom]
      split <;> rw [trimEnd_solid rfl, ih]

theorem spell_blocks (i : Nat × Literal tables) : ∃ rest c, (names tables).slot i = rest ++ [c] ∧ isSpace c = false := by
  obtain ⟨digits, name, all⟩ := paramName_digits i.1
  have slot : (names tables).slot i = ':' :: 'p' :: digits := congrArg (':' :: ·) name
  rw [slot]
  cases digits using List.reverseRecOn with
  | nil => exact ⟨[':'], 'p', rfl, by decide⟩
  | append_singleton digits c => exact ⟨':' :: 'p' :: digits, c, by simp, (digits_ascii tables (all c (by simp))).2.2.2⟩

theorem marks_raw (sql : List Char) :
    marks tables sql = trimEnd (blank tables) ((rawMarks tables sql).dropWhile (blank tables)) := rfl

theorem trim_literals (isString : Bool) (sql : List Char) :
    literalsOf isString (marks tables sql) = literalsOf isString (rawMarks tables sql) := by
  have nones : ∀ m : Char ⊕ Literal tables, blank tables m = true → Sum.getRight? m = none := by
    intro m blanks
    cases m with
    | inl c => rfl
    | inr l => cases blanks
  rw [literalsOf, literalsOf, marks_raw, filterMap_trim nones]

theorem text_ends (l : Literal tables) :
    (∃ c rest, l.text = c :: rest ∧ isSpace c = false) ∧ ∃ rest c, l.text = rest ++ [c] ∧ isSpace c = false := by
  cases which : l.isString with
  | true =>
    obtain ⟨body, text, -⟩ := stringText_spec (l.string which)
    exact ⟨⟨'\'', body ++ ['\''], text, by decide⟩, '\'' :: body, '\'', by rw [text]; rfl, by decide⟩
  | false =>
    obtain ⟨c, rest, text, -, solid⟩ := numberText_spec (l.number which)
    refine ⟨⟨c, rest, text, solid c (by rw [text]; simp)⟩, l.text.dropLast, l.text.getLast (by rw [text]; simp), ?_, ?_⟩
    · rw [List.dropLast_append_getLast]
    · exact solid _ (List.getLast_mem _)

theorem marks_text (sql : List Char) : textOf (marks tables sql) = tidy isSpace ' ' sql := by
  have all : textOf (rawMarks tables sql) = collapse isSpace ' ' false sql := by
    rw [show textOf (rawMarks tables sql) = uncut (strings sql) from ((raw_walk tables sql).spec (strings_fit sql)).2.1, strings,
      uncut_cut (takes_matchAt _)]
    exact sub_run isSpace ' ' sql
  have blanks : ∀ m : Char ⊕ Literal tables, blank tables m = true →
      ∃ c, Sum.elim (fun c => [c]) Literal.text m = [c] ∧ isSpace c = true := by
    intro m space
    cases m with
    | inl c => exact ⟨c, rfl, space⟩
    | inr l => cases space
  have firsts : ∀ m : Char ⊕ Literal tables, blank tables m = false →
      ∃ c rest, Sum.elim (fun c => [c]) Literal.text m = c :: rest ∧ isSpace c = false := by
    intro m solid
    cases m with
    | inl c => exact ⟨c, [], rfl, solid⟩
    | inr l => exact (text_ends tables l).1
  have lasts : ∀ m : Char ⊕ Literal tables, blank tables m = false →
      ∃ rest c, Sum.elim (fun c => [c]) Literal.text m = rest ++ [c] ∧ isSpace c = false := by
    intro m solid
    cases m with
    | inl c => exact ⟨[], c, rfl, solid⟩
    | inr l => exact (text_ends tables l).2
  rw [tidy, ← all, textOf, textOf, dropWhile_flatMap blanks firsts, trimEnd_flatMap blanks lasts]
  rfl

theorem spell_trim (cs : List (Char ⊕ (Nat × Literal tables))) :
    strip (spell (names tables) cs) = spell (names tables)
      (trimEnd (Sum.elim isSpace fun _ => false) (cs.dropWhile (Sum.elim isSpace fun _ => false))) := by
  have blanks : ∀ m : Char ⊕ (Nat × Literal tables), Sum.elim isSpace (fun _ => false) m = true →
      ∃ c, Sum.elim (fun c => [c]) (names tables).slot m = [c] ∧ isSpace c = true := by
    intro m space
    cases m with
    | inl c => exact ⟨c, rfl, space⟩
    | inr i => cases space
  have firsts : ∀ m : Char ⊕ (Nat × Literal tables), Sum.elim isSpace (fun _ => false) m = false →
      ∃ c rest, Sum.elim (fun c => [c]) (names tables).slot m = c :: rest ∧ isSpace c = false := by
    intro m solid
    cases m with
    | inl c => exact ⟨c, [], rfl, solid⟩
    | inr i => exact ⟨':', paramName i.1, rfl, by decide⟩
  have lasts : ∀ m : Char ⊕ (Nat × Literal tables), Sum.elim isSpace (fun _ => false) m = false →
      ∃ rest c, Sum.elim (fun c => [c]) (names tables).slot m = rest ++ [c] ∧ isSpace c = false := by
    intro m solid
    cases m with
    | inl c => exact ⟨[], c, rfl, solid⟩
    | inr i => exact spell_blocks tables i
  rw [spell, spell, ← trimEnd_flatMap blanks lasts, ← dropWhile_flatMap blanks firsts]
  rfl

/-- The normalized text is the statement with the names of its literals. -/
theorem normalize_text (sql : List Char) :
    (fallbackNormalize tables sql).1 = spell (names tables) (cells (marks tables sql)) := by
  obtain ⟨spelled, -, found, -⟩ := (raw_walk tables sql).spec (strings_fit sql)
  have count : ((matchesOf (strings sql)).map (extract true)).length = (literalsOf true (marks tables sql)).length := by
    rw [List.length_map, ← found, List.length_map, trim_literals]
    rfl
  have text := spelled (literalsOf true (marks tables sql)).length
  rw [raw_numbers] at text
  show strip (placeholders ((matchesOf (strings sql)).map (extract true)).length
    (cut (numberAt tables) (placeholders 0 (strings sql)))) = _
  rw [count, text, spell_trim, ← cells_front, ← cells_end]
  rfl

/-- Literals with their numbers. -/
def counted : Nat → List (Literal tables) → List (Nat × Literal tables)
  | _, [] => []
  | count, l :: rest => (count + 1, l) :: counted (count + 1) rest

theorem counted_strings (strings numbers : Nat) (ms : List (Char ⊕ Literal tables)) :
    (slotsOf (cellsFrom strings numbers ms)).filter (fun i => i.2.isString) = counted tables strings (literalsOf true ms) ∧
      (slotsOf (cellsFrom strings numbers ms)).filter (fun i => !i.2.isString) = counted tables numbers (literalsOf false ms) := by
  induction ms generalizing strings numbers with
  | nil => exact ⟨rfl, rfl⟩
  | cons m ms ih =>
    cases m with
    | inl c => exact ih strings numbers
    | inr l =>
      have some_ : ∀ isString, literalsOf isString (.inr l :: ms) =
          if l.isString == isString then l :: literalsOf isString ms else literalsOf isString ms := by
        intro isString
        show List.filter _ (l :: ms.filterMap Sum.getRight?) = _
        rw [List.filter_cons]
        rfl
      rw [some_, some_, cellsFrom]
      cases which : l.isString with
      | true =>
        obtain ⟨first, second⟩ := ih (strings + 1) numbers
        constructor
        · show List.filter _ ((strings + 1, l) :: slotsOf (cellsFrom (strings + 1) numbers ms)) = _
          rw [List.filter_cons_of_pos (by simpa using which), first]
          rfl
        · show List.filter _ ((strings + 1, l) :: slotsOf (cellsFrom (strings + 1) numbers ms)) = _
          rw [List.filter_cons_of_neg (by simp [which]), second]
          rfl
      | false =>
        obtain ⟨first, second⟩ := ih strings (numbers + 1)
        constructor
        · show List.filter _ ((numbers + 1, l) :: slotsOf (cellsFrom strings (numbers + 1) ms)) = _
          rw [List.filter_cons_of_neg (by simp [which]), first]
          rfl
        · show List.filter _ ((numbers + 1, l) :: slotsOf (cellsFrom strings (numbers + 1) ms)) = _
          rw [List.filter_cons_of_pos (by simp [which]), second]
          rfl

theorem slots_counted (ms : List (Char ⊕ Literal tables)) :
    slots ms = counted tables 0 (literalsOf true ms) ++ counted tables (literalsOf true ms).length (literalsOf false ms) := by
  obtain ⟨first, second⟩ := counted_strings tables 0 (literalsOf true ms).length ms
  rw [slots, cells, first, second]

theorem counted_numbers (count : Nat) (ls : List (Literal tables)) :
    (counted tables count ls).map Prod.fst = List.range' (count + 1) ls.length := by
  induction ls generalizing count with
  | nil => rfl
  | cons l ls ih => exact congrArg ((count + 1) :: ·) (ih (count + 1))

theorem slots_laid (ms : List (Char ⊕ Literal tables)) : Laid (names tables) (slots ms) (cells ms) := by
  constructor
  · apply List.Nodup.of_map Prod.fst
    rw [slots_counted, List.map_append, counted_numbers, counted_numbers]
    have whole : List.range' (0 + 1) (literalsOf true ms).length ++
        List.range' ((literalsOf true ms).length + 1) (literalsOf false ms).length =
          List.range' 1 ((literalsOf true ms).length + (literalsOf false ms).length) := by
      rw [List.range'_append_1.symm, Nat.zero_add, Nat.add_comm 1]
    rw [whole]
    exact List.nodup_range'
  · intro b
    rw [slots, List.filter_append, List.filter_filter, List.filter_filter]
    cases b with
    | true =>
      have none_ : (slotsOf (cells ms)).filter (fun i => (names tables).kind i == true && !i.2.isString) = [] := by
        rw [List.filter_eq_nil_iff]
        intro i _
        simp [names]
      rw [none_, List.append_nil]
      exact List.filter_congr fun i _ => by simp [names]
    | false =>
      have none_ : (slotsOf (cells ms)).filter (fun i => (names tables).kind i == false && i.2.isString) = [] := by
        rw [List.filter_eq_nil_iff]
        intro i _
        simp [names]
      rw [none_, List.nil_append]
      exact List.filter_congr fun i _ => by simp [names]

theorem numbered_append (count : Nat) (first second : List Stored) :
    numbered count (first ++ second) = numbered count first ++ numbered (count + first.length) second := by
  induction first generalizing count with
  | nil => rfl
  | cons stored first ih =>
    have here := ih (count + 1)
    rw [List.length_cons, Nat.add_comm first.length, ← Nat.add_assoc]
    exact congrArg (_ :: ·) here

theorem numbered_counted {isString : Bool} (count : Nat) {ls : List (Literal tables)} (kinds : ∀ l ∈ ls, l.isString = isString) :
    numbered count ((ls.map Literal.text).map (extract isString)) =
      (counted tables count ls).map fun i => (paramName i.1, extract i.2.isString i.2.text) := by
  induction ls generalizing count with
  | nil => rfl
  | cons l ls ih =>
    have here := ih (count + 1) fun m inside => kinds m (List.mem_cons_of_mem _ inside)
    have kind := kinds l List.mem_cons_self
    subst kind
    rw [counted, List.map_cons, List.map_cons, List.map_cons, ← here]
    rfl

theorem literalsOf_kind (isString : Bool) (ms : List (Char ⊕ Literal tables)) : ∀ l ∈ literalsOf isString ms, l.isString = isString := by
  intro l inside
  simpa using (List.mem_filter.mp inside).2

/-- The parameters are the literals in the order of their numbers. -/
theorem normalize_params (sql : List Char) : (fallbackNormalize tables sql).2 =
    (slots (marks tables sql)).map fun i => (paramName i.1, extract i.2.isString i.2.text) := by
  obtain ⟨-, -, found, found'⟩ := (raw_walk tables sql).spec (strings_fit sql)
  rw [raw_numbers] at found'
  have whole : (fallbackNormalize tables sql).2 = numbered 0 ((matchesOf (strings sql)).map (extract true) ++
      (matchesOf (cut (numberAt tables) (placeholders 0 (strings sql)))).map (extract false)) := rfl
  have first : matchesOf (strings sql) = (literalsOf true (marks tables sql)).map Literal.text := by
    rw [trim_literals]
    exact found.symm
  have second : matchesOf (cut (numberAt tables) (placeholders 0 (strings sql))) =
      (literalsOf false (marks tables sql)).map Literal.text := by
    rw [trim_literals]
    exact found'.symm
  rw [whole, first, second, numbered_append, numbered_counted tables _ (literalsOf_kind tables true _),
    numbered_counted tables _ (literalsOf_kind tables false _), slots_counted, List.map_append, List.length_map, List.length_map,
    Nat.zero_add]

/-- A literal is put back as it was. -/
theorem literal_back (l : Literal tables) : paramLiteral (extract l.isString l.text) = l.text := by
  cases which : l.isString with
  | false => rfl
  | true =>
    obtain ⟨body, text, clean⟩ := stringText_spec (l.string which)
    have value : (l.text.drop 1).dropLast = body := by rw [text]; simp
    have same : (body.flatMap fun c => if c = '\'' then ['\'', '\''] else [c]) = body := by
      calc (body.flatMap fun c => if c = '\'' then ['\'', '\''] else [c]) = body.flatMap fun c => [c] := by
            refine List.flatMap_congr fun c inside => if_neg ?_
            rintro rfl
            exact clean inside
        _ = body := List.flatMap_singleton' body
    rw [paramLiteral, extract]
    simp only [if_true, value, same]
    exact text.symm

theorem roundTrip_run (sql : List Char) : roundTrip tables sql =
    run (names tables) (slots (marks tables sql)) (spell (names tables) (cells (marks tables sql))) := by
  rw [roundTrip, fallbackReconstruct, normalize_text, normalize_params, List.foldl_map, run]
  congr 1
  funext text i
  rw [names_value, literal_back]
  rfl

theorem expand_cells (sql : List Char) : expand (names tables) (cells (marks tables sql)) = tidy isSpace ' ' sql := by
  have texts : ∀ (ms : List (Char ⊕ Literal tables)) (strings numbers : Nat),
      expand (names tables) (cellsFrom strings numbers ms) = textOf ms := by
    intro ms
    induction ms with
    | nil => exact fun _ _ => rfl
    | cons m ms ih =>
      intro strings numbers
      cases m with
      | inl c => exact congrArg (c :: ·) (ih strings numbers)
      | inr l =>
        rw [cellsFrom]
        split
        · rw [expand, List.flatMap_cons, Sum.elim_inr, names_value]
          exact congrArg (l.text ++ ·) (ih _ _)
        · rw [expand, List.flatMap_cons, Sum.elim_inr, names_value]
          exact congrArg (l.text ++ ·) (ih _ _)
  rw [cells, texts, marks_text]

end Passes

/-- The statement comes back exactly when the white space in its literals is single blanks and no name stands in
    front of its literal. -/
theorem given_back_iff (tables : Tables) (d : Dialect) (sql : List Char) :
    GivenBack d sql (roundTrip tables sql) ↔ SpacesKept d sql ∧ Uncovered tables sql := by
  have laid := slots_laid tables (marks tables sql)
  rw [roundTrip_run, Uncovered]
  by_cases clear : Clear (names tables) (slots (marks tables sql)) (cells (marks tables sql))
  · rw [run_clear laid clear, expand_cells, GivenBack]
    have tidied : Alike isSpace (marked d begin sql) (tidy isSpace ' ' ((marked d begin sql).map Prod.snd)) ↔
        Single isSpace ' ' false (marked d begin sql) :=
      alike_tidy (by decide) (marked_steady begin sql) (marked_first sql)
    rw [marked_chars] at tidied
    rw [tidied, single_kept]
    exact (and_iff_left clear).symm
  · refine iff_of_false (fun back => ?_) fun both => clear both.2
    have differs := run_covered laid clear
    rw [expand_cells] at differs
    have solids := Alike.solid back
    rw [marked_chars] at solids
    exact differs (solids.trans (filter_tidy (by decide) sql).symm)

/-- A string that holds the name of a number. -/
theorem name_in_string : ¬ GivenBack .postgres "':p2' 7".toList (roundTrip asciiTables "':p2' 7".toList) := by
  intro back
  have solids := Alike.solid back
  rw [marked_chars] at solids
  revert solids
  decide

end Rdst.Registry.Fallback
