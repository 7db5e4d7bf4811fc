import Rdst.Registry.PositionalFill

namespace Rdst.Registry.Positional

open PyText Regex Slots SqlLexer
open Library.Listing (maskStringLiterals pgParam)

section Conditions

variable (tables : Tables) (d : Dialect) (params : List Char → Option Stored) (sql : List Char)

/-- The numbers with a value are read where the engine reads them. -/
def NumbersAgree : Prop :=
  ∀ before after, sql = before ++ '$' :: after → ∀ digits, digits ≠ [] → (params (slotName digits)).isSome = true →
    (scanNumber tables (scanned tables before) after = digits ↔ slotNumber d (scan d begin before) after = digits)

/-- The question marks are read where MySQL reads them. -/
def QuestionsAgree : Prop :=
  ∀ before after, sql = before ++ '?' :: after → (scanned tables before).isCode = inCode (scan .mysql begin before).mode

/-- A number that is read has no value. -/
def Unvalued : Prop :=
  ∃ before after, sql = before ++ '$' :: after ∧ scanNumber tables (scanned tables before) after ≠ [] ∧
    params (slotName (scanNumber tables (scanned tables before) after)) = none

/-- A value that says nothing to the second pass. -/
def Stored.Plain (stored : Stored) : Prop := stored.isString = true ∨ ∀ c ∈ stored.value, c ∉ ['\'', '$', '?', ':']

def PlainValues : Prop :=
  ∀ before after stored, sql = before ++ '$' :: after → scanNumber tables (scanned tables before) after ≠ [] →
    params (slotName (scanNumber tables (scanned tables before) after)) = some stored → stored.Plain

/-- A colon that could begin a named slot, in the text or with a value. -/
def Colon : Prop :=
  ∃ before c after, sql = before ++ ':' :: c :: after ∧ (scanned tables before).isCode = true ∧ (c = 'p' ∨ c = '$')

/-- A named slot, which the second pass does nothing beside. -/
def Named : Prop :=
  ∃ before digit after, sql = before ++ ':' :: 'p' :: digit :: after ∧ (scanned tables before).isCode = true ∧
    isDecimal tables digit = true ∧
      ∀ last ∈ before.getLast?, last ≠ ':' ∧ isWord tables last = false ∧ isDecimal tables last = false

/-- The question marks of a text that the engine reads. -/
def questionCount : State → List Char → Nat
  | _, [] => 0
  | s, c :: rest => (if c = '?' ∧ d = .mysql ∧ inCode s.mode = true then 1 else 0) + questionCount (feed d s c) rest

/-- None of the first question marks has a value. -/
def NoneValued (index count : Nat) : Prop := ∀ i < count, params (questionName (index + i)) = none

/-- What the second pass relies on: that it runs over what the engine reads, or has nothing to fill. -/
def SecondPass : Prop :=
  PlainValues tables params sql ∧
    ((¬ Unvalued tables params sql ∧ ¬ Colon tables sql ∧ QuestionsAgree tables sql) ∨
      ((Unvalued tables params sql ∨ Named tables sql) ∧ NoneValued params 1 (questionCount .mysql begin sql)))

def Reads : Prop := NumbersAgree tables d params sql ∧ (d = .mysql → SecondPass tables params sql)

end Conditions

section FirstPass

variable {tables : Tables} {d : Dialect} {params : List Char → Option Stored} {sql : List Char}

theorem scanned_snoc (before : List Char) (c : Char) : scanned tables (before ++ [c]) = (scanned tables before).step tables c := by
  simp [scanned]

theorem scan_snoc (before : List Char) (c : Char) : scan d begin (before ++ [c]) = feed d (scan d begin before) c := by
  simp [scan]

theorem scanNumber_eq {b : Scan} {after : List Char} (some_ : scanNumber tables b after ≠ []) :
    b = .code ∧ scanNumber tables b after = after.takeWhile (isDecimal tables) := by
  unfold scanNumber at some_ ⊢
  split at some_
  · rename_i code
    exact ⟨code, if_pos code⟩
  · exact absurd rfl some_

theorem NumbersAgree.engine (agree : NumbersAgree tables d params sql) {before after : List Char}
    (split : sql = before ++ '$' :: after) (some_ : scanNumber tables (scanned tables before) after ≠ [])
    (valued : (params (slotName (scanNumber tables (scanned tables before) after))).isSome = true) :
    slotNumber d (scan d begin before) after = scanNumber tables (scanned tables before) after :=
  (agree before after split _ some_ valued).mp rfl

theorem NumbersAgree.code (agree : NumbersAgree tables d params sql) {before after : List Char}
    (split : sql = before ++ '$' :: after) (some_ : slotNumber d (scan d begin before) after ≠ [])
    (valued : (params (slotName (slotNumber d (scan d begin before) after))).isSome = true) :
    scanNumber tables (scanned tables before) after = slotNumber d (scan d begin before) after :=
  (agree before after split _ some_ valued).mpr rfl

/-- What stands at a slot: the value, or the dollar sign. -/
theorem dollarsFrom_dollar (b : Scan) (rest : List Char) : dollarsFrom tables params b 0 ('$' :: rest) =
    match if scanNumber tables b rest ≠ [] then params (slotName (scanNumber tables b rest)) else none with
    | some stored => paramLiteral stored ++ dollarsFrom tables params (b.step tables '$') (scanNumber tables b rest).length rest
    | none => '$' :: dollarsFrom tables params (b.step tables '$') 0 rest := by
  by_cases some_ : scanNumber tables b rest ≠ []
  · cases valued : params (slotName (scanNumber tables b rest)) <;> simp [dollarsFrom, some_, valued]
  · rw [dollarsFrom, if_neg fun both => some_ both.2, if_neg some_]

theorem intendedFrom_dollar (s : State) (index : Nat) (rest : List Char) : intendedFrom d params s index 0 ('$' :: rest) =
    match if slotNumber d s rest ≠ [] then params (slotName (slotNumber d s rest)) else none with
    | some stored => paramLiteral stored ++ intendedFrom d params (feed d s '$') index (slotNumber d s rest).length rest
    | none => '$' :: intendedFrom d params (feed d s '$') index 0 rest := by
  by_cases some_ : slotNumber d s rest ≠ []
  · cases valued : params (slotName (slotNumber d s rest)) <;> simp [intendedFrom, some_, valued]
  · rw [intendedFrom, if_neg fun both => some_ both.2, if_neg some_, if_neg fun question => absurd question.1 (by decide)]

/-- Either both take the slot with one number, or neither does. -/
theorem NumbersAgree.cases (agree : NumbersAgree tables d params sql) {before after : List Char}
    (split : sql = before ++ '$' :: after) :
    (∃ stored, scanNumber tables (scanned tables before) after ≠ [] ∧
      slotNumber d (scan d begin before) after = scanNumber tables (scanned tables before) after ∧
        params (slotName (scanNumber tables (scanned tables before) after)) = some stored) ∨
      ((if scanNumber tables (scanned tables before) after ≠ [] then
          params (slotName (scanNumber tables (scanned tables before) after)) else none) = none ∧
        (if slotNumber d (scan d begin before) after ≠ [] then
          params (slotName (slotNumber d (scan d begin before) after)) else none) = none) := by
  by_cases code : scanNumber tables (scanned tables before) after ≠ [] ∧
      (params (slotName (scanNumber tables (scanned tables before) after))).isSome = true
  · obtain ⟨stored, valued⟩ := Option.isSome_iff_exists.mp code.2
    exact .inl ⟨stored, code.1, agree.engine split code.1 code.2, valued⟩
  · right
    constructor
    · by_contra some_
      obtain ⟨stored, valued⟩ := Option.ne_none_iff_exists'.mp some_
      rw [Option.ite_none_right_eq_some] at valued
      exact code ⟨valued.1, by rw [valued.2]; rfl⟩
    · by_contra some_
      obtain ⟨stored, valued⟩ := Option.ne_none_iff_exists'.mp some_
      rw [Option.ite_none_right_eq_some] at valued
      have same := agree.code split valued.1 (by rw [valued.2]; rfl)
      rw [same] at code
      exact code ⟨valued.1, by rw [valued.2]; rfl⟩

theorem taken_decimals (text : List Char) :
    ∀ c ∈ text.take (text.takeWhile (isDecimal tables)).length, isDecimal tables c = true := by
  rw [← List.prefix_iff_eq_take.mp (List.takeWhile_prefix _)]
  exact List.all_eq_true.mp List.all_takeWhile

/-- Where no question mark has a value the first pass is what is intended. -/
theorem dollars_intended (agree : NumbersAgree tables d params sql) (text before : List Char) (index passing : Nat)
    (split : sql = before ++ text) (digits : ∀ c ∈ text.take passing, isDecimal tables c = true)
    (unvalued : NoneValued params index (questionCount d (scan d begin before) text)) :
    dollarsFrom tables params (scanned tables before) passing text =
      intendedFrom d params (scan d begin before) index passing text := by
  induction text generalizing before index passing with
  | nil => cases passing <;> rfl
  | cons c rest ih =>
    have next : sql = (before ++ [c]) ++ rest := by rw [split]; simp
    have states : scanned tables (before ++ [c]) = (scanned tables before).step tables c ∧
        scan d begin (before ++ [c]) = feed d (scan d begin before) c := ⟨scanned_snoc before c, scan_snoc before c⟩
    rw [questionCount] at unvalued
    have later : ∀ passing, (∀ c ∈ rest.take passing, isDecimal tables c = true) → ¬ (c = '?' ∧ d = .mysql ∧
        inCode (scan d begin before).mode = true) → dollarsFrom tables params ((scanned tables before).step tables c) passing rest =
          intendedFrom d params (feed d (scan d begin before) c) index passing rest := by
      intro passing digits plain
      rw [if_neg plain, Nat.zero_add] at unvalued
      have run := ih (before ++ [c]) index passing next digits (by rw [states.2]; exact unvalued)
      rwa [states.1, states.2] at run
    cases passing with
    | succ passing =>
      rw [List.take_succ_cons] at digits
      have plain := decimal_plain (digits c List.mem_cons_self)
      exact later passing (fun x member => digits x (List.mem_cons_of_mem _ member)) fun question => plain.2.2.1 question.1
    | zero =>
      by_cases dollar : c = '$'
      · subst dollar
        have plain : ¬ ('$' = '?' ∧ d = .mysql ∧ inCode (scan d begin before).mode = true) := fun question =>
          absurd question.1 (by decide)
        rw [dollarsFrom_dollar, intendedFrom_dollar]
        rcases agree.cases split with ⟨stored, some_, same, valued⟩ | ⟨code, engine⟩
        · rw [same, if_pos some_, valued]
          have digits := @taken_decimals tables rest
          rw [← (scanNumber_eq some_).2] at digits
          exact congrArg _ (later _ digits plain)
        · rw [code, engine]
          exact congrArg _ (later 0 (by simp) plain)
      · rw [dollarsFrom, if_neg fun slot => dollar slot.1, intendedFrom, if_neg fun slot => dollar slot.1]
        split
        · rename_i question
          rw [if_pos question] at unvalued
          have none_ := unvalued 0 (by omega)
          rw [Nat.add_zero] at none_
          have run := ih (before ++ [c]) (index + 1) 0 next (by simp) (by
            intro i small
            rw [states.2] at small
            have later := unvalued (i + 1) (by omega)
            rwa [Nat.add_comm i 1, ← Nat.add_assoc] at later)
          rw [states.1, states.2] at run
          rw [none_, run]
          rfl
        · rename_i plain
          exact congrArg _ (later 0 (by simp) plain)

/-- One number alone has a value, which no dollar sign begins. -/
def only (digits : List Char) (name : List Char) : Option Stored :=
  if name = slotName digits then some ⟨false, ['0']⟩ else none

theorem only_value {digits : List Char} (some_ : digits ≠ []) (number : List Char) :
    (if number ≠ [] then only digits (slotName number) else none) =
      if number = digits then some ⟨false, ['0']⟩ else none := by
  by_cases same : number = digits
  · subst same
    simp [some_, only]
  · have other : slotName number ≠ slotName digits := fun equal => same (List.cons.inj equal).2
    simp [same, other, only]

/-- Where both write the same, they read the same slots. -/
theorem numbers_of_same {digits : List Char} (some_ : digits ≠ []) (text before : List Char) (index passing : Nat)
    (split : sql = before ++ text) (decimals : ∀ c ∈ text.take passing, isDecimal tables c = true)
    (same : dollarsFrom tables (only digits) (scanned tables before) passing text =
      intendedFrom .postgres (only digits) (scan .postgres begin before) index passing text) :
    ∀ early after, text = early ++ '$' :: after → (scanNumber tables (scanned tables (before ++ early)) after = digits ↔
      slotNumber .postgres (scan .postgres begin (before ++ early)) after = digits) := by
  induction text generalizing before index passing with
  | nil =>
    intro early after split
    cases early <;> cases split
  | cons c rest ih =>
    intro early after parts
    have next : sql = (before ++ [c]) ++ rest := by rw [split]; simp
    have states : scanned tables (before ++ [c]) = (scanned tables before).step tables c ∧
        scan .postgres begin (before ++ [c]) = feed .postgres (scan .postgres begin before) c :=
      ⟨scanned_snoc before c, scan_snoc before c⟩
    have later : ∀ passing, (∀ c ∈ rest.take passing, isDecimal tables c = true) →
        dollarsFrom tables (only digits) ((scanned tables before).step tables c) passing rest =
          intendedFrom .postgres (only digits) (feed .postgres (scan .postgres begin before) c) index passing rest →
            ∀ tail, early = c :: tail → (scanNumber tables (scanned tables (before ++ early)) after = digits ↔
              slotNumber .postgres (scan .postgres begin (before ++ early)) after = digits) := by
      intro passing decimals same tail shape
      rw [← states.1, ← states.2] at same
      subst shape
      have inner : rest = tail ++ '$' :: after := (List.cons.inj parts).2
      have run := ih (before ++ [c]) index passing next decimals same tail after inner
      rwa [List.append_assoc] at run
    cases passing with
    | succ passing =>
      rw [List.take_succ_cons] at decimals
      have plain := decimal_plain (decimals c List.mem_cons_self)
      cases early with
      | nil => exact absurd (List.cons.inj parts).1 plain.1
      | cons x tail =>
        cases (List.cons.inj parts).1
        exact later passing (fun x member => decimals x (List.mem_cons_of_mem _ member)) same tail rfl
    | zero =>
      by_cases dollar : c = '$'
      · subst dollar
        rw [dollarsFrom_dollar, intendedFrom_dollar, only_value some_, only_value some_] at same
        by_cases code : scanNumber tables (scanned tables before) rest = digits
        · by_cases engine : slotNumber .postgres (scan .postgres begin before) rest = digits
          · rw [if_pos code, if_pos engine, engine, code] at same
            have reads := @taken_decimals tables rest
            rw [← (scanNumber_eq (by rw [code]; exact some_)).2, code] at reads
            have left := later _ reads (List.cons.inj same).2
            cases early with
            | nil =>
              cases parts
              rw [List.append_nil, code, engine]
            | cons x tail =>
              cases (List.cons.inj parts).1
              exact left tail rfl
          · rw [if_pos code, if_neg engine] at same
            exact absurd (List.cons.inj same).1 (by decide)
        · by_cases engine : slotNumber .postgres (scan .postgres begin before) rest = digits
          · rw [if_neg code, if_pos engine] at same
            exact absurd (List.cons.inj same).1 (by decide)
          · rw [if_neg code, if_neg engine] at same
            have left := later 0 (by simp) (List.cons.inj same).2
            cases early with
            | nil =>
              cases parts
              rw [List.append_nil]
              exact iff_of_false code engine
            | cons x tail =>
              cases (List.cons.inj parts).1
              exact left tail rfl
      · have question : ¬ (c = '?' ∧ Dialect.postgres = .mysql ∧ inCode (scan .postgres begin before).mode = true) :=
          fun both => nomatch both.2.1
        rw [dollarsFrom, if_neg fun slot => dollar slot.1, intendedFrom, if_neg fun slot => dollar slot.1, if_neg question] at same
        cases early with
        | nil => exact absurd (List.cons.inj parts).1 dollar
        | cons x tail =>
          cases (List.cons.inj parts).1
          exact later 0 (by simp) (List.cons.inj same).2 tail rfl

theorem questionCount_postgres (s : State) (text : List Char) : questionCount .postgres s text = 0 := by
  induction text generalizing s with
  | nil => rfl
  | cons c rest ih =>
    rw [questionCount, ih, if_neg fun question => nomatch question.2.1]

/-- PostgreSQL texts are filled as intended by any values just when all numbers are read alike. -/
theorem fill_postgres (agree : NumbersAgree tables .postgres params sql) :
    fillPositional tables params sql .postgres = intended .postgres params sql := by
  have run := dollars_intended agree sql [] 1 0 rfl (by simp) (by
    rw [questionCount_postgres]
    exact fun i small => absurd small (Nat.not_lt_zero i))
  have one : fillPositional tables params sql .postgres = substituteDollarSlots tables params sql := rfl
  rw [one, substitute_dollars]
  exact run

theorem numbers_agree_of_fill
    (all : ∀ params, fillPositional tables params sql .postgres = intended .postgres params sql) :
    NumbersAgree tables .postgres params sql := by
  intro before after split digits some_ _
  have same := all (only digits)
  have one : fillPositional tables (only digits) sql .postgres = substituteDollarSlots tables (only digits) sql := rfl
  rw [one, substitute_dollars] at same
  exact numbers_of_same some_ sql [] 1 0 rfl (by simp) same before after split

end FirstPass

section SecondPass

variable {tables : Tables} {params : List Char → Option Stored} {sql : List Char}

theorem scan_doubled (value rest : List Char) (index : Nat) :
    questionsFrom tables params .quote index ((value.flatMap fun c => if c = '\'' then ['\'', '\''] else [c]) ++ '\'' :: rest) =
      (value.flatMap fun c => if c = '\'' then ['\'', '\''] else [c]) ++ '\'' :: questionsFrom tables params .code index rest := by
  induction value with
  | nil => rfl
  | cons c value ih =>
    rw [List.flatMap_cons, List.append_assoc, List.append_assoc]
    by_cases quote : c = '\''
    · subst quote
      exact congrArg (fun text => '\'' :: '\'' :: text) ih
    · have stays : Scan.step tables .quote c = .quote := if_neg quote
      rw [if_neg quote, List.singleton_append, List.singleton_append, questionsFrom,
        if_neg fun question => Bool.false_ne_true question.2, stays, ih]

/-- A value that is put in is passed over. -/
theorem questions_literal {stored : Stored} (plain : stored.Plain) (index : Nat) (rest : List Char) :
    questionsFrom tables params .code index (paramLiteral stored ++ rest) =
      paramLiteral stored ++ questionsFrom tables params .code index rest := by
  obtain ⟨isString, value⟩ := stored
  cases isString with
  | true =>
    have inside := @scan_doubled tables params value rest index
    have shape : ∀ rest, paramLiteral ⟨true, value⟩ ++ rest =
        '\'' :: ((value.flatMap fun c => if c = '\'' then ['\'', '\''] else [c]) ++ '\'' :: rest) := by
      intro rest
      simp [paramLiteral]
    rw [shape, shape]
    exact congrArg ('\'' :: ·) inside
  | false =>
    have simple : ∀ c ∈ value, c ∉ ['\'', '$', '?', ':'] := plain.resolve_left Bool.false_ne_true
    show questionsFrom tables params .code index (value ++ rest) = value ++ questionsFrom tables params .code index rest
    clear plain
    induction value with
    | nil => rfl
    | cons c value ih =>
      have special := simple c List.mem_cons_self
      simp only [List.mem_cons, List.not_mem_nil, or_false, not_or] at special
      have stays : Scan.step tables .code c = .code := by simp [Scan.step, Scan.leave, special]
      rw [List.cons_append, questionsFrom, if_neg fun question => special.2.2.1 question.1, stays,
        ih fun x member => simple x (List.mem_cons_of_mem _ member)]
      rfl

/-- Where the state of the output is. -/
def landed (b : Scan) (passing : Nat) : Scan := if passing = 0 then b else .code

theorem step_decimal {b : Scan} {c : Char} (slot : b = .tag [] ∨ b = .code) (decimal : isDecimal tables c = true) :
    b.step tables c = .code := by
  have plain := decimal_plain decimal
  rcases slot with rfl | rfl
  · simp [Scan.step, Scan.leave, plain]
  · simp [Scan.step, Scan.leave, plain]

/-- Where the question marks agree, the second pass after the first is what is intended. -/
theorem questions_intended (agree : NumbersAgree tables .mysql params sql) (plain : PlainValues tables params sql)
    (marks : QuestionsAgree tables sql) (text before : List Char) (index passing : Nat) (split : sql = before ++ text) (digits : ∀ c ∈ text.take passing, isDecimal tables c = true)
    (slot : passing ≠ 0 → scanned tables before = .tag [] ∨ scanned tables before = .code) :
    questionsFrom tables params (landed (scanned tables before) passing) index
      (dollarsFrom tables params (scanned tables before) passing text) =
        intendedFrom .mysql params (scan .mysql begin before) index passing text := by
  induction text generalizing before index passing with
  | nil => cases passing <;> rfl
  | cons c rest ih =>
    have next : sql = (before ++ [c]) ++ rest := by rw [split]; simp
    have states : scanned tables (before ++ [c]) = (scanned tables before).step tables c ∧
        scan .mysql begin (before ++ [c]) = feed .mysql (scan .mysql begin before) c :=
      ⟨scanned_snoc before c, scan_snoc before c⟩
    have later : ∀ index passing, (∀ c ∈ rest.take passing, isDecimal tables c = true) →
        (passing ≠ 0 → (scanned tables before).step tables c = .tag [] ∨ (scanned tables before).step tables c = .code) →
          questionsFrom tables params (landed ((scanned tables before).step tables c) passing) index
            (dollarsFrom tables params ((scanned tables before).step tables c) passing rest) =
              intendedFrom .mysql params (feed .mysql (scan .mysql begin before) c) index passing rest := by
      intro index passing digits slot
      have run := ih (before ++ [c]) index passing next digits (by rw [states.1]; exact slot)
      rwa [states.1, states.2] at run
    cases passing with
    | succ passing =>
      rw [List.take_succ_cons] at digits
      have decimal := digits c List.mem_cons_self
      have code : (scanned tables before).step tables c = .code := step_decimal (slot (Nat.succ_ne_zero _)) decimal
      have run := later index passing (fun x member => digits x (List.mem_cons_of_mem _ member)) fun _ => .inr code
      have here : landed ((scanned tables before).step tables c) passing =
          landed (scanned tables before) (passing + 1) := by
        unfold landed
        rw [code, ite_self]
        rfl
      rw [here] at run
      exact run
    | zero =>
      have kept := later index 0 (by simp) fun some_ => absurd rfl some_
      show questionsFrom tables params (scanned tables before) index _ = _
      by_cases dollar : c = '$'
      · subst dollar
        rw [dollarsFrom_dollar, intendedFrom_dollar]
        rcases agree.cases split with ⟨stored, some_, same, value⟩ | ⟨code, engine⟩
        · obtain ⟨code, number⟩ := scanNumber_eq some_
          have digits := @taken_decimals tables rest
          rw [← number] at digits
          have opened : (scanned tables before).step tables '$' = .tag [] := by rw [code]; rfl
          have run := later index _ digits fun _ => .inl opened
          have passes : landed ((scanned tables before).step tables '$') (scanNumber tables (scanned tables before) rest).length =
              .code := if_neg fun empty => some_ (List.length_eq_zero_iff.mp empty)
          rw [passes] at run
          rw [same, if_pos some_, value]
          simp only
          rw [← run]
          nth_rewrite 1 [code]
          rw [questions_literal (plain before rest stored split some_ value)]
        · rw [code, engine]
          simp only
          rw [questionsFrom, if_neg fun question => absurd question.1 (by decide)]
          exact congrArg _ kept
      · rw [dollarsFrom, if_neg fun slot => dollar slot.1, intendedFrom, if_neg fun slot => dollar slot.1, questionsFrom]
        by_cases mark : c = '?'
        · subst mark
          have both := marks before rest split
          rw [both]
          by_cases code : inCode (scan .mysql begin before).mode = true
          · rw [if_pos ⟨rfl, code⟩, if_pos ⟨rfl, rfl, code⟩]
            exact congrArg _ (later (index + 1) 0 (by simp) fun some_ => absurd rfl some_)
          · rw [if_neg fun question => code question.2, if_neg fun question => code question.2.2]
            exact congrArg _ kept
        · rw [if_neg fun question => mark question.1, if_neg fun question => mark question.1]
          exact congrArg _ kept

end SecondPass

section Gate

variable {tables : Tables} {params : List Char → Option Stored} {sql : List Char}

/-- A name of the second pass is spelled from here on. -/
def namedHead (tables : Tables) : List Char → Bool
  | p :: digit :: _ => p == 'p' && isDecimal tables digit
  | _ => false

theorem namedHead_first {c : Char} {rest : List Char} (named : namedHead tables (c :: rest) = true) : c = 'p' := by
  cases rest with
  | nil => cases named
  | cons digit rest =>
    rw [namedHead, Bool.and_eq_true, beq_iff_eq] at named
    exact named.1

/-- No slot stands in the text that stops the second pass. -/
def Quiet (tables : Tables) : Scan → List Char → Prop
  | _, [] => True
  | b, c :: rest => ¬ (c = '$' ∧ scanNumber tables b rest ≠ []) ∧
      ¬ (c = ':' ∧ b.isCode = true ∧ namedHead tables rest = true) ∧ Quiet tables (b.step tables c) rest

theorem Quiet.split {b : Scan} {early late : List Char} {c : Char} (quiet : Quiet tables b (early ++ c :: late)) :
    ¬ (c = '$' ∧ scanNumber tables (early.foldl (Scan.step tables) b) late ≠ []) ∧
      ¬ (c = ':' ∧ (early.foldl (Scan.step tables) b).isCode = true ∧ namedHead tables late = true) := by
  induction early generalizing b with
  | nil => exact ⟨quiet.1, quiet.2.1⟩
  | cons x early ih => exact ih quiet.2.2

theorem visible_head {b : Scan} {text rest : List Char} {x : Char} (other : x ≠ ' ')
    (shown : visible tables b text = x :: rest) :
    ∃ after, text = x :: after ∧ hides tables b x after = false ∧ visible tables (b.step tables x) after = rest := by
  cases text with
  | nil => cases shown
  | cons c after =>
    rw [visible, List.cons.injEq] at shown
    obtain ⟨first, left⟩ := shown
    cases hidden : hides tables b c after with
    | true =>
      rw [hidden, if_pos rfl] at first
      exact absurd first.symm other
    | false =>
      rw [hidden] at first
      cases first
      exact ⟨after, rfl, hidden, left⟩

theorem isCode_of_shown {b : Scan} {c : Char} {rest : List Char} (shown : hides tables b c rest = false) : b.isCode = true := by
  cases b with
  | code => rfl
  | tag name => rfl
  | quote => cases shown
  | body name seen => cases shown

theorem Quiet.unnamed {text : List Char} (quiet : Quiet tables .code text) :
    finditer (namedSlot tables) (maskStringLiterals tables text) = [] := by
  rw [mask_visible, finditer_eq_nil]
  intro before rest split
  rw [Option.eq_none_iff_forall_ne_some]
  intro d found
  rw [namedSlot, matchNotAfter] at found
  split at found
  · cases found
  obtain ⟨e, ⟨x, left, here, colon, rfl⟩, f, ⟨y, left', there, letter, rfl⟩, g, ⟨z, left'', then_, decimal, rfl⟩, -⟩ :=
    moves_of_matchAt found
  have shape : rest = x :: left := here
  have shape' : left = y :: left' := there
  have shape'' : left' = z :: left'' := then_
  have colon : x = ':' := by simpa using colon
  have letter : y = 'p' := by simpa using letter
  subst colon letter
  have dropped := @visible_drop tables .code text before.length
  rw [split, List.drop_left, shape] at dropped
  obtain ⟨after, text1, shown, next⟩ := visible_head (by decide) dropped.symm
  rw [shape', shape''] at next
  obtain ⟨after', text2, -, next'⟩ := visible_head (by decide) next
  obtain ⟨after'', text3, -, -⟩ := visible_head (decimal_plain decimal).2.2.2.1 next'
  have whole := List.take_append_drop before.length text
  rw [text1, text2, text3] at whole
  rw [← whole] at quiet
  exact quiet.split.2 ⟨rfl, isCode_of_shown shown, by simp [namedHead, decimal]⟩

theorem Quiet.unnumbered {text : List Char} (quiet : Quiet tables .code text) : dollarSlots tables text = [] := by
  unfold dollarSlots
  rw [mask_visible, finditer_eq_nil]
  intro before rest split
  have dropped := @visible_drop tables .code text before.length
  rw [split, List.drop_left] at dropped
  have width : dollarWidth tables rest = none := by
    rw [dropped]
    cases left : text.drop before.length with
    | nil => rfl
    | cons c late =>
      apply dollarWidth_none
      have whole := List.take_append_drop before.length text
      rw [left] at whole
      rw [← whole] at quiet
      exact quiet.split.1
  have measure := dollar_measures tables before.reverse rest
  rw [width] at measure
  exact measure

theorem quiet_doubled {value rest : List Char} (quiet : Quiet tables .code rest) :
    Quiet tables .quote ((value.flatMap fun c => if c = '\'' then ['\'', '\''] else [c]) ++ '\'' :: rest) := by
  have hidden : ∀ c rest, ¬ (c = '$' ∧ scanNumber tables .quote rest ≠ []) ∧
      ¬ (c = ':' ∧ Scan.quote.isCode = true ∧ namedHead tables rest = true) := fun c rest =>
    ⟨fun both => both.2 rfl, fun all => Bool.false_ne_true all.2.1⟩
  induction value with
  | nil => exact ⟨(hidden _ _).1, (hidden _ _).2, quiet⟩
  | cons c value ih =>
    rw [List.flatMap_cons, List.append_assoc]
    by_cases quote : c = '\''
    · subst quote
      refine ⟨(hidden _ _).1, (hidden _ _).2, ?_, ?_, ih⟩
      · exact fun both => absurd both.1 (by decide)
      · exact fun all => absurd all.1 (by decide)
    · have stays : Scan.step tables .quote c = .quote := if_neg quote
      rw [if_neg quote]
      refine ⟨(hidden _ _).1, (hidden _ _).2, ?_⟩
      rw [stays]
      exact ih

theorem quiet_literal {stored : Stored} (plain : stored.Plain) {rest : List Char} (quiet : Quiet tables .code rest) :
    Quiet tables .code (paramLiteral stored ++ rest) := by
  obtain ⟨isString, value⟩ := stored
  cases isString with
  | true =>
    have shape : paramLiteral ⟨true, value⟩ ++ rest =
        '\'' :: ((value.flatMap fun c => if c = '\'' then ['\'', '\''] else [c]) ++ '\'' :: rest) := by simp [paramLiteral]
    rw [shape]
    exact ⟨fun both => absurd both.1 (by decide), fun all => absurd all.1 (by decide), quiet_doubled quiet⟩
  | false =>
    have simple : ∀ c ∈ value, c ∉ ['\'', '$', '?', ':'] := plain.resolve_left Bool.false_ne_true
    show Quiet tables .code (value ++ rest)
    clear plain
    induction value with
    | nil => exact quiet
    | cons c value ih =>
      have special := simple c List.mem_cons_self
      simp only [List.mem_cons, List.not_mem_nil, or_false, not_or] at special
      have stays : Scan.step tables .code c = .code := by simp [Scan.step, Scan.leave, special]
      refine ⟨fun both => special.2.1 both.1, fun all => special.2.2.2 all.1, ?_⟩
      rw [stays]
      exact ih fun x member => simple x (List.mem_cons_of_mem _ member)

/-- With all numbers filled nothing stops the second pass. -/
theorem quiet_dollars (plain : PlainValues tables params sql) (valued : ¬ Unvalued tables params sql)
    (colon : ¬ Colon tables sql) (text before : List Char) (passing : Nat) (split : sql = before ++ text)
    (digits : ∀ c ∈ text.take passing, isDecimal tables c = true)
    (slot : passing ≠ 0 → scanned tables before = .tag [] ∨ scanned tables before = .code) :
    Quiet tables (landed (scanned tables before) passing) (dollarsFrom tables params (scanned tables before) passing text) := by
  induction text generalizing before passing with
  | nil => cases passing <;> exact True.intro
  | cons c rest ih =>
    have next : sql = (before ++ [c]) ++ rest := by rw [split]; simp
    have later : ∀ passing, (∀ c ∈ rest.take passing, isDecimal tables c = true) →
        (passing ≠ 0 → (scanned tables before).step tables c = .tag [] ∨ (scanned tables before).step tables c = .code) →
          Quiet tables (landed ((scanned tables before).step tables c) passing)
            (dollarsFrom tables params ((scanned tables before).step tables c) passing rest) := by
      intro passing digits slot
      have run := ih (before ++ [c]) passing next digits (by rw [scanned_snoc]; exact slot)
      rwa [scanned_snoc] at run
    cases passing with
    | succ passing =>
      rw [List.take_succ_cons] at digits
      have decimal := digits c List.mem_cons_self
      have code : (scanned tables before).step tables c = .code := step_decimal (slot (Nat.succ_ne_zero _)) decimal
      have run := later passing (fun x member => digits x (List.mem_cons_of_mem _ member)) fun _ => .inr code
      have here : landed ((scanned tables before).step tables c) passing =
          landed (scanned tables before) (passing + 1) := by
        unfold landed
        rw [code, ite_self]
        rfl
      rw [here] at run
      exact run
    | zero =>
      have kept := later 0 (by simp) fun some_ => absurd rfl some_
      show Quiet tables (scanned tables before) _
      by_cases taken : c = '$' ∧ scanNumber tables (scanned tables before) rest ≠ []
      · obtain ⟨rfl, some_⟩ := taken
        obtain ⟨code, number⟩ := scanNumber_eq some_
        have has : params (slotName (scanNumber tables (scanned tables before) rest)) ≠ none := fun none_ =>
          valued ⟨before, rest, split, some_, none_⟩
        obtain ⟨stored, value⟩ := Option.ne_none_iff_exists'.mp has
        have digits := @taken_decimals tables rest
        rw [← number] at digits
        have opened : (scanned tables before).step tables '$' = .tag [] := by rw [code]; rfl
        have run := later _ digits fun _ => .inl opened
        have passes : landed ((scanned tables before).step tables '$') (scanNumber tables (scanned tables before) rest).length =
            .code := if_neg fun empty => some_ (List.length_eq_zero_iff.mp empty)
        rw [passes] at run
        rw [dollarsFrom_dollar, if_pos some_, value]
        simp only
        nth_rewrite 1 [code]
        exact quiet_literal (plain before rest stored split some_ value) run
      · rw [dollarsFrom, if_neg taken]
        refine ⟨?_, ?_, kept⟩
        · rintro ⟨dollar, number⟩
          subst dollar
          obtain ⟨code, digits⟩ := scanNumber_eq number
          have none_ : scanNumber tables (scanned tables before) rest = [] := by
            by_contra some_
            exact taken ⟨rfl, some_⟩
          rw [code, scanNumber, if_pos rfl] at none_ number
          cases rest with
          | nil => exact number rfl
          | cons e rest =>
            have first : dollarsFrom tables params (Scan.step tables .code '$') 0 (e :: rest) = e :: dollarsFrom tables params
                ((Scan.step tables .code '$').step tables e) 0 rest := by
              rw [dollarsFrom]
              exact if_neg fun slot => slot.2 (if_neg (by simp [Scan.step, Scan.leave]))
            rw [first] at number
            cases decimal : isDecimal tables e with
            | true => simp [decimal] at none_
            | false => simp [decimal] at number
        · rintro ⟨mark, code, named⟩
          subst mark
          have stays : (scanned tables before).step tables ':' = .code := by
            cases state : scanned tables before with
            | code => rfl
            | tag name =>
              have other : inTag tables name ':' = false := by
                unfold inTag
                split <;> rfl
              simp [Scan.step, other, Scan.leave]
            | quote =>
              rw [state] at code
              cases code
            | body name seen =>
              rw [state] at code
              cases code
          cases rest with
          | nil => cases named
          | cons e rest =>
            have apart : e ≠ 'p' ∧ e ≠ '$' := by
              constructor
              · exact fun same => colon ⟨before, e, rest, split, code, .inl same⟩
              · exact fun same => colon ⟨before, e, rest, split, code, .inr same⟩
            rw [stays, dollarsFrom, if_neg fun slot => apart.2 slot.1] at named
            exact apart.1 (namedHead_first named)

end Gate

end Rdst.Registry.Positional
