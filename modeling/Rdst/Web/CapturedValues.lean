import Rdst.Web.CapturedFill

namespace Rdst.Web.SqlParameters

open PyText Regex Weaving Assoc

section Formats

variable {tables : Tables} {value : List Char} {x : Char}

theorem dropUnits_subset (n : Nat) (text : List Char) : dropUnits n text ⊆ text := by
  induction text generalizing n with
  | nil => exact List.Subset.refl _
  | cons c text ih =>
    rw [dropUnits]
    split
    · exact List.Subset.refl _
    · exact List.subset_cons_of_subset c (ih _)

theorem takeUnits_subset (n : Nat) (text : List Char) : takeUnits n text ⊆ text := by
  induction text generalizing n with
  | nil => exact List.Subset.refl _
  | cons c text ih =>
    rw [takeUnits]
    split
    · exact List.nil_subset _
    · exact List.cons_subset_cons c (ih _)

theorem slice_subset (text : List Char) (start stop : Nat) : slice text start stop ⊆ text :=
  List.Subset.trans (takeUnits_subset _ _) (dropUnits_subset _ _)

theorem trim_subset (text : List Char) : Web.trim text ⊆ text := by
  intro c member
  rw [Web.trim, List.mem_reverse] at member
  have inner := (List.dropWhile_sublist _).subset member
  rw [List.mem_reverse] at inner
  exact (List.dropWhile_sublist _).subset inner

theorem quoteAsText_free (noQuote : x ≠ '\'') (free : x ∉ value) : x ∉ quoteAsText value := by
  intro member
  simp only [quoteAsText, List.mem_cons, List.mem_append, List.mem_flatMap, List.not_mem_nil, or_false] at member
  rcases member with first | ⟨c, inside, member⟩ | last
  · exact noQuote first
  · split at member
    · simp [noQuote] at member
    · rw [List.mem_singleton.mp member] at free
      exact free inside
  · exact noQuote last

/-- A value is formatted with its own characters, apart from quotes and keywords. -/
theorem formatValue_free (noQuote : x ≠ '\'') (noKeyword : ∀ word ∈ keywords, x ∉ word) (free : x ∉ value) :
    x ∉ formatValue tables value := by
  have trimmed : x ∉ Web.trim value := fun member => free (trim_subset value member)
  rw [formatValue]
  split
  · exact trimmed
  split
  · rename_i word
    exact noKeyword _ word
  split
  · exact trimmed
  split
  · exact quoteAsText_free noQuote fun member => trimmed (slice_subset _ _ _ member)
  · exact quoteAsText_free noQuote trimmed

theorem two_le_quoteAsText (value : List Char) : 2 ≤ (quoteAsText value).length := by
  simp only [quoteAsText, List.length_cons, List.length_append, List.length_nil]
  omega

/-- A bare number has a digit where it does not begin with a sign. -/
theorem bareNumber_digit {text : List Char} (number : testWhole bareNumber text = true) : ∃ c ∈ text, c.isDigit = true := by
  obtain ⟨d, success, -⟩ := List.any_eq_true.mp number
  obtain ⟨e, sign, f, whole, -⟩ : ∃ e, Moves (optional (.char (· == '-'))) (start text) e ∧ ∃ f,
      Moves (.alt (.char (· == '0')) (.seq (.char fun c => '1' ≤ c && c ≤ '9') (.star (.char Char.isDigit)))) e f ∧ _ :=
    mem_successes.mp success
  have rest : e.rest ⊆ text := by
    obtain ⟨taken, split, -⟩ := Moves.splits sign
    change text = _ at split
    rw [split]
    exact List.subset_append_right taken e.rest
  rcases whole with ⟨c, after, here, zero, -⟩ | ⟨g, ⟨c, after, here, first, -⟩, -⟩
  · refine ⟨c, rest (by rw [here]; exact List.mem_cons_self), ?_⟩
    rw [beq_iff_eq.mp zero]
    rfl
  · refine ⟨c, rest (by rw [here]; exact List.mem_cons_self), ?_⟩
    simp only [Bool.and_eq_true, decide_eq_true_eq] at first
    simp only [Char.isDigit, Bool.and_eq_true, decide_eq_true_eq]
    have low : '0' ≤ c := UInt32.le_trans (by decide : '0'.val ≤ '1'.val) first.1
    exact ⟨low, first.2⟩

theorem keyword_letter {word : List Char} (member : word ∈ keywords) : 'L' ∈ word ∨ 'E' ∈ word := by
  simp only [keywords, List.mem_cons, List.not_mem_nil, or_false] at member
  rcases member with rfl | rfl | rfl <;> decide

theorem two_le_units {text : List Char} (quotes : ∀ c ∈ text, c = '\'') (long : 2 ≤ units text) : 2 ≤ text.length := by
  have same : text = List.replicate text.length '\'' := List.eq_replicate_iff.mpr ⟨rfl, quotes⟩
  rw [same] at long
  simpa [units] using long

/-- What is formatted as quotes alone has at least two. -/
theorem formatValue_quotes (quotes : ∀ c ∈ formatValue tables value, c = '\'') : 2 ≤ (formatValue tables value).length := by
  rw [formatValue] at quotes ⊢
  split at quotes
  · rename_i number
    obtain ⟨c, member, digit⟩ := bareNumber_digit number
    rw [quotes c member] at digit
    cases digit
  rename_i noNumber
  rw [if_neg noNumber]
  split at quotes
  · rename_i word
    rcases keyword_letter word with letter | letter
    · exact absurd (quotes _ letter) (by decide)
    · exact absurd (quotes _ letter) (by decide)
  rename_i noWord
  rw [if_neg noWord]
  split at quotes
  · rename_i quoted
    rw [if_pos quoted]
    exact two_le_units quotes quoted.1
  rename_i unquoted
  rw [if_neg unquoted]
  split
  · exact two_le_quoteAsText _
  · exact two_le_quoteAsText _

/-- The texts that are formatted as the empty literal. -/
def blankTexts : List (List Char) := [[], ['\'', '\''], ['"', '"']]

theorem quoteAsText_empty : quoteAsText value = ['\'', '\''] ↔ value = [] := by
  constructor
  · intro same
    have lengths := congrArg List.length same
    cases value with
    | nil => rfl
    | cons c value =>
      simp only [quoteAsText, List.length_cons, List.length_append, List.length_nil, List.flatMap_cons] at lengths
      split at lengths <;> simp at lengths
  · rintro rfl
    rfl

/-- A text between two double quotes. -/
theorem between_doubles {text : List Char} (long : 2 ≤ units text) (first : text.head? = some '"') (last : text.getLast? = some '"') :
    ∃ inner, text = '"' :: (inner ++ ['"']) ∧ slice text 1 (units text - 1) = inner := by
  cases text with
  | nil => cases first
  | cons c text =>
    obtain rfl : c = '"' := by simpa using first
    rcases List.eq_nil_or_concat text with rfl | ⟨inner, d, rfl⟩
    · exact absurd long (by decide)
    · obtain rfl : d = '"' := by simpa [List.getLast?_cons] using last
      refine ⟨inner, by simp, ?_⟩
      have width : units ('"' :: inner.concat '"') - 1 = units (['"'] ++ inner) := by
        simp [units, Nat.add_comm]
      have cut := slice_between ['"'] inner ['"']
      rw [width]
      simpa [units] using cut

theorem formatValue_empty : formatValue tables value = ['\'', '\''] ↔ Web.trim value ∈ blankTexts := by
  have plain : upper tables ['\'', '\''] = ['\'', '\''] := rfl
  rw [formatValue]
  generalize Web.trim value = trimmed
  constructor
  · intro same
    split at same
    · rw [same]
      decide
    split at same
    · rename_i word
      rw [same] at word
      exact absurd word (by decide)
    split at same
    · rw [same]
      decide
    split at same
    · rename_i quoted
      obtain ⟨inner, shape, cut⟩ := between_doubles quoted.1 quoted.2.1 quoted.2.2
      rw [cut, quoteAsText_empty] at same
      rw [shape, same]
      decide
    · rw [quoteAsText_empty.mp same]
      decide
  · intro blank
    simp only [blankTexts, List.mem_cons, List.not_mem_nil, or_false] at blank
    rcases blank with rfl | rfl | rfl
    · rfl
    · rfl
    · rfl

end Formats

section Own

variable (tables : Tables) {Value : Type} (text : Value → Option (List Char)) (stored : Option (Dict (List Char) Value))

/-- The value that the record has of its own for a key, where it is not empty. -/
def captured (key : List Char) : Option (List Char) :=
  ((stored.bind fun record => record.lookup key).bind text).filter fun value => value ≠ []

/-- What belongs in the place of a slot: its own value, or the placeholder where it has none. -/
def capturedFill (s : PlaceholderMatch × Nat) : List Char :=
  match captured text stored (slotKey s) with
  | some value => formatValue tables value
  | none => s.1.token

/-- The names of the slots without a value are not those of an object's members, and the question marks have no value, or all
    of them have one that is formatted as the empty literal. -/
structure Fillable (sql : List Char) : Prop where
  own : ∀ s ∈ slots sql, s.1.token ≠ ['?'] → ∀ record ∈ stored, record.lookup (slotKey s) = none → inherited (slotKey s) = none
  questions : (∀ n, 1 ≤ n → n ≤ questions sql → captured text stored ('p' :: (toString n).toList) = none) ∨
    ∀ n, 1 ≤ n → n ≤ questions sql → ∃ v ∈ captured text stored ('p' :: (toString n).toList), Web.trim v ∈ blankTexts

variable {tables text stored} {sql : List Char} {s : PlaceholderMatch × Nat} {key value : List Char}

theorem captured_some (found : captured text stored key = some value) : value ≠ [] := by
  rw [captured, Option.filter_eq_some_iff] at found
  exact of_decide_eq_true found.2

/-- A name that is not an object's own shows the value of the record. -/
theorem shown_own (own : ∀ record ∈ stored, record.lookup key = none → inherited key = none) :
    shown text stored key = (captured text stored key).getD [] := by
  cases stored with
  | none => rfl
  | some record =>
    simp only [shown, property, captured, Option.bind_some]
    cases found : record.lookup key with
    | none => simp [own record rfl found]
    | some v =>
      simp only [Option.bind_some]
      cases text v with
      | none => rfl
      | some value => by_cases empty : value = [] <;> simp [empty, Option.filter]

theorem captured_none (own : ∀ record ∈ stored, record.lookup key = none → inherited key = none) :
    shown text stored key = [] ↔ captured text stored key = none := by
  rw [shown_own own]
  cases found : captured text stored key with
  | none => simp
  | some value => simp [captured_some found]

theorem members_free : ∀ key ∈ protoKey :: "constructor".toList :: objectMethods, ∀ f ∈ inherited key,
    f ≠ [] ∧ '$' ∉ f ∧ ':' ∉ f ∧ '@' ∉ f := by
  decide +kernel

theorem inherited_member {f : List Char} (found : inherited key = some f) :
    key ∈ protoKey :: "constructor".toList :: objectMethods := by
  simp only [List.mem_cons]
  by_contra other
  simp only [not_or] at other
  rw [inherited, if_neg other.1, if_neg other.2.1, if_neg other.2.2] at found
  cases found

theorem inherited_number (n : Nat) : inherited ('p' :: (toString n).toList) = none := by
  have apart : ∀ key ∈ protoKey :: "constructor".toList :: objectMethods, key.head? ≠ some 'p' ∨ 'r' ∈ key.tail := by decide
  have digits : (toString n).toList = Nat.toDigits 10 n := String.toList_ofList
  cases found : inherited ('p' :: (toString n).toList) with
  | none => rfl
  | some f =>
    rcases apart _ (inherited_member found) with other | letter
    · exact absurd rfl other
    · rw [List.tail_cons, digits] at letter
      exact absurd (Nat.isDigit_of_mem_toDigits (by decide) (by decide) letter) (by decide)

theorem number_own (n : Nat) : ∀ record ∈ stored, record.lookup ('p' :: (toString n).toList) = none →
    inherited ('p' :: (toString n).toList) = none :=
  fun _ _ _ => inherited_number n

theorem question_slot (slot : s ∈ slots sql) (question : s.1.token = ['?']) :
    1 ≤ s.2 ∧ s.2 ≤ questions sql ∧ slotKey s = 'p' :: (toString s.2).toList := by
  have bounds := (mem_numberSlots slot).2 question
  rw [Nat.zero_add] at bounds
  refine ⟨bounds.1, bounds.2, ?_⟩
  simp [slotKey, question]

theorem slot_question {n : Nat} (least : 1 ≤ n) (most : n ≤ questions sql) : ∃ s ∈ slots sql, s.1.token = ['?'] ∧ s.2 = n := by
  rw [← Nat.zero_add (questions sql)] at most
  obtain ⟨m, question, member⟩ := numberSlots_covers least most
  exact ⟨(m, n), member, question, rfl⟩

/-- A slot with a name of its own that shows its own value is filled with it. -/
theorem filling_own (slot : s ∈ slots sql) (other : s.1.token ≠ ['?'])
    (own : ∀ record ∈ stored, record.lookup (slotKey s) = none → inherited (slotKey s) = none) :
    filling tables text stored sql s = capturedFill tables text stored s := by
  rw [filling_named slot other, shown_own own, capturedFill]
  cases found : captured text stored (slotKey s) with
  | none => rfl
  | some value => exact if_neg (captured_some found)

variable (tables text) in
/-- One that shows an object's member is filled with that. -/
theorem filling_member (slot : s ∈ slots sql) (other : s.1.token ≠ ['?']) {record : Dict (List Char) Value}
    (there : stored = some record) (none_ : record.lookup (slotKey s) = none) {f : List Char} (member : inherited (slotKey s) = some f) :
    filling tables text stored sql s = formatValue tables f ∧ capturedFill tables text stored s = s.1.token := by
  have shows : shown text stored (slotKey s) = f := by
    simp only [there, shown, property, none_, member, Option.getD_some]
  have nothing : captured text stored (slotKey s) = none := by
    simp only [captured, there, Option.bind_some, none_, Option.bind_none, Option.filter_none]
  have some_ := (members_free _ (inherited_member member) f member).1
  rw [filling_named slot other, shows, if_neg some_, capturedFill, nothing]
  exact ⟨rfl, rfl⟩

/-- Question marks without a value stay. -/
theorem questions_kept (none_ : ∀ n, 1 ≤ n → n ≤ questions sql → captured text stored ('p' :: (toString n).toList) = none)
    (slot : s ∈ slots sql) (question : s.1.token = ['?']) :
    filling tables text stored sql s = capturedFill tables text stored s := by
  obtain ⟨least, most, key⟩ := question_slot slot question
  rw [filling_question_none question fun n least most => (captured_none (number_own n)).mpr (none_ n least most),
    capturedFill, key, none_ s.2 least most, question]

/-- As soon as one has a value, all of them are filled with the empty literal. -/
theorem questions_emptied {n : Nat} (least : 1 ≤ n) (most : n ≤ questions sql)
    (some_ : captured text stored ('p' :: (toString n).toList) ≠ none) (question : s.1.token = ['?']) :
    filling tables text stored sql s = ['\'', '\''] := by
  rw [filling_question question least most fun nothing => some_ ((captured_none (number_own n)).mp nothing)]
  exact formatValue_empty.mpr (by decide)

theorem Fillable.fills (fillable : Fillable text stored sql) :
    fillCapturedParams tables text sql stored = fillSlots sql (capturedFill tables text stored) := by
  rw [fill_slots]
  apply fillSlots_congr
  intro s slot
  by_cases question : s.1.token = ['?']
  · rcases fillable.questions with none_ | blank
    · exact questions_kept none_ slot question
    · obtain ⟨least, most, key⟩ := question_slot slot question
      obtain ⟨value, found, blank⟩ := blank s.2 least most
      rw [questions_emptied least most (by rw [found]; exact Option.some_ne_none value) question, capturedFill, key,
        Option.mem_def.mp found]
      exact (formatValue_empty.mpr blank).symm
  · exact filling_own slot question (fillable.own s slot question)

/-- A slot that is filled with something else is filled with an object's member in the place of its token, or with the empty
    literal. -/
theorem filling_cases (slot : s ∈ slots sql) :
    filling tables text stored sql s = capturedFill tables text stored s ∨
      (s.1.token ≠ ['?'] ∧ capturedFill tables text stored s = s.1.token ∧
        ∃ f, inherited (slotKey s) = some f ∧ filling tables text stored sql s = formatValue tables f) ∨
      filling tables text stored sql s = ['\'', '\''] := by
  by_cases question : s.1.token = ['?']
  · by_cases none_ : ∀ n, 1 ≤ n → n ≤ questions sql → captured text stored ('p' :: (toString n).toList) = none
    · exact .inl (questions_kept none_ slot question)
    · push Not at none_
      obtain ⟨n, least, most, some_⟩ := none_
      exact .inr (.inr (questions_emptied least most some_ question))
  · by_cases own : ∀ record ∈ stored, record.lookup (slotKey s) = none → inherited (slotKey s) = none
    · exact .inl (filling_own slot question own)
    · push Not at own
      obtain ⟨record, there, none_, some_⟩ := own
      obtain ⟨f, member⟩ := Option.ne_none_iff_exists'.mp some_
      obtain ⟨code, spec⟩ := filling_member tables text slot question there none_ member
      exact .inr (.inl ⟨question, spec, f, member, code⟩)

theorem sign_mark (slot : s ∈ slots sql) (other : s.1.token ≠ ['?']) : ∃ x, (x = '$' ∨ x = ':' ∨ x = '@') ∧ x ∈ s.1.token := by
  have sign := (scanFrom_signs _ _ _ s.1 (mem_numberSlots slot).1).resolve_right other
  cases shape : s.1.token with
  | nil => simp [shape] at sign
  | cons c name =>
    refine ⟨c, ?_, List.mem_cons_self⟩
    simpa [shape] using sign

theorem mark_free {f : List Char} (member : inherited key = some f) {x : Char} (mark : x = '$' ∨ x = ':' ∨ x = '@') :
    x ∉ formatValue tables f := by
  obtain ⟨-, dollar, colon, at_⟩ := members_free _ (inherited_member member) f member
  rcases mark with rfl | rfl | rfl
  · exact formatValue_free (by decide) (by decide) dollar
  · exact formatValue_free (by decide) (by decide) colon
  · exact formatValue_free (by decide) (by decide) at_

/-- Where the text is as it should be, no slot is filled with an object's member. -/
theorem own_of_fills (same : fillCapturedParams tables text sql stored = fillSlots sql (capturedFill tables text stored)) :
    ∀ s ∈ slots sql, s.1.token ≠ ['?'] → ∀ record ∈ stored, record.lookup (slotKey s) = none → inherited (slotKey s) = none := by
  intro s slot other record there none_
  by_contra some_
  obtain ⟨f, member⟩ := Option.ne_none_iff_exists'.mp some_
  obtain ⟨code, spec⟩ := filling_member tables text slot other there none_ member
  obtain ⟨x, mark, inToken⟩ := sign_mark slot other
  have most : ∀ s ∈ slots sql,
      (filling tables text stored sql s).count x ≤ (capturedFill tables text stored s).count x := by
    intro s slot
    rcases filling_cases slot with equal | ⟨-, -, f, member, code⟩ | empty
    · rw [equal]
    · rw [code, List.count_eq_zero_of_not_mem (mark_free member mark)]
      exact Nat.zero_le _
    · have absent : x ∉ ['\'', '\''] := by rcases mark with rfl | rfl | rfl <;> decide
      rw [empty, List.count_eq_zero_of_not_mem absent]
      exact Nat.zero_le _
  have counts := counts_eq ((fill_slots tables text stored sql).symm.trans same) most s slot
  rw [code, spec, List.count_eq_zero_of_not_mem (mark_free member mark)] at counts
  exact List.count_eq_zero.mp counts.symm inToken

/-- Nor is a question mark filled with the empty literal in the place of anything else. -/
theorem questions_of_fills (same : fillCapturedParams tables text sql stored = fillSlots sql (capturedFill tables text stored)) :
    (∀ n, 1 ≤ n → n ≤ questions sql → captured text stored ('p' :: (toString n).toList) = none) ∨
      ∀ n, 1 ≤ n → n ≤ questions sql → ∃ v ∈ captured text stored ('p' :: (toString n).toList), Web.trim v ∈ blankTexts := by
  rw [or_iff_not_imp_left]
  intro some_
  push Not at some_
  obtain ⟨n, least, most, some_⟩ := some_
  have own := own_of_fills same
  have weaves := (fill_slots tables text stored sql).symm.trans same
  have cases_ : ∀ s ∈ slots sql, filling tables text stored sql s = capturedFill tables text stored s ∨
      (s.1.token = ['?'] ∧ filling tables text stored sql s = ['\'', '\'']) := by
    intro s slot
    by_cases question : s.1.token = ['?']
    · exact .inr ⟨question, questions_emptied least most some_ question⟩
    · exact .inl (filling_own slot question (own s slot question))
  -- no other character than a quote can stand in the place of a question mark
  have quotes : ∀ s ∈ slots sql, s.1.token = ['?'] → ∀ c ∈ capturedFill tables text stored s, c = '\'' := by
    intro s slot question c member
    by_contra other
    have absent : c ∉ ['\'', '\''] := by simp [other]
    have fewer : ∀ s ∈ slots sql,
        (filling tables text stored sql s).count c ≤ (capturedFill tables text stored s).count c := by
      intro s slot
      rcases cases_ s slot with equal | ⟨-, empty⟩
      · rw [equal]
      · rw [empty, List.count_eq_zero_of_not_mem absent]
        exact Nat.zero_le _
    have counts := counts_eq weaves fewer s slot
    rw [questions_emptied least most some_ question, List.count_eq_zero_of_not_mem absent] at counts
    exact List.count_eq_zero.mp counts.symm member
  have valued : ∀ s ∈ slots sql, s.1.token = ['?'] → ∃ v, captured text stored (slotKey s) = some v ∧
      capturedFill tables text stored s = formatValue tables v := by
    intro s slot question
    cases found : captured text stored (slotKey s) with
    | none =>
      have token : capturedFill tables text stored s = ['?'] := by rw [capturedFill, found, question]
      exact absurd (quotes s slot question '?' (by rw [token]; exact List.mem_cons_self)) (by decide)
    | some v => exact ⟨v, rfl, by rw [capturedFill, found]⟩
  have all_quotes : ∀ s ∈ slots sql, s.1.token = ['?'] →
      (capturedFill tables text stored s).count '\'' = (capturedFill tables text stored s).length :=
    fun s slot question => List.count_eq_length.mpr fun c member => (quotes s slot question c member).symm
  have long : ∀ s ∈ slots sql, s.1.token = ['?'] → 2 ≤ (capturedFill tables text stored s).count '\'' := by
    intro s slot question
    obtain ⟨v, -, formatted⟩ := valued s slot question
    have every := quotes s slot question
    rw [all_quotes s slot question]
    rw [formatted] at every ⊢
    exact formatValue_quotes every
  have fewer : ∀ s ∈ slots sql,
      (filling tables text stored sql s).count '\'' ≤ (capturedFill tables text stored s).count '\'' := by
    intro s slot
    rcases cases_ s slot with equal | ⟨question, empty⟩
    · rw [equal]
    · rw [empty]
      exact long s slot question
  intro k least' most'
  obtain ⟨s, slot, question, rfl⟩ := slot_question least' most'
  obtain ⟨-, -, key⟩ := question_slot slot question
  obtain ⟨v, found, formatted⟩ := valued s slot question
  have counts := counts_eq weaves fewer s slot
  rw [questions_emptied least most some_ question, all_quotes s slot question] at counts
  have literal : capturedFill tables text stored s = ['\'', '\''] :=
    List.eq_replicate_iff.mpr ⟨counts.symm, quotes s slot question⟩
  rw [key] at found
  exact ⟨v, found, formatValue_empty.mp (formatted.symm.trans literal)⟩

theorem fillable_iff : fillCapturedParams tables text sql stored = fillSlots sql (capturedFill tables text stored) ↔
    Fillable text stored sql :=
  ⟨fun same => ⟨own_of_fills same, questions_of_fills same⟩, Fillable.fills⟩

end Own

section Round

/-- The value that is entered for a key, where it is not blank. -/
def given (values : Dict (List Char) (List Char)) (key : List Char) : Option (List Char) :=
  (values.lookup key).filter fun value => Web.trim value ≠ []

/-- Slots with one name in the store have one value, and one that is called `__proto__` has none but what an object shows
    there. -/
structure Apart (sql : List Char) (values : Dict (List Char) (List Char)) : Prop where
  names : ∀ s ∈ slots sql, ∀ t ∈ slots sql, slotKey s = slotKey t →
    ∀ v ∈ given values (valueKey s), ∀ w ∈ given values (valueKey t), v = w
  proto : ∀ s ∈ slots sql, slotKey s = protoKey → ∀ v ∈ given values (valueKey s), v = "[object Object]".toList

variable {sql : List Char} {values : Dict (List Char) (List Char)}

theorem inherited_value {s : PlaceholderMatch × Nat} (slot : s ∈ slots sql) : inherited (valueKey s) = none := by
  have apart : ∀ key ∈ protoKey :: "constructor".toList :: objectMethods,
      key.head? ≠ some '?' ∧ key.head? ≠ some '$' ∧ key.head? ≠ some ':' ∧ key.head? ≠ some '@' := by decide
  cases found : inherited (valueKey s) with
  | none => rfl
  | some f =>
    obtain ⟨question, dollar, colon, at_⟩ := apart _ (inherited_member found)
    rw [valueKey] at question dollar colon at_
    split at question
    · exact absurd rfl question
    · rename_i other
      rw [if_neg other] at dollar colon at_
      rcases (scanFrom_signs _ _ _ s.1 (mem_numberSlots slot).1).resolve_right other with sign | sign | sign
      · exact absurd sign dollar
      · exact absurd sign colon
      · exact absurd sign at_

variable (values) in
/-- A parameter that is listed is that of a slot. -/
theorem parameter_slot {p : Parameter} (member : p ∈ detectParameters sql) :
    ∃ s ∈ slots sql, toBackendParamKey p = slotKey s ∧ entered values p = given values (valueKey s) := by
  obtain ⟨s, slot, token, number⟩ : ∃ s ∈ slots sql, p.placeholder = s.1.token ∧ (s.1.token = ['?'] → p.index = s.2) := by
    by_cases question : p.placeholder = ['?']
    · obtain ⟨least, most⟩ := detect_question member question
      obtain ⟨s, slot, token, number⟩ := slot_question least most
      exact ⟨s, slot, question.trans token.symm, fun _ => number.symm⟩
    · obtain ⟨m, found, token⟩ := (detect_typed member).found
      obtain ⟨n, slot⟩ := @exists_slot 0 _ _ found
      exact ⟨(m, n), slot, token.symm, fun same => absurd (token.symm.trans same) question⟩
  refine ⟨s, slot, backendKey_slot member slot token number, ?_⟩
  have key : parameterValueKey p = valueKey s := by
    rw [parameterValueKey, valueKey, token]
    by_cases question : s.1.token = ['?']
    · rw [if_pos question, if_pos question, number question]
    · rw [if_neg question, if_neg question]
  rw [entered, key, property, inherited_value slot, given]
  cases values.lookup (valueKey s) <;> rfl

variable (values) in
theorem slot_parameter {s : PlaceholderMatch × Nat} (slot : s ∈ slots sql) :
    ∃ p ∈ detectParameters sql, toBackendParamKey p = slotKey s ∧ entered values p = given values (valueKey s) := by
  obtain ⟨p, member, token, number⟩ :
      ∃ p ∈ detectParameters sql, p.placeholder = s.1.token ∧ (s.1.token = ['?'] → p.index = s.2) := by
    by_cases question : s.1.token = ['?']
    · obtain ⟨least, most, -⟩ := question_slot slot question
      obtain ⟨p, member, placeholder, index⟩ := question_listed least most
      exact ⟨p, member, placeholder.trans question.symm, fun _ => index⟩
    · obtain ⟨p, member, token⟩ := token_listed (mem_numberSlots slot).1 question
      exact ⟨p, member, token, fun same => absurd same question⟩
  refine ⟨p, member, backendKey_slot member slot token number, ?_⟩
  have key : parameterValueKey p = valueKey s := by
    rw [parameterValueKey, valueKey, token]
    by_cases question : s.1.token = ['?']
    · rw [if_pos question, if_pos question, number question]
    · rw [if_neg question, if_neg question]
  rw [entered, key, property, inherited_value slot, given]
  cases values.lookup (valueKey s) <;> rfl

/-- What is resolved depends on the name in the store alone. -/
theorem resolve_key {p q : Parameter} (same : toBackendParamKey p = toBackendParamKey q) (stored : Option (Dict (List Char) (List Char))) :
    resolveInitialValue some p stored = resolveInitialValue some q stored := by
  rw [resolve_shown, resolve_shown, same]

theorem proto_shown (parameters : List Parameter) :
    shown some (some (toBackendParams parameters values)) protoKey = "[object Object]".toList := by
  have looked := @assigned_proto _ parameters toBackendParamKey (entered values) ∅
  have none_ : (toBackendParams parameters values).lookup protoKey = none := looked
  rw [shown, property, none_]
  rfl

theorem comes_back_iff : (∀ p ∈ detectParameters sql, ∀ v ∈ entered values p,
      resolveInitialValue some p (some (toBackendParams (detectParameters sql) values)) = v) ↔ Apart sql values := by
  constructor
  · intro back
    constructor
    · intro s first t second same v shows w shows'
      obtain ⟨p, listed, key, value⟩ := slot_parameter values first
      obtain ⟨q, listed', key', value'⟩ := slot_parameter values second
      rw [← back p listed v (by rw [value]; exact shows), ← back q listed' w (by rw [value']; exact shows')]
      exact resolve_key (key.trans (same.trans key'.symm)) _
    · intro s slot proto v shows
      obtain ⟨p, listed, key, value⟩ := slot_parameter values slot
      rw [← back p listed v (by rw [value]; exact shows), resolve_shown, key, proto, proto_shown]
  · intro apart p listed v shows
    obtain ⟨s, slot, key, value⟩ := parameter_slot values listed
    rw [value] at shows
    rw [resolve_shown, key]
    by_cases proto : slotKey s = protoKey
    · rw [proto, proto_shown, apart.proto s slot proto v shows]
    · have looked := @assigned_lookup _ (detectParameters sql) toBackendParamKey (entered values) (slotKey s) v proto
        (by
          intro q listed' same w shows'
          obtain ⟨t, slot', key', value'⟩ := parameter_slot values listed'
          rw [value'] at shows'
          exact apart.names t slot' s slot (key'.symm.trans same) w shows' v shows) ∅
      rw [if_pos ⟨p, listed, key, by rw [value, Option.mem_def.mp shows]; exact Option.some_ne_none v⟩] at looked
      have there : (toBackendParams (detectParameters sql) values).lookup (slotKey s) = some v := looked
      rw [shown, property, there]
      rfl

end Round

section Claims

/-- When each value that is stored fills its own slot and nothing else changes, and when each value that is entered comes back
    to its placeholder. -/
theorem captured_values_iff (tables : Tables) {Value : Type} (text : Value → Option (List Char))
    (stored : Option (Dict (List Char) Value)) (sql : List Char) :
    (fillCapturedParams tables text sql stored = fillSlots sql (capturedFill tables text stored) ↔ Fillable text stored sql) ∧
      ∀ values, (∀ p ∈ detectParameters sql, ∀ v ∈ entered values p,
        resolveInitialValue some p (some (toBackendParams (detectParameters sql) values)) = v) ↔ Apart sql values :=
  ⟨fillable_iff, fun _ => comes_back_iff⟩

def twoValues : Dict (List Char) (List Char) :=
  ((∅ : Dict (List Char) (List Char)).insert "p1".toList "5".toList).insert "p2".toList "Alice".toList

theorem question_values_lost :
    fillCapturedParams asciiTables some "a = ? AND b = ?".toList (some twoValues) = "a = '' AND b = ''".toList ∧
      fillSlots "a = ? AND b = ?".toList (capturedFill asciiTables some (some twoValues)) = "a = 5 AND b = 'Alice'".toList := by
  decide +kernel

end Claims

end Rdst.Web.SqlParameters
