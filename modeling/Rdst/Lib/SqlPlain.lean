import Rdst.Lib.SqlPieces

/-! How a text without quotes and comments is read. -/

namespace SqlLexer

/-- The word that a run is, if there is one. -/
def word (run : List Char) : List Token := if run = [] then [] else [.word run.reverse]

/-- A name goes on with the character; a dollar begins none. -/
def joins (run : List Char) (c : Char) : Bool := inName c && (c != '$' || run ≠ [])

/-- The words and symbols of a text, after a run. -/
def plain : List Char → List Char → List Token
  | run, [] => word run
  | run, c :: rest => if joins run c then plain (c :: run) rest else word run ++ mark c ++ plain [] rest

section Plain

theorem word_some {run : List Char} (some_ : run ≠ []) : word run = [.word run.reverse] := if_neg some_

theorem joins_inName {run : List Char} {c : Char} (joined : joins run c = true) : inName c = true := by
  rw [joins, Bool.and_eq_true] at joined
  exact joined.1

theorem joins_some {run : List Char} (some_ : run ≠ []) (c : Char) : joins run c = inName c := by
  simp [joins, some_]

/-- A run ends where the text goes on with no name. -/
theorem plain_apart (run : List Char) {text : List Char} (apart : ∀ c ∈ text.head?, inName c = false) :
    plain run text = word run ++ plain [] text := by
  cases text with
  | nil => simp [plain, word]
  | cons c rest =>
    have outside := apart c rfl
    have both : ∀ run, joins run c = false := fun run => by simp [joins, outside]
    simp [plain, both, word]

/-- The first word of a text is what its leading name is. -/
theorem plain_run {run text back : List Char} {tokens : List Token} (some_ : run ≠ [])
    (read : plain run text = .word back :: tokens) : ∃ more after, text = more ++ after ∧ back = run.reverse ++ more ∧
      (∀ c ∈ after.head?, inName c = false) ∧ plain [] after = tokens ∧ ∀ c ∈ more, inName c = true := by
  induction text generalizing run with
  | nil =>
    rw [plain, word_some some_] at read
    cases read
    exact ⟨[], [], rfl, by simp, by simp, by simp [plain, word], by simp⟩
  | cons c rest ih =>
    rw [plain, joins_some some_] at read
    cases inside : inName c with
    | true =>
      rw [inside, if_pos rfl] at read
      obtain ⟨more, after, split, same, apart, left, names⟩ := ih (by simp) read
      refine ⟨c :: more, after, by rw [split]; rfl, by rw [same]; simp, apart, left, ?_⟩
      intro x member
      rcases List.mem_cons.mp member with rfl | later
      · exact inside
      · exact names x later
    | false =>
      rw [inside, if_neg (by simp), word_some some_, List.append_assoc, List.singleton_append, List.cons.injEq] at read
      obtain ⟨same, left⟩ := read
      cases same
      refine ⟨[], c :: rest, rfl, by simp, by simpa using inside, ?_, by simp⟩
      rw [← left, plain]
      simp [joins, inside, word]

/-- Before the first word of a text stand blanks only. -/
theorem plain_first {text back : List Char} {tokens : List Token} (read : plain [] text = .word back :: tokens) :
    ∃ gap after, text = gap ++ (back ++ after) ∧ (∀ c ∈ gap, isBlank c = true) ∧ (∀ c ∈ after.head?, inName c = false) ∧
      plain [] after = tokens ∧ back ≠ [] ∧ ∀ c ∈ back, inName c = true := by
  induction text with
  | nil => cases read
  | cons c rest ih =>
    rw [plain] at read
    cases joined : joins [] c with
    | true =>
      rw [joined, if_pos rfl] at read
      obtain ⟨more, after, split, same, apart, left, names⟩ := plain_run (by simp) read
      refine ⟨[], after, by rw [split, same]; simp, by simp, apart, left, by simp [same], ?_⟩
      intro x member
      rw [same] at member
      rcases List.mem_append.mp member with first | later
      · rw [List.mem_singleton.mp first]
        exact joins_inName joined
      · exact names x later
    | false =>
      rw [joined, if_neg (by simp)] at read
      cases blank : isBlank c with
      | true =>
        have rest_read : plain [] rest = .word back :: tokens := by simpa [word, mark, blank] using read
        obtain ⟨gap, after, split, blanks, apart, left, some_, names⟩ := ih rest_read
        refine ⟨c :: gap, after, by rw [split]; rfl, ?_, apart, left, some_, names⟩
        intro x member
        rcases List.mem_cons.mp member with rfl | later
        · exact blank
        · exact blanks x later
      | false => simp [word, mark, blank] at read

theorem joins_fewer {run : List Char} {c : Char} (apart : joins run c = false) : joins [] c = false := by
  simp only [joins, Bool.and_eq_false_iff, Bool.or_eq_false_iff, bne_eq_false_iff_eq] at apart ⊢
  rcases apart with outside | ⟨dollar, -⟩
  · exact .inl outside
  · exact .inr ⟨dollar, by simp⟩

/-- The token is the word that a run belongs to, or it stands in the text. -/
theorem plain_stands {run text : List Char} {front back : List Token} {token : Token}
    (read : plain run text = front ++ token :: back) :
    (run ≠ [] ∧ front = [] ∧ plain run text = token :: back) ∨
      ∃ before after, text = before ++ after ∧ plain [] after = token :: back ∧
        ∀ c ∈ (run.reverse ++ before).getLast?, ∀ w, token = .word w → ¬ InWord c := by
  induction text generalizing run front with
  | nil =>
    left
    by_cases empty : run = []
    · simp [plain, word, empty] at read
    · rw [plain, word_some empty] at read ⊢
      cases front with
      | nil => exact ⟨empty, rfl, read⟩
      | cons first front => simp at read
  | cons c rest ih =>
    cases joined : joins run c with
    | true =>
      have longer : plain run (c :: rest) = plain (c :: run) rest := by rw [plain, joined, if_pos rfl]
      rcases ih (longer ▸ read) with ⟨-, first, own⟩ | ⟨before, after, split, own, edge⟩
      · by_cases empty : run = []
        · subst empty
          exact .inr ⟨[], c :: rest, rfl, longer.trans own, by simp⟩
        · exact .inl ⟨empty, first, longer.trans own⟩
      · refine .inr ⟨c :: before, after, by rw [split]; rfl, own, ?_⟩
        simpa using edge
    | false =>
      have fewer := joins_fewer joined
      have here : plain [] (c :: rest) = mark c ++ plain [] rest := by simp [plain, fewer, word]
      have longer : plain run (c :: rest) = word run ++ plain [] (c :: rest) := by
        rw [here, plain, joined, if_neg (by simp), List.append_assoc]
      rw [longer] at read ⊢
      by_cases own : run ≠ [] ∧ front = []
      · left
        refine ⟨own.1, own.2, ?_⟩
        rwa [own.2] at read
      · right
        obtain ⟨front', same, left⟩ : ∃ front', front = word run ++ front' ∧ plain [] (c :: rest) = front' ++ token :: back := by
          by_cases empty : run = []
          · exact ⟨front, by simp [word, empty], by simpa [word, empty] using read⟩
          · rw [word_some empty] at read ⊢
            cases front with
            | nil => exact absurd ⟨empty, rfl⟩ own
            | cons first front =>
              rw [List.singleton_append, List.cons_append, List.cons.injEq] at read
              exact ⟨front, by rw [read.1]; rfl, read.2⟩
        clear read longer same own
        rw [here] at left
        by_cases marked : front' = [] ∧ isBlank c = false
        · obtain ⟨rfl, symbol⟩ := marked
          refine ⟨[], c :: rest, rfl, here.trans left, ?_⟩
          intro x _ w shape
          rw [mark, symbol, if_neg (by simp), shape] at left
          cases left
        · obtain ⟨front'', later⟩ : ∃ front'', plain [] rest = front'' ++ token :: back := by
            cases blank : isBlank c with
            | true => exact ⟨front', by simpa [mark, blank] using left⟩
            | false =>
              rw [mark, blank, if_neg (by simp)] at left
              cases front' with
              | nil => exact absurd ⟨rfl, blank⟩ marked
              | cons first front' =>
                rw [List.singleton_append, List.cons_append, List.cons.injEq] at left
                exact ⟨front', left.2⟩
          rcases ih later with ⟨none_, -⟩ | ⟨before, after, split, read, edge⟩
          · exact absurd rfl none_
          · refine ⟨c :: before, after, by rw [split]; rfl, read, ?_⟩
            intro x last w shape
            cases before with
            | nil =>
              have same : c = x := by simpa using last
              subst same
              rintro ⟨inside, dollar⟩
              simp [joins, inside, dollar] at fewer
            | cons y before => exact edge x (by simpa using last) w shape

theorem blank_apart {c : Char} (blank : isBlank c = true) : ¬ InWord c := by
  simp only [isBlank, Bool.or_eq_true, Bool.and_eq_true, beq_iff_eq, decide_eq_true_eq] at blank
  rintro ⟨inside, -⟩
  simp only [inName, startsName, Bool.or_eq_true, beq_iff_eq, decide_eq_true_eq, Letters.isAlpha_eq, Letters.isUpper_eq, Letters.isLower_eq,
    Char.isDigit, Bool.and_eq_true] at inside
  have small : c.toNat ≤ 32 := by
    rcases blank with rfl | range
    · decide
    · omega
  rcases inside with ((((upper | lower) | rfl) | high) | digit) | rfl
  · have least := UInt32.le_iff_toNat_le.mp upper.1
    have : c.val.toNat = c.toNat := rfl
    have bound : 'A'.val.toNat = 65 := rfl
    omega
  · have least := UInt32.le_iff_toNat_le.mp lower.1
    have : c.val.toNat = c.toNat := rfl
    have bound : 'a'.val.toNat = 97 := rfl
    omega
  · exact absurd small (by decide)
  · omega
  · have least := UInt32.le_iff_toNat_le.mp digit.1
    have : c.val.toNat = c.toNat := rfl
    have bound : '0'.val.toNat = 48 := rfl
    omega
  · exact absurd small (by decide)

/-- A word that is read stands in the text as a whole one. -/
theorem plain_word {text back : List Char} {front tokens : List Token} (read : plain [] text = front ++ .word back :: tokens) :
    ∃ before after, text = before ++ (back ++ after) ∧ (∀ c ∈ before.getLast?, ¬ InWord c) ∧
      (∀ c ∈ after.head?, inName c = false) ∧ plain [] after = tokens ∧ back ≠ [] ∧ ∀ c ∈ back, inName c = true := by
  rcases plain_stands read with ⟨none_, -⟩ | ⟨before, after, split, own, edge⟩
  · exact absurd rfl none_
  · obtain ⟨gap, rest, split', blanks, apart, left, some_, names⟩ := plain_first own
    refine ⟨before ++ gap, rest, by rw [split, split', List.append_assoc], ?_, apart, left, some_, names⟩
    intro c last
    rcases List.eq_nil_or_concat gap with rfl | ⟨init, x, rfl⟩
    · exact edge c (by simpa using last) back rfl
    · have same : x = c := by simpa using last
      exact same ▸ blank_apart (blanks x (by simp))

theorem plain_starts (text : List Char) {run : List Char} (some_ : run ≠ []) :
    ∃ w others, plain run text = .word w :: others := by
  induction text generalizing run with
  | nil => exact ⟨_, [], by rw [plain, word_some some_]⟩
  | cons c rest ih =>
    rw [plain]
    split
    · exact ih (by simp)
    · exact ⟨_, _, by rw [word_some some_]; rfl⟩

theorem plain_symbol {text : List Char} {front tokens : List Token} {c : Char}
    (read : plain [] text = front ++ .symbol c :: tokens) :
    ∃ before after, text = before ++ c :: after ∧ plain [] after = tokens := by
  rcases plain_stands read with ⟨none_, -⟩ | ⟨before, after, split, own, -⟩
  · exact absurd rfl none_
  · clear read
    subst split
    induction after generalizing before with
    | nil => cases own
    | cons x rest ih =>
      rw [plain] at own
      cases joined : joins [] x with
      | true =>
        -- A name is read as a word.
        rw [joined, if_pos rfl] at own
        obtain ⟨w, others, shape⟩ := plain_starts rest (List.cons_ne_nil x [])
        rw [shape] at own
        cases own
      | false =>
        rw [joined, if_neg (by simp)] at own
        cases blank : isBlank x with
        | true =>
          obtain ⟨early, late, split, left⟩ := ih (before ++ [x]) (by simpa [word, mark, blank] using own)
          exact ⟨early, late, by simpa using split, left⟩
        | false =>
          simp only [word, mark, blank, if_true, Bool.false_eq_true, if_false, List.nil_append, List.singleton_append,
            List.cons.injEq, Token.symbol.injEq] at own
          exact ⟨before, rest, by rw [own.1], own.2⟩

end Plain

end SqlLexer
