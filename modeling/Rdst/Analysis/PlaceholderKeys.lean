import Rdst.Analysis.Placeholders
import Rdst.Web.SqlSlots

namespace Rdst.Analysis.Placeholders

open PyText Regex Web.SqlParameters

/-- The server and the client report the same keys. -/
def Agree (tables : Tables) (sql : List Char) : Prop :=
  ∃ found, enumeratePlaceholders tables sql = .ok found ∧
    ∀ key, key ∈ found.map Placeholder.key ↔ key ∈ (detectParameters sql).map parameterValueKey

/-- The whole text spells to the server what its code spells to the client. -/
structure SameSlots (tables : Tables) (sql : List Char) : Prop where
  short : ∀ token ∈ (dollarNumber tables).spellings none sql, token.tail.length ≤ 4300
  numbers : ∀ token, token ∈ (dollarNumber tables).spellings none sql ↔ token ∈ numberSlot.spellings none (code sql)
  questions : (unstrung none sql).count '?' = (code sql).count '?'
  names : ∀ token, token ∈ (colonName tables).spellings none sql ↔ token ∈ nameSlot.spellings none (code sql)

theorem questionKey_injective {a b : Nat} (same : Placeholders.questionKey a = Placeholders.questionKey b) : a = b := by
  have digits : ∀ n : Nat, (toString n).toList = Nat.toDigits 10 n := fun n => String.toList_ofList
  simp only [Placeholders.questionKey, List.cons.injEq, true_and, digits] at same
  have read := congrArg (fun text => Nat.ofDigitChars 10 text 0) same
  simpa only [Nat.ofDigitChars_toDigits (by decide : 1 < 10) (by decide)] using read

/-- As many question marks are numbered where the same keys are. -/
theorem questions_agree_iff {a b : Nat} :
    (∀ k, (∃ n, 1 ≤ n ∧ n ≤ a ∧ k = Placeholders.questionKey n) ↔ ∃ n, 1 ≤ n ∧ n ≤ b ∧ k = Placeholders.questionKey n) ↔
      a = b := by
  constructor
  · intro same
    have within : ∀ c d : Nat, (∀ k, (∃ n, 1 ≤ n ∧ n ≤ c ∧ k = Placeholders.questionKey n) →
        ∃ n, 1 ≤ n ∧ n ≤ d ∧ k = Placeholders.questionKey n) → c ≤ d := by
      intro c d goes
      by_contra fewer
      obtain ⟨n, -, most, key⟩ := goes _ ⟨c, by omega, le_refl c, rfl⟩
      have number := questionKey_injective key
      omega
    have first := within a b fun k => (same k).mp
    have second := within b a fun k => (same k).mpr
    omega
  · rintro rfl k
    exact Iff.rfl

/-- Where no key is of two kinds, the keys of each kind agree. -/
theorem kind_agree {kind others kind' others' : List Char → Prop} (same : ∀ k, kind k ∨ others k ↔ kind' k ∨ others' k)
    (apart : ∀ k, kind k ∨ kind' k → ¬ (others k ∨ others' k)) (k : List Char) : kind k ↔ kind' k := by
  constructor
  · intro here
    exact ((same k).mp (.inl here)).resolve_right fun other => apart k (.inl here) (.inr other)
  · intro here
    exact ((same k).mpr (.inl here)).resolve_right fun other => apart k (.inr here) (.inl other)

/-- Keys that begin with different marks agree mark by mark. -/
theorem marks_agree_iff {numbers questions names numbers' questions' names' : List Char → Prop}
    (dollar : ∀ k, numbers k ∨ numbers' k → k.head? = some '$')
    (question : ∀ k, questions k ∨ questions' k → k.head? = some '?')
    (named : ∀ k, names k ∨ names' k → k.head? = some ':' ∨ k.head? = some '@') :
    (∀ k, numbers k ∨ questions k ∨ names k ↔ numbers' k ∨ questions' k ∨ names' k) ↔
      (∀ k, numbers k ↔ numbers' k) ∧ (∀ k, questions k ↔ questions' k) ∧ ∀ k, names k ↔ names' k := by
  have dollar_question : ∀ k, numbers k ∨ numbers' k → ¬ (questions k ∨ questions' k) := by
    intro k number other
    have heads := (dollar k number).symm.trans (question k other)
    exact absurd heads (by decide)
  have dollar_name : ∀ k, numbers k ∨ numbers' k → ¬ (names k ∨ names' k) := by
    intro k number other
    have heads := dollar k number
    rcases named k other with head | head <;> exact absurd (heads.symm.trans head) (by decide)
  have question_name : ∀ k, questions k ∨ questions' k → ¬ (names k ∨ names' k) := by
    intro k mark other
    have heads := question k mark
    rcases named k other with head | head <;> exact absurd (heads.symm.trans head) (by decide)
  constructor
  · intro same
    have swapped : ∀ k, questions k ∨ numbers k ∨ names k ↔ questions' k ∨ numbers' k ∨ names' k :=
      fun k => or_left_comm.trans ((same k).trans or_left_comm)
    have rotated : ∀ k, names k ∨ numbers k ∨ questions k ↔ names' k ∨ numbers' k ∨ questions' k :=
      fun k => or_rotate.trans ((same k).trans or_rotate.symm)
    refine ⟨kind_agree same ?_, kind_agree swapped ?_, kind_agree rotated ?_⟩
    · rintro k number ((mark | name) | mark | name)
      · exact dollar_question k number (.inl mark)
      · exact dollar_name k number (.inl name)
      · exact dollar_question k number (.inr mark)
      · exact dollar_name k number (.inr name)
    · rintro k mark ((number | name) | number | name)
      · exact dollar_question k (.inl number) mark
      · exact question_name k mark (.inl name)
      · exact dollar_question k (.inr number) mark
      · exact question_name k mark (.inr name)
    · rintro k name ((number | mark) | number | mark)
      · exact dollar_name k (.inl number) name
      · exact question_name k (.inl mark) name
      · exact dollar_name k (.inr number) name
      · exact question_name k (.inr mark) name
  · rintro ⟨first, second, third⟩ k
    rw [first, second, third]

theorem dollar_head {tables : Tables} {sql text : List Char} (k : List Char)
    (member : k ∈ (dollarNumber tables).spellings none sql ∨ k ∈ numberSlot.spellings none text) : k.head? = some '$' := by
  rcases member with server | client
  · obtain ⟨c, head, mark⟩ := (dollarNumber tables).spellings_head server
    rw [Option.mem_def.mp head]
    simpa [dollarNumber] using mark
  · obtain ⟨c, head, mark⟩ := numberSlot.spellings_head client
    rw [Option.mem_def.mp head]
    simpa [numberSlot] using mark

theorem question_head {a b : Nat} (k : List Char)
    (member : (∃ n, 1 ≤ n ∧ n ≤ a ∧ k = Placeholders.questionKey n) ∨ ∃ n, 1 ≤ n ∧ n ≤ b ∧ k = Placeholders.questionKey n) :
    k.head? = some '?' := by
  rcases member with ⟨n, -, -, rfl⟩ | ⟨n, -, -, rfl⟩ <;> rfl

theorem name_head {tables : Tables} {sql text : List Char} (k : List Char)
    (member : k ∈ (colonName tables).spellings none sql ∨ k ∈ nameSlot.spellings none text) :
    k.head? = some ':' ∨ k.head? = some '@' := by
  rcases member with server | client
  · obtain ⟨c, head, mark⟩ := (colonName tables).spellings_head server
    rw [Option.mem_def.mp head]
    exact .inl (by simpa [colonName] using mark)
  · obtain ⟨c, head, mark⟩ := nameSlot.spellings_head client
    rw [Option.mem_def.mp head]
    simpa [nameSlot, or_iff_not_imp_left] using mark

theorem apart_of_key (key : List Char) {tables : Tables} {sql : List Char} {found : List Placeholder}
    (listed : enumeratePlaceholders tables sql = .ok found)
    (differ : ¬ (key ∈ found.map Placeholder.key ↔ key ∈ (detectParameters sql).map parameterValueKey)) :
    ¬ Agree tables sql := by
  rintro ⟨other, listed', same⟩
  rw [listed] at listed'
  cases listed'
  exact differ (same key)

end Rdst.Analysis.Placeholders
