import Mathlib.Data.List.Infix
import Mathlib.Data.List.Basic

/-! The `LIKE` of SQLite with its `ESCAPE`. -/

namespace Like

inductive Item
  | anyText
  | anyChar
  | char (c : Char)
deriving DecidableEq

/-- The items of a pattern, nothing where it ends in the escape character. -/
def items (escape : Char) : List Char → Option (List Item)
  | [] => some []
  | c :: rest =>
    if c = escape then
      match rest with
      | [] => none
      | x :: rest => (items escape rest).map (.char x :: ·)
    else
      (items escape rest).map ((if c = '%' then .anyText else if c = '_' then .anyChar else .char c) :: ·)

/-- Letters of ASCII match in either case. -/
def sameLetter (c d : Char) : Bool := c.toLower = d.toLower

def covers : List Item → List Char → Bool
  | [], text => text.isEmpty
  | .anyText :: rest, text => text.tails.any (covers rest)
  | .anyChar :: rest, _ :: text => covers rest text
  | .char c :: rest, d :: text => sameLetter c d && covers rest text
  | _, [] => false

def like (escape : Char) (pattern text : List Char) : Bool :=
  match items escape pattern with
  | none => false
  | some items => covers items text

def replace (c : Char) (by_ : List Char) (text : List Char) : List Char :=
  text.flatMap fun x => if x = c then by_ else [x]

/-- A text as a pattern of itself. -/
def escapeLike (text : List Char) : List Char :=
  replace '_' ['\\', '_'] (replace '%' ['\\', '%'] (replace '\\' ['\\', '\\'] text))

theorem toLower_toNat (c : Char) : c.toLower.toNat = if 65 ≤ c.toNat ∧ c.toNat ≤ 90 then c.toNat + 32 else c.toNat := by
  have bounds : (c.val ≥ 'A'.val ∧ c.val ≤ 'Z'.val) ↔ 65 ≤ c.toNat ∧ c.toNat ≤ 90 := by
    simp only [ge_iff_le, UInt32.le_iff_toNat_le]
    rfl
  unfold Char.toLower
  by_cases upper : 65 ≤ c.toNat ∧ c.toNat ≤ 90
  · rw [dif_pos (bounds.mpr upper), if_pos upper]
    have small : c.val.toNat ≤ 90 := upper.2
    show (c.val + 32).toNat = c.val.toNat + 32
    rw [UInt32.toNat_add]
    show (c.val.toNat + 32) % 2 ^ 32 = _
    omega
  · rw [dif_neg (fun inside => upper (bounds.mp inside)), if_neg upper]

theorem eq_of_toNat {c d : Char} (same : c.toNat = d.toNat) : c = d := Char.ext (UInt32.toNat_inj.mp same)

theorem toLower_toLower (c : Char) : c.toLower.toLower = c.toLower := by
  apply eq_of_toNat
  rw [toLower_toNat, toLower_toNat]
  by_cases upper : 65 ≤ c.toNat ∧ c.toNat ≤ 90
  · rw [if_pos upper, if_neg (by omega)]
  · rw [if_neg upper, if_neg upper]

/-- Without letters of ASCII in upper case. -/
def Lowered (text : List Char) : Prop := ∀ c ∈ text, c.toLower = c

theorem escapeLike_cons (c : Char) (text : List Char) :
    escapeLike (c :: text) = (if c = '\\' ∨ c = '%' ∨ c = '_' then ['\\', c] else [c]) ++ escapeLike text := by
  by_cases slash : c = '\\'
  · subst slash
    simp [escapeLike, replace]
  · by_cases percent : c = '%'
    · subst percent
      simp [escapeLike, replace]
    · by_cases under : c = '_'
      · subst under
        simp [escapeLike, replace]
      · simp [escapeLike, replace, slash, percent, under]

theorem items_plain {escape c : Char} (plain : c ≠ escape) (rest : List Char) : items escape (c :: rest) =
    (items escape rest).map ((if c = '%' then .anyText else if c = '_' then .anyChar else .char c) :: ·) := by
  cases rest <;> simp [items, plain]

theorem items_escapeLike (text rest : List Char) :
    items '\\' (escapeLike text ++ rest) = (items '\\' rest).map (text.map .char ++ ·) := by
  induction text with
  | nil => simp [escapeLike, replace]
  | cons c text ih =>
    rw [escapeLike_cons, List.append_assoc]
    split
    · simp only [List.cons_append, List.nil_append, items, if_pos, ih, Option.map_map, List.map_cons]
      rfl
    · rename_i plain
      rw [not_or, not_or] at plain
      rw [List.cons_append, List.nil_append, items_plain plain.1, if_neg plain.2.1, if_neg plain.2.2, ih,
        Option.map_map]
      rfl

theorem covers_anyText (items : List Item) (text : List Char) :
    covers (.anyText :: items) text = true ↔ ∃ before after, text = before ++ after ∧ covers items after = true := by
  simp only [covers, List.any_eq_true, List.mem_tails]
  constructor
  · rintro ⟨after, ⟨before, split⟩, met⟩
    exact ⟨before, after, split.symm, met⟩
  · rintro ⟨before, after, split, met⟩
    exact ⟨after, ⟨before, split.symm⟩, met⟩

/-- The characters of a text come first. -/
theorem covers_chars {text : List Char} (lowered : Lowered text) (items : List Item) {over_ : List Char}
    (other : Lowered over_) :
    covers (text.map .char ++ items) over_ = true ↔ ∃ after, over_ = text ++ after ∧ covers items after = true := by
  induction text generalizing over_ with
  | nil => simp
  | cons c text ih =>
    have lowered' : Lowered text := fun d member => lowered d (List.mem_cons_of_mem c member)
    cases over_ with
    | nil => simp [covers]
    | cons d rest =>
      have other' : Lowered rest := fun e member => other e (List.mem_cons_of_mem d member)
      have same : sameLetter c d = true ↔ d = c := by
        simp [sameLetter, lowered c List.mem_cons_self, other d List.mem_cons_self, eq_comm]
      simp only [List.map_cons, List.cons_append, covers, Bool.and_eq_true, same, ih lowered' other', List.cons.injEq]
      constructor
      · rintro ⟨equal, after, split, met⟩
        exact ⟨after, ⟨equal, split⟩, met⟩
      · rintro ⟨after, ⟨equal, split⟩, met⟩
        exact ⟨equal, after, split, met⟩

theorem covers_rest (text : List Char) : covers [.anyText] text = true := by
  rw [covers_anyText]
  exact ⟨text, [], by simp, rfl⟩

theorem like_starts {text over_ : List Char} (lowered : Lowered text) (other : Lowered over_) :
    like '\\' (escapeLike text ++ ['%']) over_ = true ↔ text <+: over_ := by
  unfold like
  rw [items_escapeLike]
  show covers (text.map .char ++ [.anyText]) over_ = true ↔ _
  rw [covers_chars lowered _ other]
  constructor
  · rintro ⟨after, split, -⟩
    exact ⟨after, split.symm⟩
  · rintro ⟨after, split⟩
    exact ⟨after, split.symm, covers_rest after⟩

theorem like_contains {text over_ : List Char} (lowered : Lowered text) (other : Lowered over_) :
    like '\\' ('%' :: (escapeLike text ++ ['%'])) over_ = true ↔ text <:+: over_ := by
  unfold like
  rw [items_plain (by decide), items_escapeLike]
  show covers (.anyText :: (text.map .char ++ [.anyText])) over_ = true ↔ _
  rw [covers_anyText]
  constructor
  · rintro ⟨before, rest, split, met⟩
    have rest_lowered : Lowered rest := fun c member => other c (split ▸ List.mem_append_right before member)
    obtain ⟨after, split', -⟩ := (covers_chars lowered _ rest_lowered).mp met
    exact ⟨before, after, by rw [split, split', List.append_assoc]⟩
  · rintro ⟨before, after, split⟩
    have rest_lowered : Lowered (text ++ after) := by
      intro c member
      apply other c
      rw [← split, List.append_assoc]
      exact List.mem_append_right before member
    refine ⟨before, text ++ after, by rw [← split, List.append_assoc], ?_⟩
    exact (covers_chars lowered _ rest_lowered).mpr ⟨after, rfl, covers_rest after⟩

/-- What has no `separator` in it is in a joined text where it is in one of the parts. -/
theorem infix_append {text : List Char} {separator : Char} (apart : separator ∉ text) (first second : List Char) :
    text <:+: first ++ separator :: second ↔ text <:+: first ∨ text <:+: second := by
  constructor
  · rintro ⟨before, after, split⟩
    rw [List.append_assoc] at split
    rcases List.append_eq_append_iff.mp split with ⟨more, first_eq, rest⟩ | ⟨more, before_eq, rest⟩
    · rcases List.append_eq_append_iff.mp rest with ⟨tail, more_eq, -⟩ | ⟨tail, text_eq, rest'⟩
      · left
        exact ⟨before, tail, by rw [first_eq, more_eq, List.append_assoc]⟩
      · cases tail with
        | nil =>
          left
          exact ⟨before, [], by rw [first_eq, text_eq]; simp⟩
        | cons c tail =>
          simp only [List.cons_append, List.cons.injEq] at rest'
          exact absurd (by rw [text_eq, rest'.1]; simp) apart
    · cases more with
      | nil =>
        cases text with
        | nil => exact .inl ⟨[], first, by simp⟩
        | cons c text =>
          simp only [List.nil_append, List.cons_append, List.cons.injEq] at rest
          exact absurd (by rw [rest.1]; simp) apart
      | cons c more =>
        simp only [List.cons_append, List.cons.injEq] at rest
        right
        exact ⟨more, after, by rw [rest.2, List.append_assoc]⟩
  · rintro (⟨before, after, split⟩ | ⟨before, after, split⟩)
    · exact ⟨before, after ++ separator :: second, by rw [← split]; simp⟩
    · exact ⟨first ++ separator :: before, after, by rw [← split]; simp⟩

theorem infix_intercalate {text : List Char} {separator : Char} (apart : separator ∉ text) (present : text ≠ [])
    (parts : List (List Char)) :
    text <:+: [separator].intercalate parts ↔ ∃ part ∈ parts, text <:+: part := by
  induction parts with
  | nil => simp [List.intercalate, present]
  | cons part rest ih =>
    cases rest with
    | nil => simp [List.intercalate]
    | cons next rest =>
      have join : [separator].intercalate (part :: next :: rest) =
          part ++ separator :: [separator].intercalate (next :: rest) := by
        simp [List.intercalate]
      rw [join, infix_append apart, ih]
      simp only [List.mem_cons, exists_eq_or_imp]

end Like
