import Mathlib.Data.List.TakeWhile
import Mathlib.Data.List.Nodup

/-! Slots of a text, filled one after another at the first occurrence of each one's name. -/

namespace FirstFill

set_option linter.unusedSectionVars false

variable {α ι : Type*} [DecidableEq α] [DecidableEq ι]

/-- `text.replace(needle, value, 1)`. -/
def replaceFirst (needle value : List α) : List α → List α
  | [] => if needle = [] then value else []
  | c :: rest =>
    if needle.isPrefixOf (c :: rest) then value ++ (c :: rest).drop needle.length
    else c :: replaceFirst needle value rest

section Replacing

variable {needle value : List α}

theorem replaceFirst_hit {text : List α} (hit : needle <+: text) :
    replaceFirst needle value text = value ++ text.drop needle.length := by
  cases text with
  | nil => simp [replaceFirst, List.prefix_nil.mp hit]
  | cons c rest => rw [replaceFirst, if_pos (List.isPrefixOf_iff_prefix.mpr hit)]

theorem replaceFirst_miss {c : α} {rest : List α} (miss : ¬ needle <+: c :: rest) :
    replaceFirst needle value (c :: rest) = c :: replaceFirst needle value rest := by
  rw [replaceFirst, if_neg]
  rw [List.isPrefixOf_iff_prefix]
  exact miss

/-- The occurrence that is replaced is the first one. -/
theorem replaceFirst_spec (value : List α) (some_ : needle ≠ []) (text : List α) :
    (¬ needle <:+: text ∧ replaceFirst needle value text = text) ∨
      ∃ front back, text = front ++ needle ++ back ∧ replaceFirst needle value text = front ++ value ++ back ∧
        ∀ front' back', text = front' ++ needle ++ back' → front.length ≤ front'.length := by
  induction text with
  | nil =>
    left
    have absent : ¬ needle <:+: [] := by simpa using some_
    exact ⟨absent, if_neg some_⟩
  | cons c rest ih =>
    by_cases hit : needle <+: c :: rest
    · right
      obtain ⟨back, text⟩ := hit
      have found : replaceFirst needle value (c :: rest) = value ++ back := by
        rw [replaceFirst_hit ⟨back, text⟩, ← text, List.drop_left]
      exact ⟨[], back, text.symm, found, fun _ _ _ => Nat.zero_le _⟩
    · rw [replaceFirst_miss hit]
      rcases ih with ⟨absent, same⟩ | ⟨front, back, text, replaced, first⟩
      · left
        rw [same, List.infix_cons_iff]
        exact ⟨fun either => either.elim hit absent, rfl⟩
      · right
        have later : ∀ front' back', c :: rest = front' ++ needle ++ back' → (c :: front).length ≤ front'.length := by
          intro front' back' split
          cases front' with
          | nil => exact absurd ⟨back', split.symm⟩ hit
          | cons d front' =>
            rw [List.cons_append, List.cons_append] at split
            have here := first front' back' (List.cons.inj split).2
            simpa using here
        exact ⟨c :: front, back, by rw [text]; rfl, by rw [replaced]; rfl, later⟩

end Replacing

/-- A slot is written as the mark and its name. The values of two kinds begin with two letters, and none
    begins with the mark. -/
structure Naming (α ι : Type*) where
  mark : α
  name : ι → List α
  kind : ι → Bool
  head : ι → α
  tail : ι → List α
  solid : α → Bool
  unmarked : ∀ i, mark ∉ name i
  apart : ∀ i j, kind i ≠ kind j → head i ≠ head j
  fresh : ∀ i, head i ≠ mark
  firm : ∀ i, solid (head i) = true
  markFirm : solid mark = true

variable (n : Naming α ι)

def Naming.slot (i : ι) : List α := n.mark :: n.name i

def Naming.value (i : ι) : List α := n.head i :: n.tail i

def spell (cells : List (α ⊕ ι)) : List α := cells.flatMap (Sum.elim (fun c => [c]) n.slot)

/-- One slot with its value. -/
def put (k : ι) (cells : List (α ⊕ ι)) : List (α ⊕ ι) :=
  cells.flatMap (Sum.elim (fun c => [.inl c]) fun i => if i = k then (n.value i).map .inl else [.inr i])

def fill (slots : List ι) (cells : List (α ⊕ ι)) : List (α ⊕ ι) := slots.foldl (fun done k => put n k done) cells

def run (slots : List ι) (text : List α) : List α :=
  slots.foldl (fun done k => replaceFirst (n.slot k) (n.value k) done) text

/-- What stands in front of a slot. -/
def ahead (k : ι) (cells : List (α ⊕ ι)) : List (α ⊕ ι) := cells.takeWhile fun cell => decide (cell ≠ .inr k)

/-- When the turn of a slot comes, its name stands nowhere in front of it. -/
def Clear (slots : List ι) (cells : List (α ⊕ ι)) : Prop :=
  ∀ done k rest, slots = done ++ k :: rest → ¬ n.slot k <:+: spell n (ahead k (fill n done cells))

def slotsOf (cells : List (α ⊕ ι)) : List ι := cells.filterMap Sum.getRight?

/-- The cells hold the slots, each of them once and those of one kind in their order. -/
structure Laid (slots : List ι) (cells : List (α ⊕ ι)) : Prop where
  nodup : slots.Nodup
  ordered : ∀ b, (slotsOf cells).filter (fun i => n.kind i == b) = slots.filter fun i => n.kind i == b

section Cells

theorem spell_append (first second : List (α ⊕ ι)) : spell n (first ++ second) = spell n first ++ spell n second :=
  List.flatMap_append

theorem spell_cons (cell : α ⊕ ι) (cells : List (α ⊕ ι)) :
    spell n (cell :: cells) = Sum.elim (fun c => [c]) n.slot cell ++ spell n cells := List.flatMap_cons

theorem spell_chars (text : List α) : spell n (text.map (.inl : α → α ⊕ ι)) = text := by
  induction text with
  | nil => rfl
  | cons c rest ih => rw [List.map_cons, spell_cons, ih]; rfl

theorem put_append (k : ι) (first second : List (α ⊕ ι)) : put n k (first ++ second) = put n k first ++ put n k second :=
  List.flatMap_append

theorem put_char (k : ι) (c : α) (cells : List (α ⊕ ι)) : put n k (.inl c :: cells) = .inl c :: put n k cells := rfl

theorem put_self (k : ι) (cells : List (α ⊕ ι)) : put n k (.inr k :: cells) = (n.value k).map .inl ++ put n k cells := by
  rw [put, List.flatMap_cons]
  simp [put]

theorem put_other {k i : ι} (other : i ≠ k) (cells : List (α ⊕ ι)) : put n k (.inr i :: cells) = .inr i :: put n k cells := by
  rw [put, List.flatMap_cons]
  simp [put, other]

theorem put_absent {k : ι} {cells : List (α ⊕ ι)} (absent : Sum.inr k ∉ cells) : put n k cells = cells := by
  induction cells with
  | nil => rfl
  | cons cell cells ih =>
    have rest := ih fun inside => absent (List.mem_cons_of_mem _ inside)
    cases cell with
    | inl c => rw [put_char, rest]
    | inr i =>
      have other : i ≠ k := by
        rintro rfl
        exact absent (by simp)
      rw [put_other n other, rest]

theorem slotsOf_append (first second : List (α ⊕ ι)) : slotsOf (first ++ second) = slotsOf first ++ slotsOf second :=
  List.filterMap_append

theorem mem_slotsOf {k : ι} {cells : List (α ⊕ ι)} : k ∈ slotsOf cells ↔ Sum.inr k ∈ cells := by
  rw [slotsOf, List.mem_filterMap]
  constructor
  · rintro ⟨cell, inside, is⟩
    cases cell with
    | inl c => cases is
    | inr i => rwa [← Option.some.inj is]
  · intro inside
    exact ⟨.inr k, inside, rfl⟩

theorem slotsOf_chars (text : List α) : slotsOf (text.map (.inl : α → α ⊕ ι)) = [] := by
  induction text with
  | nil => rfl
  | cons c rest ih => exact ih

theorem slotsOf_put (k : ι) (cells : List (α ⊕ ι)) : slotsOf (put n k cells) = (slotsOf cells).filter (· ≠ k) := by
  induction cells with
  | nil => rfl
  | cons cell cells ih =>
    cases cell with
    | inl c => exact ih
    | inr i =>
      have here : slotsOf (Sum.inr i :: cells : List (α ⊕ ι)) = i :: slotsOf cells := rfl
      rw [here]
      by_cases same : i = k
      · subst same
        rw [put_self, slotsOf_append, slotsOf_chars, List.nil_append, ih]
        simp
      · rw [put_other n same, List.filter_cons_of_pos (by simpa using same), ← ih]
        rfl

/-- The text is cut at a mark in front of a cell. -/
theorem spell_split {cells : List (α ⊕ ι)} {front back : List α} (text : spell n cells = front ++ n.mark :: back) :
    ∃ first cell second, cells = first ++ cell :: second ∧ spell n first = front ∧ (cell = .inl n.mark ∨ ∃ j, cell = .inr j) := by
  induction cells generalizing front with
  | nil => cases front <;> cases text
  | cons cell cells ih =>
    rw [spell_cons] at text
    cases front with
    | nil =>
      cases cell with
      | inl c =>
        have same : c = n.mark := (List.cons.inj text).1
        exact ⟨[], .inl c, cells, rfl, rfl, .inl (by rw [same])⟩
      | inr j => exact ⟨[], .inr j, cells, rfl, rfl, .inr ⟨j, rfl⟩⟩
    | cons c front =>
      cases cell with
      | inl d =>
        obtain ⟨rfl, later⟩ := List.cons.inj text
        obtain ⟨first, cell, second, split, spelled, which⟩ := ih later
        exact ⟨.inl d :: first, cell, second, by rw [split]; rfl, by rw [spell_cons, spelled]; rfl, which⟩
      | inr j =>
        obtain ⟨same, later⟩ := List.cons.inj text
        -- The name holds no mark, so that the cut is behind it.
        rcases List.append_eq_append_iff.mp later with ⟨gap, front_eq, rest_eq⟩ | ⟨gap, name_eq, rest_eq⟩
        · obtain ⟨first, cell, second, split, spelled, which⟩ := ih rest_eq
          refine ⟨.inr j :: first, cell, second, by rw [split]; rfl, ?_, which⟩
          rw [spell_cons, spelled, front_eq, ← same]
          rfl
        · cases gap with
          | nil =>
            obtain ⟨first, cell, second, split, spelled, which⟩ := @ih [] (by simpa using rest_eq.symm)
            refine ⟨.inr j :: first, cell, second, by rw [split]; rfl, ?_, which⟩
            rw [spell_cons, spelled, ← same, List.append_nil]
            show n.mark :: n.name j = _
            rw [name_eq, List.append_nil]
          | cons d gap =>
            have marked : d = n.mark := (List.cons.inj rest_eq).1.symm
            have inside : n.mark ∈ n.name j := by rw [name_eq, marked]; simp
            exact absurd inside (n.unmarked j)

theorem ahead_split {k : ι} {cells : List (α ⊕ ι)} (inside : Sum.inr k ∈ cells) :
    ∃ back, cells = ahead k cells ++ .inr k :: back ∧ Sum.inr k ∉ ahead k cells := by
  have absent : Sum.inr k ∉ ahead k cells := by
    intro early
    simpa using List.mem_takeWhile_imp early
  induction cells with
  | nil => cases inside
  | cons cell cells ih =>
    by_cases here : cell = .inr k
    · subst here
      have none_ : ahead k (Sum.inr k :: cells) = [] := by simp [ahead]
      exact ⟨cells, by rw [none_]; rfl, absent⟩
    · have keeps : ahead k (cell :: cells) = cell :: ahead k cells := by simp [ahead, here]
      have later : Sum.inr k ∈ cells := (List.mem_cons.mp inside).resolve_left fun same => here same.symm
      rw [keeps] at absent ⊢
      obtain ⟨back, split, -⟩ := ih later fun early => absent (List.mem_cons_of_mem _ early)
      exact ⟨back, congrArg (cell :: ·) split, absent⟩

end Cells

section Steps

variable {n} {k : ι} {rest : List ι} {cells : List (α ⊕ ι)}

theorem Laid.inside (laid : Laid n (k :: rest) cells) : Sum.inr k ∈ cells := by
  have kept : k ∈ (slotsOf cells).filter fun i => n.kind i == n.kind k := by
    rw [laid.ordered]
    simp
  exact mem_slotsOf.mp (List.mem_filter.mp kept).1

theorem Laid.once (laid : Laid n (k :: rest) cells) {front back : List (α ⊕ ι)} (split : cells = front ++ .inr k :: back) :
    Sum.inr k ∉ front ∧ Sum.inr k ∉ back := by
  have slots : slotsOf cells = slotsOf front ++ k :: slotsOf back := by
    rw [split, slotsOf_append]
    rfl
  have apart : ((slotsOf cells).filter fun i => n.kind i == n.kind k).Nodup := by
    rw [laid.ordered]
    exact laid.nodup.filter _
  rw [slots, List.filter_append, List.filter_cons_of_pos (by simp)] at apart
  have middle := List.nodup_middle.mp apart
  have absent := (List.nodup_cons.mp middle).1
  rw [List.mem_append, List.mem_filter, List.mem_filter, mem_slotsOf, mem_slotsOf] at absent
  exact ⟨fun early => absent (.inl ⟨early, by simp⟩), fun late => absent (.inr ⟨late, by simp⟩)⟩

/-- What is not filled and stands in front of the slot is of the other kind. -/
theorem Laid.kinds (laid : Laid n (k :: rest) cells) {front back : List (α ⊕ ι)} (split : cells = front ++ back)
    (early : Sum.inr k ∉ front) {j : ι} (inside : Sum.inr j ∈ front) : n.kind k ≠ n.kind j := by
  intro same
  have slots := laid.ordered (n.kind k)
  rw [split, slotsOf_append, List.filter_append, List.filter_cons_of_pos (by simp)] at slots
  have member : j ∈ (slotsOf front).filter fun i => n.kind i == n.kind k :=
    List.mem_filter.mpr ⟨mem_slotsOf.mpr inside, by simp [same]⟩
  cases kept : (slotsOf front).filter fun i => n.kind i == n.kind k with
  | nil =>
    rw [kept] at member
    cases member
  | cons first others =>
    rw [kept] at slots
    have is : first = k := (List.cons.inj slots).1
    have inFront : k ∈ (slotsOf front).filter fun i => n.kind i == n.kind k := by
      rw [kept, is]
      simp
    exact early (mem_slotsOf.mp (List.mem_filter.mp inFront).1)

theorem Laid.next (laid : Laid n (k :: rest) cells) : Laid n rest (put n k cells) := by
  have absent := (List.nodup_cons.mp laid.nodup).1
  refine ⟨(List.nodup_cons.mp laid.nodup).2, fun b => ?_⟩
  have others : (k :: rest).filter (· ≠ k) = rest := by
    rw [List.filter_cons_of_neg (by simp), List.filter_eq_self]
    intro i inside
    have other : i ≠ k := by
      rintro rfl
      exact absent inside
    simpa using other
  calc (slotsOf (put n k cells)).filter (fun i => n.kind i == b)
      = ((slotsOf cells).filter fun i => n.kind i == b).filter (· ≠ k) := by
        rw [slotsOf_put, List.filter_filter, List.filter_filter]
        exact List.filter_congr fun i _ => Bool.and_comm _ _
    _ = ((k :: rest).filter (· ≠ k)).filter fun i => n.kind i == b := by
        rw [laid.ordered, List.filter_filter, List.filter_filter]
        exact List.filter_congr fun i _ => Bool.and_comm _ _
    _ = rest.filter fun i => n.kind i == b := by rw [others]

theorem Laid.put_eq (laid : Laid n (k :: rest) cells) {front back : List (α ⊕ ι)} (split : cells = front ++ .inr k :: back) :
    put n k cells = front ++ (n.value k).map .inl ++ back := by
  have once := laid.once split
  rw [split, put_append, put_absent n once.1, put_self, put_absent n once.2, List.append_assoc]

theorem spell_slot (front back : List (α ⊕ ι)) :
    spell n (front ++ .inr k :: back) = spell n front ++ n.slot k ++ spell n back := by
  rw [spell_append, spell_cons, List.append_assoc]
  rfl

/-- The name begins with the mark and holds no other. -/
theorem slot_early {front back p r : List α} (text : front ++ n.slot k ++ back = p ++ n.slot k ++ r)
    (early : p.length < front.length) : n.slot k <:+: front := by
  rw [List.append_assoc, List.append_assoc] at text
  rcases List.append_eq_append_iff.mp text with ⟨gap, p_eq, -⟩ | ⟨gap, front_eq, rest_eq⟩
  · rw [p_eq, List.length_append] at early
    omega
  · rcases List.append_eq_append_iff.mp rest_eq with ⟨gap', gap_eq, -⟩ | ⟨gap', slot_eq, back_eq⟩
    · exact ⟨p, gap', by rw [front_eq, gap_eq, List.append_assoc]⟩
    · cases gap with
      | nil =>
        rw [front_eq, List.append_nil] at early
        omega
      | cons c gap =>
        -- The second name would begin inside of the first one.
        cases gap' with
        | nil => exact ⟨p, [], by rw [front_eq, slot_eq]; simp⟩
        | cons d gap' =>
          have marked : d = n.mark := (List.cons.inj back_eq).1.symm
          have name : n.name k = gap ++ d :: gap' := (List.cons.inj slot_eq).2
          have inside : n.mark ∈ n.name k := by rw [name, marked]; simp
          exact absurd inside (n.unmarked k)

theorem slot_some (n : Naming α ι) (k : ι) : n.slot k ≠ [] := List.cons_ne_nil _ _

/-- When the name stands first at the slot, the step fills it. -/
theorem Laid.step (laid : Laid n (k :: rest) cells) (clear : ¬ n.slot k <:+: spell n (ahead k cells)) :
    replaceFirst (n.slot k) (n.value k) (spell n cells) = spell n (put n k cells) := by
  obtain ⟨back, split, -⟩ := ahead_split laid.inside
  have spelled : spell n cells = spell n (ahead k cells) ++ n.slot k ++ spell n back := by
    rw [← spell_slot, ← split]
  have filled : spell n (put n k cells) = spell n (ahead k cells) ++ n.value k ++ spell n back := by
    rw [laid.put_eq split, spell_append, spell_append, spell_chars]
  rcases replaceFirst_spec (n.value k) (slot_some n k) (spell n cells) with ⟨absent, -⟩ | ⟨p, r, text, replaced, first⟩
  · exact absurd ⟨_, _, spelled.symm⟩ absent
  · have bound := first _ _ spelled
    by_cases early : p.length < (spell n (ahead k cells)).length
    · exact absurd (slot_early (spelled.symm.trans text) early) clear
    · have here : p.length = (spell n (ahead k cells)).length := by omega
      rw [spelled, List.append_assoc, List.append_assoc] at text
      obtain ⟨same, later⟩ := List.append_inj text here.symm
      have tails := List.append_cancel_left later
      rw [replaced, filled, ← same, ← tails]

/-- What a cell begins with when all is filled. -/
def Naming.begins (n : Naming α ι) : α ⊕ ι → α := Sum.elim id n.head

/-- The text follows the cells up to a cell where it goes on in another way. -/
def Strayed (n : Naming α ι) (cells : List (α ⊕ ι)) (text : List α) : Prop :=
  ∃ front cell back b later, cells = front ++ cell :: back ∧ text = spell n front ++ b :: later ∧ n.begins cell ≠ b ∧
    n.solid b = true ∧ n.solid (n.begins cell) = true ∧ b ≠ n.mark

/-- A value that lands in front of its slot. -/
theorem Laid.strays (laid : Laid n (k :: rest) cells) {front back : List (α ⊕ ι)} {cell : α ⊕ ι}
    (split : cells = front ++ cell :: back) (early : Sum.inr k ∉ front) (other : cell ≠ .inr k)
    (marked : cell = .inl n.mark ∨ ∃ j, cell = .inr j) (later : List α) :
    Strayed n (put n k cells) (spell n front ++ n.value k ++ later) := by
  have kept : put n k cells = front ++ cell :: put n k back := by
    rw [split, put_append, put_absent n early]
    rcases marked with rfl | ⟨j, rfl⟩
    · rw [put_char]
    · rw [put_other n fun same => other (by rw [same])]
  have text : spell n front ++ n.value k ++ later = spell n front ++ n.head k :: (n.tail k ++ later) := by
    rw [List.append_assoc]
    rfl
  refine ⟨front, cell, put n k back, n.head k, n.tail k ++ later, kept, text, ?_, n.firm k, ?_, n.fresh k⟩
  · rcases marked with rfl | ⟨j, rfl⟩
    · exact fun same => n.fresh k same.symm
    · have inside : Sum.inr j ∈ front ++ [Sum.inr j] := by simp
      have split' : cells = (front ++ [Sum.inr j]) ++ back := by rw [split]; simp
      have absent : Sum.inr k ∉ front ++ [Sum.inr j] := by
        intro either
        rcases List.mem_append.mp either with inFront | here
        · exact early inFront
        · exact other (List.mem_singleton.mp here).symm
      exact (n.apart k j (laid.kinds split' absent inside)).symm
  · rcases marked with rfl | ⟨j, rfl⟩
    · exact n.markFirm
    · exact n.firm j

theorem Laid.stray_first (laid : Laid n (k :: rest) cells) (covered : n.slot k <:+: spell n (ahead k cells)) :
    Strayed n (put n k cells) (replaceFirst (n.slot k) (n.value k) (spell n cells)) := by
  obtain ⟨back, split, absent⟩ := ahead_split laid.inside
  obtain ⟨u, v, occurs⟩ := covered
  have spelled : spell n cells = u ++ n.slot k ++ (v ++ n.slot k ++ spell n back) := by
    rw [split, spell_slot, ← occurs]
    simp [List.append_assoc]
  rcases replaceFirst_spec (n.value k) (slot_some n k) (spell n cells) with ⟨missing, -⟩ | ⟨p, r, text, replaced, first⟩
  · exact absurd ⟨_, _, spelled.symm⟩ missing
  · have bound := first _ _ spelled
    have short : p.length < (spell n (ahead k cells)).length := by
      rw [← occurs]
      simp [Naming.slot]
      omega
    have cut : spell n cells = p ++ n.mark :: (n.name k ++ r) := by rw [text, List.append_assoc]; rfl
    obtain ⟨q, cell, second, here, before_eq, which⟩ := spell_split n cut
    -- The occurrence begins in front of the slot.
    have shorter : q.length < (ahead k cells).length := by
      by_contra atLeast
      have prefixed : ahead k cells <+: q :=
        List.prefix_of_prefix_length_le ⟨_, split.symm⟩ ⟨_, here.symm⟩ (by omega)
      obtain ⟨more, q_eq⟩ := prefixed
      have longer : (spell n (ahead k cells)).length ≤ p.length := by
        rw [← before_eq, ← q_eq, spell_append, List.length_append]
        omega
      omega
    obtain ⟨more, ahead_eq⟩ : q ++ [cell] <+: ahead k cells :=
      List.prefix_of_prefix_length_le ⟨second, by rw [here]; simp⟩ ⟨_, split.symm⟩ (by simp; omega)
    have early : Sum.inr k ∉ q := fun inside => absent (by rw [← ahead_eq]; simp [inside])
    have other : cell ≠ .inr k := by
      rintro rfl
      exact absent (by rw [← ahead_eq]; simp)
    rw [replaced, ← before_eq]
    exact laid.strays here early other which r

/-- What has strayed does not come back. -/
theorem Laid.stray_step (laid : Laid n (k :: rest) cells) {text : List α} (strayed : Strayed n cells text) :
    Strayed n (put n k cells) (replaceFirst (n.slot k) (n.value k) text) := by
  obtain ⟨front, cell, back, b, later, split, text_eq, differ, firm, firm', unmarked⟩ := strayed
  -- What becomes of the cell where the text strays.
  have stays : ∀ later', Sum.inr k ∉ front → Strayed n (put n k cells) (spell n front ++ b :: later') := by
    intro later' absent
    rw [split, put_append, put_absent n absent]
    cases cell with
    | inl c => exact ⟨front, .inl c, put n k back, b, later', by rw [put_char], rfl, differ, firm, firm', unmarked⟩
    | inr j =>
      by_cases same : j = k
      · subst same
        exact ⟨front, .inl (n.head j), (n.tail j).map .inl ++ put n j back, b, later', by rw [put_self]; rfl, rfl, differ,
          firm, firm', unmarked⟩
      · exact ⟨front, .inr j, put n k back, b, later', by rw [put_other n same], rfl, differ, firm, firm', unmarked⟩
  have occurs : Sum.inr k ∈ front → ∃ q q', front = q ++ .inr k :: q' ∧
      text = spell n q ++ n.slot k ++ (spell n q' ++ b :: later) := by
    intro inside
    obtain ⟨q', front_eq, -⟩ := ahead_split inside
    refine ⟨ahead k front, q', front_eq, ?_⟩
    rw [text_eq, front_eq, spell_slot]
    simp [List.append_assoc]
    rw [← front_eq]
  rcases replaceFirst_spec (n.value k) (slot_some n k) text with ⟨missing, same⟩ | ⟨p, r, cut, replaced, first⟩
  · rw [same, text_eq]
    refine stays later fun inside => ?_
    obtain ⟨q, q', -, hit⟩ := occurs inside
    exact missing ⟨_, _, hit.symm⟩
  -- No slot `k` stands in front of the first occurrence.
  have bound : ∀ q, (∃ q', front = q ++ .inr k :: q' ∧ text = spell n q ++ n.slot k ++ (spell n q' ++ b :: later)) →
      p.length ≤ (spell n q).length := fun q hit => hit.elim fun _ both => first _ _ both.2
  have marked : text = p ++ n.mark :: (n.name k ++ r) := by rw [cut, List.append_assoc]; rfl
  rw [text_eq] at marked
  rcases List.append_eq_append_iff.mp marked with ⟨gap, p_eq, rest_eq⟩ | ⟨gap, front_eq, rest_eq⟩
  · cases gap with
    | nil => exact absurd (List.cons.inj rest_eq).1 unmarked
    | cons c gap =>
      obtain ⟨rfl, -⟩ := List.cons.inj rest_eq
      have absent : Sum.inr k ∉ front := by
        intro inside
        obtain ⟨q, q', front_split, hit⟩ := occurs inside
        have short := bound q ⟨q', front_split, hit⟩
        rw [p_eq, front_split, spell_slot] at short
        simp only [List.length_append, List.length_cons] at short
        omega
      have landed : replaceFirst (n.slot k) (n.value k) text = spell n front ++ b :: (gap ++ n.value k ++ r) := by
        rw [replaced, p_eq]
        simp [List.append_assoc]
      rw [landed]
      exact stays _ absent
  · cases gap with
    | nil => exact absurd (List.cons.inj rest_eq).1.symm unmarked
    | cons c gap =>
      obtain ⟨rfl, -⟩ := List.cons.inj rest_eq
      obtain ⟨q, here, second, front_split, rfl, which⟩ := spell_split n front_eq
      have split' : cells = q ++ here :: (second ++ cell :: back) := by rw [split, front_split]; simp
      have early : Sum.inr k ∉ q := by
        intro inside
        obtain ⟨q', q_eq, -⟩ := ahead_split inside
        have hit : text = spell n (ahead k q) ++ n.slot k ++ (spell n (q' ++ here :: second) ++ b :: later) := by
          rw [text_eq, front_split]
          conv_lhs => rw [q_eq]
          rw [List.append_assoc, List.cons_append, spell_slot, List.append_assoc]
        have short := first _ _ hit
        have long : (spell n q).length = (spell n (ahead k q)).length + (n.slot k).length + (spell n q').length := by
          conv_lhs => rw [q_eq]
          rw [spell_slot, List.length_append, List.length_append]
        have some_ : 0 < (n.slot k).length := Nat.succ_pos _
        omega
      by_cases own : here = .inr k
      · subst own
        have text_split : text = spell n q ++ n.slot k ++ (spell n second ++ b :: later) := by
          rw [text_eq, front_split, spell_slot, List.append_assoc]
        have r_eq : r = spell n second ++ b :: later := List.append_cancel_left (cut.symm.trans text_split)
        have filled : put n k cells = (q ++ (n.value k).map .inl ++ second) ++ cell :: back := by
          rw [laid.put_eq split']
          simp [List.append_assoc]
        refine ⟨q ++ (n.value k).map .inl ++ second, cell, back, b, later, filled, ?_, differ, firm, firm', unmarked⟩
        rw [replaced, r_eq, spell_append, spell_append, spell_chars]
        simp [List.append_assoc]
      · rw [replaced]
        exact laid.strays split' early own which r

end Steps

section Runs

variable {n}

theorem strayed_run {slots : List ι} {cells : List (α ⊕ ι)} {text : List α} (laid : Laid n slots cells)
    (strayed : Strayed n cells text) : Strayed n (fill n slots cells) (run n slots text) := by
  induction slots generalizing cells text with
  | nil => exact strayed
  | cons k rest ih => exact ih laid.next (laid.stray_step strayed)

/-- What has strayed differs in more than what is not solid. -/
theorem Strayed.differs {cells : List (α ⊕ ι)} {text : List α} (strayed : Strayed n cells text) (chars : slotsOf cells = []) :
    text.filter n.solid ≠ (spell n cells).filter n.solid := by
  obtain ⟨front, cell, back, b, later, split, text_eq, differ, firm, firm', -⟩ := strayed
  intro same
  cases cell with
  | inr j =>
    have inside : j ∈ slotsOf cells := mem_slotsOf.mpr (by rw [split]; simp)
    rw [chars] at inside
    cases inside
  | inl c =>
    have kept : n.solid c = true := firm'
    rw [text_eq, split, spell_append, spell_cons, List.filter_append, List.filter_append] at same
    have tails := List.append_cancel_left same
    rw [List.filter_cons_of_pos firm] at tails
    rw [show Sum.elim (fun c => [c]) n.slot (Sum.inl c) ++ spell n back = c :: spell n back from rfl,
      List.filter_cons_of_pos kept] at tails
    exact differ (List.cons.inj tails).1.symm

theorem slotsOf_fill {slots : List ι} {cells : List (α ⊕ ι)} (laid : Laid n slots cells) :
    slotsOf (fill n slots cells) = [] := by
  induction slots generalizing cells with
  | nil =>
    rw [show fill n [] cells = cells from rfl, List.eq_nil_iff_forall_not_mem]
    intro i inside
    have kept : i ∈ (slotsOf cells).filter fun j => n.kind j == n.kind i := List.mem_filter.mpr ⟨inside, by simp⟩
    rw [laid.ordered] at kept
    cases kept
  | cons k rest ih => exact ih laid.next

theorem clear_cons {k : ι} {rest : List ι} {cells : List (α ⊕ ι)} : Clear n (k :: rest) cells ↔
    ¬ n.slot k <:+: spell n (ahead k cells) ∧ Clear n rest (put n k cells) := by
  constructor
  · intro clear
    have later : Clear n rest (put n k cells) := by
      intro done i rest' split
      exact clear (k :: done) i rest' (by rw [split]; rfl)
    exact ⟨clear [] k rest rfl, later⟩
  · intro both done i rest' split
    cases done with
    | nil =>
      obtain ⟨rfl, -⟩ := List.cons.inj split
      exact both.1
    | cons j done =>
      obtain ⟨rfl, split'⟩ := List.cons.inj split
      exact both.2 done i rest' split'

theorem clear_nil (cells : List (α ⊕ ι)) : Clear n [] cells := by
  intro done k rest split
  cases done <;> cases split

/-- The cells with all values written. -/
def expand (n : Naming α ι) (cells : List (α ⊕ ι)) : List α := cells.flatMap (Sum.elim (fun c => [c]) n.value)

theorem expand_put (k : ι) (cells : List (α ⊕ ι)) : expand n (put n k cells) = expand n cells := by
  have values : ∀ text : List α, expand n (text.map (.inl : α → α ⊕ ι)) = text := by
    intro text
    induction text with
    | nil => rfl
    | cons c rest ih => exact congrArg (c :: ·) ih
  induction cells with
  | nil => rfl
  | cons cell cells ih =>
    cases cell with
    | inl c => exact congrArg (c :: ·) ih
    | inr i =>
      by_cases same : i = k
      · subst same
        rw [put_self, expand, List.flatMap_append]
        exact congrArg₂ (· ++ ·) (values _) ih
      · rw [put_other n same]
        exact congrArg (n.value i ++ ·) ih

theorem spell_fill {slots : List ι} {cells : List (α ⊕ ι)} (laid : Laid n slots cells) :
    spell n (fill n slots cells) = expand n cells := by
  induction slots generalizing cells with
  | nil =>
    have none_ : slotsOf cells = [] := slotsOf_fill laid
    show spell n cells = expand n cells
    refine List.flatMap_congr fun cell inside => ?_
    cases cell with
    | inl c => rfl
    | inr i =>
      have slot := mem_slotsOf.mpr inside
      rw [none_] at slot
      cases slot
  | cons k rest ih =>
    show spell n (fill n rest (put n k cells)) = expand n cells
    rw [ih laid.next, expand_put]

/-- While every name stands first at its own slot, the run fills the slots. -/
theorem run_clear {slots : List ι} {cells : List (α ⊕ ι)} (laid : Laid n slots cells) (clear : Clear n slots cells) :
    run n slots (spell n cells) = expand n cells := by
  rw [← spell_fill laid]
  induction slots generalizing cells with
  | nil => rfl
  | cons k rest ih =>
    show run n rest (replaceFirst (n.slot k) (n.value k) (spell n cells)) = _
    obtain ⟨first, later⟩ := clear_cons.mp clear
    rw [laid.step first]
    exact ih laid.next later

/-- And when one does not, the text comes out as another one. -/
theorem run_covered {slots : List ι} {cells : List (α ⊕ ι)} (laid : Laid n slots cells) (covered : ¬ Clear n slots cells) :
    (run n slots (spell n cells)).filter n.solid ≠ (expand n cells).filter n.solid := by
  rw [← spell_fill laid]
  induction slots generalizing cells with
  | nil => exact absurd (clear_nil cells) covered
  | cons k rest ih =>
    show (run n rest (replaceFirst (n.slot k) (n.value k) (spell n cells))).filter n.solid ≠ _
    by_cases clear : n.slot k <:+: spell n (ahead k cells)
    · have strayed := strayed_run laid.next (laid.stray_first clear)
      exact strayed.differs (slotsOf_fill laid.next)
    · rw [laid.step clear]
      exact ih laid.next fun later => covered (clear_cons.mpr ⟨clear, later⟩)

end Runs

end FirstFill
