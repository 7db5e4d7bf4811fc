import Rdst.Indexes.Duplicates
import Rdst.Indexes.Suggestions

namespace Rdst.Indexes

open Assoc PyText Weeding

variable (tables : Tables) (lower : Text → Text) (digest : Text → Text) (inputs : Inputs) (advice : Advice)

/-- Every existing index is either kept or dropped, and one that covers a suggested index is not dropped. -/
def Agrees : Prop :=
  (∀ x ∈ inputs.existing,
    ((∃ y ∈ (buildPlan tables lower inputs).keep, ident lower y = ident lower x) ↔
      ¬ ∃ drop ∈ (buildPlan tables lower inputs).drop, ident lower drop.index = ident lower x)) ∧
    ∀ covered ∈ (buildAdditions tables lower digest inputs advice).covered,
      ∀ drop ∈ (buildPlan tables lower inputs).drop, ident lower drop.index ≠ ident lower covered.coveredBy

/-- Indexes of one listing go or stay together, and no suggestion has an index that goes as the first to cover it. -/
def GoTogether : Prop :=
  (∀ x ∈ inputs.existing, ∀ y ∈ inputs.existing, listing lower x = listing lower y → Goes tables lower inputs x →
      Goes tables lower inputs y) ∧
    ∀ offer ∈ offers advice.queries, offer.2.usable tables lower = true →
      ∀ x ∈ inputs.existing.find? (fun x => x.covering tables lower (offer.2.shape tables lower)),
        ¬ Goes tables lower inputs x

instance : Decidable (Idle tables lower inputs x) := inferInstanceAs (Decidable (_ ∧ _))

instance : Decidable (Redundant tables lower inputs x) := inferInstanceAs (Decidable (_ ∧ _ ∧ _ ∧ _))

instance : Decidable (Goes tables lower inputs x) := inferInstanceAs (Decidable (_ ∨ _))

instance : Decidable (Agrees tables lower digest inputs advice) := inferInstanceAs (Decidable (_ ∧ _))

variable {tables lower digest inputs advice}

/-- The shapes of the usable suggestions are those of the entries. -/
theorem mem_foldl_candidates {offered : List (Query × Suggestion)} {found : Dict Shape Entry} {shape : Shape} :
    shape ∈ offered.foldl (fun found offer => noteSuggestion tables lower found offer.1 offer.2) found ↔
      shape ∈ found ∨ ∃ offer ∈ offered, offer.2.usable tables lower = true ∧ offer.2.shape tables lower = shape := by
  induction offered generalizing found with
  | nil => simp
  | cons offer rest ih =>
    rw [List.foldl_cons, ih]
    have noted : shape ∈ noteSuggestion tables lower found offer.1 offer.2 ↔
        shape ∈ found ∨ offer.2.usable tables lower = true ∧ offer.2.shape tables lower = shape := by
      unfold noteSuggestion
      by_cases usable : offer.2.usable tables lower = true
      · rw [if_pos usable, AList.mem_insert, or_comm, eq_comm]
        simp [usable]
      · simp [usable]
    simp only [noted, List.mem_cons, exists_eq_or_imp, or_assoc]

theorem mem_candidates {queries : List Query} {shape : Shape} : shape ∈ candidates tables lower queries ↔
    ∃ offer ∈ offers queries, offer.2.usable tables lower = true ∧ offer.2.shape tables lower = shape := by
  unfold candidates
  rw [mem_foldl_candidates]
  simp

theorem mem_listed {found : Dict Shape Entry} {shape : Shape} {entry : Entry} :
    (shape, entry) ∈ listed found ↔ found.lookup shape = some entry := by
  rw [listed, List.mem_insertionSort, List.mem_map, ← Option.mem_def, AList.mem_lookup_iff]
  constructor
  · rintro ⟨item, member, same⟩
    cases same
    exact member
  · intro member
    exact ⟨⟨shape, entry⟩, member, rfl⟩

/-- The indexes that the plan names as covering. -/
theorem mem_covered (digest : Text → Text) {x : Index} :
    (∃ covered ∈ (buildAdditions tables lower digest inputs advice).covered, covered.coveredBy = x) ↔
      ∃ offer ∈ offers advice.queries, offer.2.usable tables lower = true ∧
        inputs.existing.find? (fun x => x.covering tables lower (offer.2.shape tables lower)) = some x := by
  constructor
  · rintro ⟨covered, member, rfl⟩
    obtain ⟨item, listed, made⟩ := List.mem_filterMap.mp member
    obtain ⟨x, found, rfl⟩ := Option.map_eq_some_iff.mp made
    have there : item.1 ∈ candidates tables lower advice.queries := by
      rw [← AList.lookup_isSome, mem_listed.mp listed]
      rfl
    obtain ⟨offer, offered, usable, same⟩ := mem_candidates.mp there
    refine ⟨offer, offered, usable, ?_⟩
    rw [same]
    exact found
  · rintro ⟨offer, offered, usable, found⟩
    have there := mem_candidates.mpr ⟨offer, offered, usable, rfl⟩
    obtain ⟨entry, entry'⟩ := Option.isSome_iff_exists.mp (AList.lookup_isSome.mpr there)
    refine ⟨⟨(offer.2.shape tables lower).1, (offer.2.shape tables lower).2.1, x, sortNames entry.helps.keys⟩,
      List.mem_filterMap.mpr ⟨(offer.2.shape tables lower, entry), mem_listed.mpr entry', ?_⟩, rfl⟩
    unfold coveredOf coveringOf
    rw [found]
    rfl

variable (distinct : (inputs.existing.map (ident lower)).Nodup)
include distinct

theorem dropped_ident {x : Index} (member : x ∈ inputs.existing) :
    (∃ drop ∈ (buildPlan tables lower inputs).drop, ident lower drop.index = ident lower x) ↔
      Goes tables lower inputs x := by
  rw [← dropped_iff distinct member]
  constructor
  · rintro ⟨drop, dropped, same⟩
    obtain ⟨y, inside, choice, -, rfl⟩ := mem_drops.mp dropped
    exact ⟨_, dropped, ident_inj distinct y (mem_removables.mp inside).1 x member same⟩
  · rintro ⟨drop, dropped, rfl⟩
    exact ⟨drop, dropped, rfl⟩

theorem kept_ident {x : Index} (member : x ∈ inputs.existing) :
    (∃ y ∈ (buildPlan tables lower inputs).keep, ident lower y = ident lower x) ↔
      ∀ w ∈ inputs.existing, Goes tables lower inputs w → listing lower w ≠ listing lower x := by
  rw [← kept_iff distinct member]
  constructor
  · rintro ⟨y, kept, same⟩
    rwa [← ident_inj distinct y (mem_keep.mp kept).1 x member same]
  · intro kept
    exact ⟨x, kept, rfl⟩

/-- What the plan keeps, what it drops and what it relies on agree exactly where the indexes of one listing go together
and no suggestion is covered first by one that goes. -/
theorem plan_agrees_iff : Agrees tables lower digest inputs advice ↔ GoTogether tables lower inputs advice := by
  refine and_congr ?_ ?_
  · constructor
    · intro agrees x member y member' same goes
      by_contra stays
      have kept := (agrees y member').mpr (by rwa [dropped_ident distinct member'])
      exact (kept_ident distinct member').mp kept x member goes same
    · intro together x member
      rw [kept_ident distinct member, dropped_ident distinct member]
      constructor
      · intro apart goes
        exact apart x member goes rfl
      · intro stays w inside goes same
        exact stays (together w inside x member same goes)
  · constructor
    · intro agrees offer offered usable x found goes
      have inside := List.mem_of_find?_eq_some found
      obtain ⟨covered, member, rfl⟩ := (mem_covered digest).mpr ⟨offer, offered, usable, found⟩
      obtain ⟨drop, dropped, same⟩ := (dropped_ident distinct inside).mpr goes
      exact agrees covered member drop dropped same
    · intro stays covered member drop dropped same
      obtain ⟨offer, offered, usable, found⟩ := (mem_covered digest).mp ⟨covered, member, rfl⟩
      have inside := List.mem_of_find?_eq_some found
      exact stays offer offered usable _ found ((dropped_ident distinct inside).mp ⟨drop, dropped, same⟩)

omit distinct

/-- A read of the users by their mail, for which an index is suggested. -/
def byEmail : Query where
  key := "q".toList
  name := "q".toList
  share := 1 / 2
  suggestions := [⟨"users".toList, ["email".toList], "btree".toList, some 50, true, [], []⟩]

def adviceOf (queries : List Query) : Advice := ⟨.postgresql, queries, fun _ => ⟨0, 0, none, []⟩⟩

theorem plan_agrees_one_index :
    Agrees asciiTables asciiLower id (inputsOf [onEmail "a" "one" 1]) (adviceOf [byEmail]) ↔
      GoTogether asciiTables asciiLower (inputsOf [onEmail "a" "one" 1]) (adviceOf [byEmail]) :=
  plan_agrees_iff (by decide +kernel)

/-- An index that no query has read, beside one of the same name in another schema, which is neither kept nor dropped; and
a suggestion that the plan leaves to an index it drops. -/
theorem same_name_lost :
    (let used := onEmail "b" "one" 5
      let unread := { onEmail "a" "one" 0 with windowScans := 0, columns := ["name".toList] }
      (used ∉ (buildPlan asciiTables asciiLower (inputsOf [unread, used])).keep ∧
        ∀ drop ∈ (buildPlan asciiTables asciiLower (inputsOf [unread, used])).drop, drop.index ≠ used)) ∧
    ¬ Agrees asciiTables asciiLower id (inputsOf [{ onEmail "a" "one" 0 with windowScans := 0 }]) (adviceOf [byEmail]) := by
  decide +kernel

end Rdst.Indexes
