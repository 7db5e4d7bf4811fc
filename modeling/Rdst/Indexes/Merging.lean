import Mathlib.Data.Char
import Mathlib.Data.List.Lex
import Rdst.Indexes.Coverage

namespace Rdst.Indexes

open Assoc PyText Maxima

variable (tables : Tables) (lower : Text → Text)

/-- What the usable suggestions of some shapes promise a query. -/
def promises (offered : List (Query × Suggestion)) (shapes : List Shape) (key : Text) : Set Helped :=
  {help | ∃ offer ∈ offered, offer.2.usable tables lower = true ∧ offer.2.shape tables lower ∈ shapes ∧
    offer.1.key = key ∧ offer.2.help tables lower offer.1 = help}

/-- The shapes of the suggestions that an entry stands for. -/
def Entry.shapes (entry : Entry) : List Shape := (entry.columns :: entry.merged).map fun c => (entry.table, c, entry.method)

def Entry.Faithful (offered : List (Query × Suggestion)) (entry : Entry) : Prop :=
  Best Helped.gain entry.helps (promises tables lower offered entry.shapes)

/-- Neither's columns start the other's. -/
def Apart (a b : Shape) : Prop := a.1 = b.1 → a.2.2 = b.2.2 → ¬ a.2.1 <+: b.2.1 ∧ ¬ b.2.1 <+: a.2.1

variable {tables lower} {offered : List (Query × Suggestion)}

theorem promises_append {shapes shapes' : List Shape} (key : Text) :
    promises tables lower offered shapes key ∪ promises tables lower offered shapes' key =
      promises tables lower offered (shapes ++ shapes') key := by
  ext help
  constructor
  · rintro (⟨offer, member, usable, listed, rest⟩ | ⟨offer, member, usable, listed, rest⟩)
    · exact ⟨offer, member, usable, List.mem_append_left _ listed, rest⟩
    · exact ⟨offer, member, usable, List.mem_append_right _ listed, rest⟩
  · rintro ⟨offer, member, usable, listed, rest⟩
    rcases List.mem_append.mp listed with first | second
    · exact .inl ⟨offer, member, usable, first, rest⟩
    · exact .inr ⟨offer, member, usable, second, rest⟩

theorem promises_snoc (offered : List (Query × Suggestion)) (offer : Query × Suggestion) (shapes : List Shape) (key : Text) :
    promises tables lower (offered ++ [offer]) shapes key =
      promises tables lower offered shapes key ∪ {help | offer.2.usable tables lower = true ∧
        offer.2.shape tables lower ∈ shapes ∧ key = offer.1.key ∧ help = offer.2.help tables lower offer.1} := by
  ext help
  simp only [promises, List.mem_append, List.mem_singleton, Set.mem_union, Set.mem_ofPred_eq]
  constructor
  · rintro ⟨other, before | rfl, usable, listed, same, made⟩
    · exact .inl ⟨other, before, usable, listed, same, made⟩
    · exact .inr ⟨usable, listed, same.symm, made.symm⟩
  · rintro (⟨other, before, rest⟩ | ⟨usable, listed, same, made⟩)
    · exact ⟨other, .inl before, rest⟩
    · exact ⟨offer, .inr rfl, usable, listed, same.symm, made.symm⟩

section Candidates

/-- Every shape with what is known of it so far. -/
def Gathered (tables : Tables) (lower : Text → Text) (offered : List (Query × Suggestion)) (found : Dict Shape Entry) :
    Prop :=
  ∀ shape, ((found.lookup shape).getD (Entry.empty shape)).shape = shape ∧
    Best Helped.gain ((found.lookup shape).getD (Entry.empty shape)).helps (promises tables lower offered [shape])

theorem Gathered.note {found : Dict Shape Entry} (gathered : Gathered tables lower offered found)
    (offer : Query × Suggestion) :
    Gathered tables lower (offered ++ [offer]) (noteSuggestion tables lower found offer.1 offer.2) := by
  intro shape
  obtain ⟨same, best⟩ := gathered shape
  have unchanged : (¬ (offer.2.usable tables lower = true ∧ offer.2.shape tables lower = shape)) → ∀ key,
      promises tables lower offered [shape] key = promises tables lower (offered ++ [offer]) [shape] key := by
    intro other key
    rw [promises_snoc]
    have none : {help | offer.2.usable tables lower = true ∧ offer.2.shape tables lower ∈ [shape] ∧
        key = offer.1.key ∧ help = offer.2.help tables lower offer.1} = ∅ := by
      ext help
      simp only [List.mem_singleton, Set.mem_ofPred_eq, Set.mem_empty_iff_false, iff_false]
      exact fun both => other ⟨both.1, both.2.1⟩
    rw [none, Set.union_empty]
  unfold noteSuggestion
  by_cases usable : offer.2.usable tables lower = true
  · rw [if_pos usable]
    simp only [insert_lookup]
    by_cases here : shape = offer.2.shape tables lower
    · subst here
      rw [if_pos rfl, Option.getD_some]
      refine ⟨same, (best.note offer.1.key (offer.2.help tables lower offer.1)).congr ?_⟩
      intro key
      rw [promises_snoc]
      simp [usable]
    · rw [if_neg here]
      exact ⟨same, best.congr (unchanged fun both => here both.2.symm)⟩
  · rw [if_neg usable]
    exact ⟨same, best.congr (unchanged fun both => usable both.1)⟩

theorem gathered_foldl (tables : Tables) (lower : Text → Text) (offered : List (Query × Suggestion)) : Gathered tables lower offered
    (offered.foldl (fun found offer => noteSuggestion tables lower found offer.1 offer.2) ∅) := by
  induction offered using List.reverseRecOn with
  | nil =>
    intro shape
    refine ⟨rfl, Best.empty.congr ?_⟩
    intro key
    simp [promises]
  | append_singleton front offer ih =>
    rw [List.foldl_append, List.foldl_cons, List.foldl_nil]
    exact ih.note offer

theorem shape_ne_nil {s : Suggestion} (usable : s.usable tables lower = true) : (s.shape tables lower).2.1 ≠ [] := by
  simp only [Suggestion.usable, Bool.and_eq_true, decide_eq_true_eq] at usable
  unfold Suggestion.shape maxKeyColumns
  simpa using usable.2

variable {queries : List Query} {shape : Shape} {entry : Entry}

theorem candidates_entry (found : (candidates tables lower queries).lookup shape = some entry) :
    entry.shape = shape ∧ entry.columns ≠ [] ∧
      Best Helped.gain entry.helps (promises tables lower (offers queries) [entry.shape]) := by
  obtain ⟨same, best⟩ := gathered_foldl tables lower (offers queries) shape
  rw [show (offers queries).foldl (fun found offer => noteSuggestion tables lower found offer.1 offer.2) ∅ =
    candidates tables lower queries from rfl, found, Option.getD_some] at same best
  have there : shape ∈ candidates tables lower queries := by
    rw [← AList.lookup_isSome, found]
    rfl
  obtain ⟨offer, -, usable, made⟩ := mem_candidates.mp there
  have columns := shape_ne_nil usable
  rw [made, ← same] at columns
  rw [same]
  exact ⟨rfl, columns, best⟩

end Candidates

section Fold

/-- What a list of entries is after the candidates of another are folded into it. -/
structure Folded (tables : Tables) (lower : Text → Text) (offered : List (Query × Suggestion)) (front kept : List Entry) :
    Prop where
  faithful : ∀ entry ∈ kept, entry.Faithful tables lower offered
  shaped : ∀ entry ∈ kept, ∃ candidate ∈ front, entry.shape = candidate.shape
  hosted : ∀ candidate ∈ front, ∃ entry ∈ kept, candidate.shape ∈ entry.shapes
  apart : (kept.map Entry.shape).Pairwise Apart

theorem Apart.symm {a b : Shape} (apart : Apart a b) : Apart b a :=
  fun table method => (apart table.symm method.symm).symm

theorem shape_mem_shapes (entry : Entry) : entry.shape ∈ entry.shapes := List.mem_cons_self

theorem absorb_shapes {host candidate : Entry} (hosts : host.hosts candidate = true) :
    (host.absorb lower candidate).shapes = host.shapes ++ [candidate.shape] := by
  simp only [Entry.hosts, Bool.and_eq_true, decide_eq_true_eq] at hosts
  simp [Entry.shapes, Entry.absorb, Entry.shape, hosts.1.1, hosts.1.2]

theorem absorb_faithful {host candidate : Entry} (hosts : host.hosts candidate = true)
    (faithful : host.Faithful tables lower offered)
    (best : Best Helped.gain candidate.helps (promises tables lower offered [candidate.shape])) :
    (host.absorb lower candidate).Faithful tables lower offered := by
  unfold Entry.Faithful
  rw [absorb_shapes hosts]
  exact (faithful.merge best).congr promises_append

/-- A candidate is kept, or goes to its first host. -/
theorem place_cases (lower : Text → Text) (candidate : Entry) (kept : List Entry) :
    ((∀ host ∈ kept, host.hosts candidate = false) ∧ place lower candidate kept = kept ++ [{ candidate with merged := [] }]) ∨
      ∃ before host after, kept = before ++ host :: after ∧ host.hosts candidate = true ∧
        place lower candidate kept = before ++ host.absorb lower candidate :: after := by
  induction kept with
  | nil => exact .inl ⟨nofun, rfl⟩
  | cons head rest ih =>
    by_cases hosts : head.hosts candidate = true
    · right
      exact ⟨[], head, rest, rfl, hosts, by simp [place, hosts]⟩
    · rcases ih with ⟨none, placed⟩ | ⟨before, host, after, rfl, takes, placed⟩
      · left
        refine ⟨?_, by simp [place, hosts, placed]⟩
        intro host member
        rcases List.mem_cons.mp member with rfl | later
        · exact Bool.eq_false_iff.mpr hosts
        · exact none host later
      · right
        exact ⟨head :: before, host, after, rfl, takes, by simp [place, hosts, placed]⟩

/-- A candidate no longer than the entries, with no host among them, is apart from all. -/
theorem apart_of_unhosted {host candidate : Entry} (nonempty : candidate.columns ≠ [])
    (shorter : candidate.columns.length ≤ host.columns.length) (unhosted : host.hosts candidate = false) :
    Apart host.shape candidate.shape := by
  intro table method
  have starts : ¬ candidate.columns <+: host.columns := by
    intro starts
    have hosts : host.hosts candidate = true := by
      simp only [Entry.hosts, Bool.and_eq_true, decide_eq_true_eq]
      exact ⟨⟨table, method⟩, startsWith_iff.mpr ⟨nonempty, starts⟩⟩
    rw [hosts] at unhosted
    cases unhosted
  refine ⟨?_, starts⟩
  intro longer
  have equal := longer.eq_of_length_le shorter
  exact starts ⟨[], by rw [List.append_nil]; exact equal.symm⟩

theorem Folded.place {front kept : List Entry} (folded : Folded tables lower offered front kept) {candidate : Entry}
    (nonempty : candidate.columns ≠ []) (shorter : ∀ other ∈ front, candidate.columns.length ≤ other.columns.length)
    (best : Best Helped.gain candidate.helps (promises tables lower offered [candidate.shape])) :
    Folded tables lower offered (front ++ [candidate]) (place lower candidate kept) := by
  have here : candidate ∈ front ++ [candidate] := List.mem_append_right _ List.mem_cons_self
  rcases place_cases lower candidate kept with ⟨unhosted, placed⟩ | ⟨before, host, after, rfl, hosts, placed⟩
  · rw [placed]
    constructor
    case faithful =>
      intro entry member
      rcases List.mem_append.mp member with old | new
      · exact folded.faithful entry old
      · rw [List.mem_singleton.mp new]
        exact best
    case shaped =>
      intro entry member
      rcases List.mem_append.mp member with old | new
      · obtain ⟨other, listed, same⟩ := folded.shaped entry old
        exact ⟨other, List.mem_append_left _ listed, same⟩
      · rw [List.mem_singleton.mp new]
        exact ⟨candidate, here, rfl⟩
    case hosted =>
      intro other member
      rcases List.mem_append.mp member with old | new
      · obtain ⟨entry, kept, listed⟩ := folded.hosted other old
        exact ⟨entry, List.mem_append_left _ kept, listed⟩
      · rw [List.mem_singleton.mp new]
        exact ⟨_, List.mem_append_right _ List.mem_cons_self, shape_mem_shapes _⟩
    case apart =>
      rw [List.map_append]
      refine List.pairwise_append.mpr ⟨folded.apart, List.pairwise_singleton _ _, ?_⟩
      intro shape listed' other new
      obtain ⟨host, member, rfl⟩ := List.mem_map.mp listed'
      rw [List.mem_singleton.mp new]
      obtain ⟨longer, listed, same⟩ := folded.shaped host member
      have length : host.columns.length = longer.columns.length := congrArg (fun shape => shape.2.1.length) same
      exact apart_of_unhosted nonempty (length ▸ shorter longer listed) (unhosted host member)
  · rw [placed]
    have inside : host ∈ before ++ host :: after := List.mem_append_right _ List.mem_cons_self
    have split : ∀ {entry}, entry ∈ before ++ host.absorb lower candidate :: after →
        entry ∈ before ++ host :: after ∨ entry = host.absorb lower candidate := by
      intro entry member
      rcases List.mem_append.mp member with early | late
      · exact .inl (List.mem_append_left _ early)
      · rcases List.mem_cons.mp late with rfl | later
        · exact .inr rfl
        · exact .inl (List.mem_append_right _ (List.mem_cons_of_mem _ later))
    constructor
    case faithful =>
      intro entry member
      rcases split member with old | rfl
      · exact folded.faithful entry old
      · exact absorb_faithful hosts (folded.faithful host inside) best
    case shaped =>
      intro entry member
      rcases split member with old | rfl
      · obtain ⟨other, listed, same⟩ := folded.shaped entry old
        exact ⟨other, List.mem_append_left _ listed, same⟩
      · obtain ⟨other, listed, same⟩ := folded.shaped host inside
        exact ⟨other, List.mem_append_left _ listed, same⟩
    case hosted =>
      have absorbed : host.absorb lower candidate ∈ before ++ host.absorb lower candidate :: after :=
        List.mem_append_right _ List.mem_cons_self
      intro other member
      rcases List.mem_append.mp member with old | new
      · obtain ⟨entry, kept, listed⟩ := folded.hosted other old
        rcases List.mem_append.mp kept with early | late
        · exact ⟨entry, List.mem_append_left _ early, listed⟩
        · rcases List.mem_cons.mp late with rfl | later
          · refine ⟨_, absorbed, ?_⟩
            rw [absorb_shapes hosts]
            exact List.mem_append_left _ listed
          · exact ⟨entry, List.mem_append_right _ (List.mem_cons_of_mem _ later), listed⟩
      · refine ⟨_, absorbed, ?_⟩
        rw [absorb_shapes hosts, List.mem_singleton.mp new]
        exact List.mem_append_right _ List.mem_cons_self
    case apart =>
      have apart := folded.apart
      rw [List.map_append, List.map_cons] at apart ⊢
      exact apart

instance : IsTrans Entry Longer where
  trans a b c first second := by
    unfold Longer at *
    rw [not_lt] at *
    rcases first with longer | ⟨same, before⟩ <;> rcases second with longer' | ⟨same', before'⟩
    case inr.inr => exact .inr ⟨same.trans same', before.trans before'⟩
    all_goals omega

instance : Std.Total Longer where
  total a b := by
    unfold Longer
    rcases lt_trichotomy a.columns.length b.columns.length with less | same | more
    · exact .inr (.inl less)
    · rcases le_total a.columns b.columns with before | after
      · exact .inl (.inr ⟨same, not_lt.mpr before⟩)
      · exact .inr (.inr ⟨same.symm, not_lt.mpr after⟩)
    · exact .inl (.inl more)

theorem folded_all {candidates : List Entry} (nonempty : ∀ candidate ∈ candidates, candidate.columns ≠ [])
    (best : ∀ candidate ∈ candidates, Best Helped.gain candidate.helps (promises tables lower offered [candidate.shape])) :
    Folded tables lower offered (longestFirst candidates) (folded lower candidates) := by
  have sorted : (longestFirst candidates).Pairwise fun a b => b.columns.length ≤ a.columns.length := by
    refine (List.pairwise_insertionSort Longer candidates).imp ?_
    rintro a b (longer | ⟨same, -⟩)
    · exact longer.le
    · exact same.ge
  have inside : ∀ candidate ∈ longestFirst candidates, candidate ∈ candidates :=
    fun candidate member => (List.mem_insertionSort _).mp member
  unfold folded
  generalize longestFirst candidates = list at sorted inside
  induction list using List.reverseRecOn with
  | nil => exact ⟨nofun, nofun, nofun, List.Pairwise.nil⟩
  | append_singleton front candidate ih =>
    obtain ⟨before, -, shorter⟩ := List.pairwise_append.mp sorted
    have here : candidate ∈ candidates := inside candidate (List.mem_append_right _ List.mem_cons_self)
    rw [List.foldl_append, List.foldl_cons, List.foldl_nil]
    refine (ih before fun other member => inside other (List.mem_append_left _ member)).place (nonempty candidate here) ?_
      (best candidate here)
    exact fun other member => shorter other member candidate List.mem_cons_self

end Fold

section Merged

variable (lower) (digest : Text → Text) (inputs : Inputs) (advice : Advice)

/-- The adds of the plan, offered now, later or not at all. -/
def Additions.all (additions : Additions) : List Add := additions.add ++ additions.later ++ additions.skipped

variable {lower digest inputs advice} {entry : Entry} {add : Add}

theorem mem_openCandidates : entry ∈ openCandidates tables lower inputs advice ↔
    ∃ shape, (candidates tables lower advice.queries).lookup shape = some entry ∧
      coveringOf tables lower inputs.existing shape = none := by
  unfold openCandidates
  constructor
  · intro listed'
    obtain ⟨⟨shape, _⟩, member, rfl⟩ := List.mem_map.mp listed'
    obtain ⟨found, uncovered⟩ := List.mem_filter.mp member
    exact ⟨shape, mem_listed.mp found, Option.isNone_iff_eq_none.mp uncovered⟩
  · rintro ⟨shape, found, uncovered⟩
    exact List.mem_map.mpr ⟨(shape, entry),
      List.mem_filter.mpr ⟨mem_listed.mpr found, Option.isNone_iff_eq_none.mpr uncovered⟩, rfl⟩

theorem folded_open : Folded tables lower (offers advice.queries) (longestFirst (openCandidates tables lower inputs advice))
    (folded lower (openCandidates tables lower inputs advice)) := by
  apply folded_all
  · intro candidate member
    obtain ⟨shape, found, -⟩ := mem_openCandidates.mp member
    exact (candidates_entry found).2.1
  · intro candidate member
    obtain ⟨shape, found, -⟩ := mem_openCandidates.mp member
    exact (candidates_entry found).2.2

theorem mem_folded (member : entry ∈ mergedEntries tables lower inputs advice) :
    entry ∈ folded lower (openCandidates tables lower inputs advice) :=
  (List.mem_insertionSort _).mp ((thin_sublist _ _).subset member)

theorem alternative_refl (entry : Entry) : entry.alternative entry = true := by simp [Entry.alternative]

/-- A query that an uncovered suggestion helps is helped by an entry of the same table. -/
theorem helped_by_merged {offer : Query × Suggestion} (offered : offer ∈ offers advice.queries)
    (usable : offer.2.usable tables lower = true)
    (uncovered : coveringOf tables lower inputs.existing (offer.2.shape tables lower) = none) :
    ∃ entry ∈ mergedEntries tables lower inputs advice, entry.table = norm lower offer.2.table ∧
      offer.1.key ∈ entry.helps := by
  have there := mem_candidates.mpr ⟨offer, offered, usable, rfl⟩
  obtain ⟨candidate, found⟩ := Option.isSome_iff_exists.mp (AList.lookup_isSome.mpr there)
  have listed : candidate ∈ longestFirst (openCandidates tables lower inputs advice) :=
    (List.mem_insertionSort _).mpr (mem_openCandidates.mpr ⟨_, found, uncovered⟩)
  obtain ⟨host, kept, hosted⟩ := folded_open.hosted candidate listed
  rw [(candidates_entry found).1] at hosted
  obtain ⟨helped, lookup⟩ := (folded_open.faithful host kept).lookup ⟨offer, offered, usable, hosted, rfl, rfl⟩
  have sorted : host ∈ (folded lower (openCandidates tables lower inputs advice)).insertionSort
      fun a b => a.before b = true := (List.mem_insertionSort _).mpr kept
  obtain ⟨entry, merged, covers⟩ := thin_dominates Entry.alternative alternative_refl sorted
  simp only [Entry.alternative, Bool.and_eq_true, decide_eq_true_eq, List.all_eq_true] at covers
  refine ⟨entry, merged, ?_, covers.2 offer.1.key ?_⟩
  · obtain ⟨columns, -, same⟩ := List.mem_map.mp hosted
    exact covers.1.trans (congrArg Prod.fst same)
  · rw [mem_keys_iff, lookup]
    exact Option.some_ne_none helped

theorem merged_apart : ((mergedEntries tables lower inputs advice).map Entry.shape).Pairwise Apart := by
  have sorted : (((folded lower (openCandidates tables lower inputs advice)).insertionSort
      fun a b => a.before b = true).map Entry.shape).Pairwise Apart :=
    (((List.perm_insertionSort _ _).map Entry.shape).pairwise_iff Apart.symm).mpr folded_open.apart
  exact sorted.sublist ((thin_sublist _ _).map Entry.shape)

theorem merged_uncovered (member : entry ∈ mergedEntries tables lower inputs advice) :
    coveringOf tables lower inputs.existing entry.shape = none := by
  obtain ⟨candidate, listed, same⟩ := folded_open.shaped entry (mem_folded member)
  obtain ⟨shape, found, uncovered⟩ := mem_openCandidates.mp ((List.mem_insertionSort _).mp listed)
  rw [same, (candidates_entry found).1]
  exact uncovered

theorem mem_offeredAdds : add ∈ offeredAdds tables lower digest inputs advice ↔
    add ∈ worthwhile tables lower digest inputs advice ∧ add.label ≠ .skip := by
  rw [offeredAdds, List.mem_insertionSort, List.mem_filter, decide_eq_true_eq]

theorem mem_skippedAdds : add ∈ skippedAdds tables lower digest inputs advice ↔
    add ∈ worthwhile tables lower digest inputs advice ∧ add.label = .skip := by
  rw [skippedAdds, List.mem_insertionSort, List.mem_filter, decide_eq_true_eq]

theorem laterAdds_sublist :
    (laterAdds tables lower digest inputs advice).Sublist (offeredAdds tables lower digest inputs advice) := by
  have sub := (List.filter_sublist (l := (offeredAdds tables lower digest inputs advice).zipIdx) (p := fun item =>
    decide (maxAdds ≤ item.2) || decide (item.1.benefit < minAddBenefit))).map Prod.fst
  rwa [List.zipIdx_map_fst] at sub

theorem all_eq (tables : Tables) (lower digest : Text → Text) (inputs : Inputs) (advice : Advice) :
    (buildAdditions tables lower digest inputs advice).all =
      firstAdds tables lower digest inputs advice ++ laterAdds tables lower digest inputs advice ++
        skippedAdds tables lower digest inputs advice := by
  unfold buildAdditions
  rfl

theorem mem_firstAdds : add ∈ firstAdds tables lower digest inputs advice ↔
    add ∈ offeredAdds tables lower digest inputs advice ∧ add ∉ laterAdds tables lower digest inputs advice := by
  rw [firstAdds, List.mem_filter, decide_eq_true_eq]

theorem mem_all : add ∈ (buildAdditions tables lower digest inputs advice).all ↔
    add ∈ worthwhile tables lower digest inputs advice := by
  rw [all_eq, List.mem_append, List.mem_append, mem_firstAdds, mem_skippedAdds]
  constructor
  · rintro ((⟨offered, -⟩ | later) | ⟨member, -⟩)
    · exact (mem_offeredAdds.mp offered).1
    · exact (mem_offeredAdds.mp (laterAdds_sublist.subset later)).1
    · exact member
  · intro member
    by_cases skipped : add.label = .skip
    · exact .inr ⟨member, skipped⟩
    · left
      rw [or_iff_not_imp_right]
      exact fun unlisted => ⟨mem_offeredAdds.mpr ⟨member, skipped⟩, unlisted⟩

def Add.shape (add : Add) : Shape := (add.table, add.columns, add.method)

/-- The shapes of the suggestions that were merged for an add. -/
def Add.shapes (add : Add) : List Shape := (add.columns :: add.merged).map fun c => (add.table, c, add.method)

theorem mem_worthwhile : add ∈ worthwhile tables lower digest inputs advice ↔
    ∃ entry ∈ mergedEntries tables lower inputs advice, minBenefit ≤ entry.benefit ∧
      addOf tables lower digest inputs advice entry = add := by
  simp [worthwhile, and_assoc]

theorem worthwhile_apart :
    (worthwhile tables lower digest inputs advice).Pairwise fun a b => Apart a.shape b.shape := by
  have entries : (mergedEntries tables lower inputs advice).Pairwise fun a b => Apart a.shape b.shape :=
    List.pairwise_map.mp merged_apart
  exact List.pairwise_map.mpr (entries.filter _)

theorem all_apart :
    (buildAdditions tables lower digest inputs advice).all.Pairwise fun a b => Apart a.shape b.shape := by
  have : Std.Symm fun a b : Add => Apart a.shape b.shape := ⟨fun _ _ apart => apart.symm⟩
  have apart : (worthwhile tables lower digest inputs advice).Pairwise fun a b => Apart a.shape b.shape := worthwhile_apart
  have every := apart.forall
  have offered : (offeredAdds tables lower digest inputs advice).Pairwise fun a b => Apart a.shape b.shape :=
    ((List.perm_insertionSort _ _).pairwise_iff fun apart => apart.symm).mpr (worthwhile_apart.filter _)
  have skipped : (skippedAdds tables lower digest inputs advice).Pairwise fun a b => Apart a.shape b.shape :=
    ((List.perm_insertionSort _ _).pairwise_iff fun apart => apart.symm).mpr (worthwhile_apart.filter _)
  rw [all_eq]
  refine List.pairwise_append.mpr ⟨List.pairwise_append.mpr ⟨offered.filter _, offered.sublist laterAdds_sublist, ?_⟩,
    skipped, ?_⟩
  · intro a now b later
    obtain ⟨listed, notLater⟩ := mem_firstAdds.mp now
    apply every (mem_offeredAdds.mp listed).1 (mem_offeredAdds.mp (laterAdds_sublist.subset later)).1
    rintro rfl
    exact notLater later
  · intro a there b skipped'
    have listed : a ∈ offeredAdds tables lower digest inputs advice := by
      rcases List.mem_append.mp there with now | later
      · exact (mem_firstAdds.mp now).1
      · exact laterAdds_sublist.subset later
    apply every (mem_offeredAdds.mp listed).1 (mem_skippedAdds.mp skipped').1
    rintro rfl
    exact (mem_offeredAdds.mp listed).2 (mem_skippedAdds.mp skipped').2

/-- Every query that a usable suggestion helps has an index for it among the existing ones, among the adds or among the
entries of too small a benefit; an add's gain for a query is the greatest that was merged for it; no add's columns start
another's of its table and method; and no existing index covers an add. -/
theorem suggestions_survive (tables : Tables) (lower digest : Text → Text) (inputs : Inputs) (advice : Advice) :
    (∀ offer ∈ offers advice.queries, offer.2.usable tables lower = true →
      (∃ x ∈ inputs.existing, x.covering tables lower (offer.2.shape tables lower) = true) ∨
        ∃ entry ∈ mergedEntries tables lower inputs advice, entry.table = norm lower offer.2.table ∧
          (∃ helped ∈ entry.helped, helped.key = offer.1.key) ∧
          (entry.benefit < minBenefit ∨ addOf tables lower digest inputs advice entry ∈
            (buildAdditions tables lower digest inputs advice).all)) ∧
    (∀ add ∈ (buildAdditions tables lower digest inputs advice).all, ∀ helped ∈ add.helps,
      IsGreatest {gain | ∃ offer ∈ offers advice.queries, offer.2.usable tables lower = true ∧
        offer.1.key = helped.key ∧ offer.2.shape tables lower ∈ add.shapes ∧
          (offer.2.trimmed tables lower).gain lower = gain} helped.gain) ∧
    ((buildAdditions tables lower digest inputs advice).all.Pairwise fun a b => Apart a.shape b.shape) ∧
    ∀ add ∈ (buildAdditions tables lower digest inputs advice).all, ∀ x ∈ inputs.existing,
      x.covering tables lower add.shape = false := by
  refine ⟨?_, ?_, all_apart, ?_⟩
  · intro offer offered usable
    cases covering : coveringOf tables lower inputs.existing (offer.2.shape tables lower) with
    | some x => exact .inl ⟨x, List.mem_of_find?_eq_some covering, by simpa using List.find?_some covering⟩
    | none =>
      right
      obtain ⟨entry, merged, table, helps⟩ := helped_by_merged offered usable covering
      obtain ⟨helped, found⟩ := Option.isSome_iff_exists.mp (AList.lookup_isSome.mpr helps)
      have promised := (folded_open.faithful entry (mem_folded merged)).mem found
      obtain ⟨other, -, -, -, key, made⟩ := promised
      refine ⟨entry, merged, table, ⟨helped, ?_, ?_⟩, ?_⟩
      · exact List.mem_map.mpr ⟨⟨offer.1.key, helped⟩, AList.mem_lookup_iff.mp found, rfl⟩
      · rw [← made]
        exact key
      · rw [mem_all, mem_worthwhile, or_iff_not_imp_left, not_lt]
        exact fun enough => ⟨entry, merged, enough, rfl⟩
  · intro add member helped helps
    obtain ⟨entry, merged, -, rfl⟩ := mem_worthwhile.mp (mem_all.mp member)
    obtain ⟨⟨key, helped⟩, stored, rfl⟩ := List.mem_map.mp ((List.mem_insertionSort _).mp helps)
    have found := AList.mem_lookup_iff.mpr stored
    have best := folded_open.faithful entry (mem_folded merged)
    have greatest := best.isGreatest found
    have named : helped.key = key := by
      obtain ⟨offer, -, -, -, key', made⟩ := best.mem found
      rw [← made]
      exact key'
    have same : {gain | ∃ offer ∈ offers advice.queries, offer.2.usable tables lower = true ∧
        offer.1.key = helped.key ∧ offer.2.shape tables lower ∈ entry.shapes ∧
          (offer.2.trimmed tables lower).gain lower = gain} =
        Helped.gain '' promises tables lower (offers advice.queries) entry.shapes key := by
      rw [← named]
      ext gain
      constructor
      · rintro ⟨offer, offered, usable, key, listed, rfl⟩
        exact ⟨offer.2.help tables lower offer.1, ⟨offer, offered, usable, listed, key, rfl⟩, rfl⟩
      · rintro ⟨help, ⟨offer, offered, usable, listed, key, rfl⟩, rfl⟩
        exact ⟨offer, offered, usable, key, listed, rfl⟩
    rw [← same] at greatest
    exact greatest
  · intro add member x existing
    obtain ⟨entry, merged, -, rfl⟩ := mem_worthwhile.mp (mem_all.mp member)
    exact Bool.eq_false_iff.mpr (List.find?_eq_none.mp (merged_uncovered merged) x existing)

end Merged

def onName : Index := { onEmail "a" "named" 5 with columns := ["name".toList] }

def emailOffer : Query × Suggestion := (byEmail, ⟨"users".toList, ["email".toList], "btree".toList, some 50, true, [], []⟩)

theorem suggestions_survive_email :
    let plan := buildAdditions asciiTables asciiLower id (inputsOf [onName]) (adviceOf [byEmail])
    ((∃ x ∈ [onName], x.covering asciiTables asciiLower (emailOffer.2.shape asciiTables asciiLower) = true) ∨
      ∃ entry ∈ mergedEntries asciiTables asciiLower (inputsOf [onName]) (adviceOf [byEmail]),
        entry.table = norm asciiLower emailOffer.2.table ∧ (∃ helped ∈ entry.helped, helped.key = byEmail.key) ∧
          (entry.benefit < minBenefit ∨ addOf asciiTables asciiLower id (inputsOf [onName]) (adviceOf [byEmail]) entry ∈
            plan.all)) ∧
      ∃ add ∈ plan.all, onName.covering asciiTables asciiLower add.shape = false ∧ ∃ helped ∈ add.helps,
        IsGreatest {gain | ∃ offer ∈ offers [byEmail], offer.2.usable asciiTables asciiLower = true ∧
          offer.1.key = helped.key ∧ offer.2.shape asciiTables asciiLower ∈ add.shapes ∧
            (offer.2.trimmed asciiTables asciiLower).gain asciiLower = gain} helped.gain := by
  intro plan
  have survive := suggestions_survive asciiTables asciiLower id (inputsOf [onName]) (adviceOf [byEmail])
  have there : ∃ add ∈ plan.all, ∃ helped ∈ add.helps, helped.key = byEmail.key := by decide +kernel
  obtain ⟨add, member, helped, helps, -⟩ := there
  refine ⟨survive.1 emailOffer (by decide +kernel) (by decide +kernel), add, member, ?_, helped, helps, ?_⟩
  · exact survive.2.2.2 add member onName List.mem_cons_self
  · exact survive.2.1 add member helped helps

/-- A query of little time, for which no index is left, though no existing one covers what is suggested for it. -/
theorem tiny_benefit_left_out :
    (offers [{ byEmail with share := 1 / 1000 }]).any (fun offer => offer.2.usable asciiTables asciiLower) = true ∧
    (buildAdditions asciiTables asciiLower id (inputsOf []) (adviceOf [{ byEmail with share := 1 / 1000 }])).all = [] := by
  decide +kernel

end Rdst.Indexes
