import Mathlib.Data.Char
import Mathlib.Data.List.Lex
import Rdst.Library.Columns

namespace Rdst.Library.Listing

open Float64 PyText Like Keyset

inductive Dimension
  | view
  | source
  | params
  | activity
  | impact
  | finding
deriving DecidableEq

section Reference

variable (p : Platform) (nowMs : Double) (filters : Filters)

/-- The filter of a dimension. -/
def meets (entry : Entry) : Dimension → Bool
  | .view => viewMatches entry filters.view
  | .source => sourceMatches entry filters.source
  | .params => parameterMatches p.tables entry filters.params
  | .activity => activityMatches p nowMs entry filters.activity
  | .impact => impactMatches entry filters.impact
  | .finding => findingMatches entry filters.finding

/-- All filters but that of a dimension. -/
def meetsOthers (dimension : Dimension) (entry : Entry) : Bool :=
  [Dimension.view, .source, .params, .activity, .impact, .finding].all fun other =>
    decide (other = dimension) || meets p nowMs filters entry other

def meetsAll (entry : Entry) : Bool :=
  [Dimension.view, .source, .params, .activity, .impact, .finding].all (meets p nowMs filters entry)

/-- Every facet is counted under all the other filters. -/
structure Counted (entries : List Entry) (facets : FacetCounts) : Prop where
  view : ∀ name, facets.view name =
    entries.countP fun entry => meetsOthers p nowMs filters .view entry && viewMatches entry name
  source : ∀ name, facets.source name =
    entries.countP fun entry => meetsOthers p nowMs filters .source entry && sourceMatches entry name
  params : ∀ name, facets.params name =
    entries.countP fun entry => meetsOthers p nowMs filters .params entry && parameterMatches p.tables entry name
  activity : ∀ name, facets.activity name =
    entries.countP fun entry => meetsOthers p nowMs filters .activity entry && activityMatches p nowMs entry name
  impact : ∀ name, facets.impact name =
    entries.countP fun entry => meetsOthers p nowMs filters .impact entry && impactMatches entry name
  finding : ∀ name, facets.finding name =
    entries.countP fun entry => meetsOthers p nowMs filters .finding entry && findingMatches entry name

/-- The filters that `select_library` counts the sources under. -/
def sourceOthers (entry : Entry) : Bool :=
  viewMatches entry filters.view && parameterMatches p.tables entry filters.params &&
    activityMatches p nowMs entry filters.activity && impactMatches entry filters.impact

/-- The entries on a target. -/
def LibraryTable.entriesOf (library : LibraryTable p) (target : Text) : List Entry :=
  (library.rows.filter fun stored => stored.targetKey = target).map Stored.entry

/-- The page of the database and that of the selectors. -/
structure Agrees (library : LibraryTable p) (cursorPosition : Option Position) (limit : Nat) : Prop where
  rows : (queryLibrary p library.rows filters cursorPosition limit nowMs).entries =
    (paginate p filters (selectLibrary p nowMs filters (library.entriesOf p filters.target)).1 cursorPosition limit).1
  next : (queryLibrary p library.rows filters cursorPosition limit nowMs).next =
    (paginate p filters (selectLibrary p nowMs filters (library.entriesOf p filters.target)).1 cursorPosition limit).2
  total : (queryLibrary p library.rows filters cursorPosition limit nowMs).total =
    (selectLibrary p nowMs filters (library.entriesOf p filters.target)).1.length
  facets : (queryLibrary p library.rows filters cursorPosition limit nowMs).facets =
    (selectLibrary p nowMs filters (library.entriesOf p filters.target)).2
  database : Counted p nowMs filters (candidates p filters (library.entriesOf p filters.target))
    (queryLibrary p library.rows filters cursorPosition limit nowMs).facets
  selectors : Counted p nowMs filters (candidates p filters (library.entriesOf p filters.target))
    (selectLibrary p nowMs filters (library.entriesOf p filters.target)).2

end Reference

variable {p : Platform} {nowMs : Double} {filters : Filters} {rows : List Stored}

/-- The test of the search for one entry of several. -/
def searchTest (p : Platform) (rawSearch : Text) (entries : List Entry) (entry : Entry) : Bool :=
  let search := normalizeSearch p rawSearch
  if search = [] then true
  else
    let uniquePrefixMatches :=
      if 4 ≤ search.length then entries.countP fun entry => decide (search <+: entry.lowerHash p) else 0
    searchMatches p search uniquePrefixMatches entry

theorem filterBySearch_eq (entries : List Entry) (rawSearch : Text) :
    filterBySearch p entries rawSearch = entries.filter (searchTest p rawSearch entries) := by
  unfold filterBySearch searchTest
  by_cases empty : normalizeSearch p rawSearch = []
  · simp [empty]
  · simp only [if_neg empty]

theorem intercalate_lowered {parts : List Text} (lowered : ∀ part ∈ parts, Lowered part) :
    Lowered (['\n'].intercalate parts) := by
  induction parts with
  | nil => exact fun _ => nofun
  | cons part rest ih =>
    have first := lowered part List.mem_cons_self
    have others := ih fun other member => lowered other (List.mem_cons_of_mem part member)
    cases rest with
    | nil => simpa [List.intercalate] using first
    | cons next rest =>
      intro c member
      have split : ['\n'].intercalate (part :: next :: rest) = part ++ '\n' :: ['\n'].intercalate (next :: rest) := by
        simp [List.intercalate]
      rw [split, List.mem_append, List.mem_cons] at member
      rcases member with inPart | rfl | inRest
      · exact first c inPart
      · rfl
      · exact others c inRest

/-- The statement's search is the test of the search. -/
theorem searchClause_eq (derived : ∀ stored ∈ rows, stored.row = readModelValues p stored.entry) {rawSearch : Text}
    {stored : Stored} (member : stored ∈ rows) :
    searchClause p rawSearch rows stored.row = searchTest p rawSearch (rows.map Stored.entry) stored.entry := by
  unfold searchClause searchTest
  by_cases empty : normalizeSearch p rawSearch = []
  · simp only [if_pos empty]
  · simp only [if_neg empty]
    have lowered := normalizeSearch_lowered (p := p) rawSearch
    have unbroken := normalizeSearch_break (p := p) rawSearch
    generalize normalizeSearch p rawSearch = search at empty lowered unbroken
    have starts : ∀ other ∈ rows, like '\\' (escapeLike search ++ ['%']) other.row.rmHash =
        decide (search <+: other.entry.lowerHash p) := by
      intro other there
      rw [derived other there, lowerHash_eq, Bool.eq_iff_iff, decide_eq_true_iff]
      exact like_starts lowered (hash_lowered other.entry)
    have count : rows.countP (fun other => like '\\' (escapeLike search ++ ['%']) other.row.rmHash) =
        (rows.map Stored.entry).countP fun entry => decide (search <+: entry.lowerHash p) := by
      rw [List.countP_map]
      apply List.countP_congr
      intro other there
      rw [starts other there]
      rfl
    have text : like '\\' ('%' :: (escapeLike search ++ ['%'])) stored.row.rmSearchText =
        (haystacks p stored.entry).any fun value =>
          decide (value ≠ []) && decide (search <:+: normalizeSearch p value) := by
      rw [derived stored member, Bool.eq_iff_iff, like_contains lowered]
      · show search <:+: ['\n'].intercalate (((haystacks p stored.entry).filter fun value => value ≠ []).map
          (normalizeSearch p)) ↔ _
        rw [infix_intercalate unbroken empty]
        simp [and_assoc]
      · apply intercalate_lowered
        intro part there
        obtain ⟨value, -, rfl⟩ := List.mem_map.mp there
        exact normalizeSearch_lowered value
    have hash : stored.row.rmHash = stored.entry.lowerHash p := by
      rw [derived stored member, lowerHash_eq]
      rfl
    simp only [text, count, starts stored member]
    rw [hash]
    unfold searchMatches
    by_cases long : 4 ≤ search.length
    · simp only [if_pos long]
      congr 2
      rw [Bool.and_assoc, Bool.and_assoc, Bool.and_comm (decide (search <+: _))]
    · simp [long]

/-- The rows that a request considers are those of the entries that the selectors consider. -/
theorem candidates_eq (derived : ∀ stored ∈ rows, stored.row = readModelValues p stored.entry) (filters : Filters) :
    (candidateRows p rows filters).map Stored.entry =
      candidates p filters ((rows.filter fun stored => stored.targetKey = filters.target).map Stored.entry) := by
  unfold candidateRows candidates
  simp only [filterBySearch_eq]
  have ofTarget : ∀ stored ∈ rows.filter fun stored => stored.targetKey = filters.target,
      stored.row = readModelValues p stored.entry := fun stored member => derived stored (List.mem_filter.mp member).1
  generalize (rows.filter fun stored => stored.targetKey = filters.target) = rows at ofTarget
  have saved : ∀ stored ∈ rows, stored.row.rmIsSaved = decide (stored.entry.savedAt ≠ []) := by
    intro stored member
    rw [ofTarget stored member]
    rfl
  cases filters.starred with
  | none =>
    simp only [Bool.and_true, List.filter_map]
    congr 1
    apply List.filter_congr
    intro stored member
    exact searchClause_eq ofTarget member
  | some starred =>
    simp only [List.filter_filter, List.filter_map]
    congr 1
    apply List.filter_congr
    intro stored member
    rw [searchClause_eq ofTarget member, Bool.and_comm]
    show _ = (decide (decide (stored.entry.savedAt ≠ []) = starred) && _)
    rw [← saved stored member]
    congr 1
    cases starred <;> cases stored.row.rmIsSaved <;> rfl

theorem candidateRows_subset : candidateRows p rows filters ⊆ rows := by
  intro stored member
  exact (List.mem_filter.mp (List.mem_filter.mp member).1).1

theorem selected_eq (derived : ∀ stored ∈ rows, stored.row = readModelValues p stored.entry) {stored : Stored}
    (member : stored ∈ rows) :
    (dimensionPredicates filters nowMs).all stored.row = meetsAll p nowMs filters stored.entry := by
  rw [derived stored member]
  simp [Predicates.all, dimensionPredicates, meetsAll, meets, viewColumn_eq, sourceColumn_eq, paramColumn_eq,
    activitySql_eq, impactSql_eq, findingColumn_eq, Bool.and_assoc]

/-- The statement counts every facet under all the other filters. -/
theorem facetCounts_counted (derived : ∀ stored ∈ rows, stored.row = readModelValues p stored.entry)
    {candidate : List Stored} (subset : candidate ⊆ rows) :
    Counted p nowMs filters (candidate.map Stored.entry) (facetCounts filters nowMs candidate) := by
  have columns : ∀ stored ∈ candidate, stored.row = readModelValues p stored.entry :=
    fun stored member => derived stored (subset member)
  constructor
  all_goals
    intro name
    rw [List.countP_map]
    apply List.countP_congr
    intro stored member
    simp [dimensionPredicates, columns stored member, meetsOthers, meets, viewColumn_eq, sourceColumn_eq,
      paramColumn_eq, activitySql_eq, impactSql_eq, findingColumn_eq, and_assoc]

theorem tally_count {Name : Type} (counts : Name → Nat) (others : Bool) (met : Name → Bool) (name : Name) (rest : Nat) :
    tally counts others met name + rest = counts name + (rest + if (others && met name) = true then 1 else 0) := by
  unfold tally
  split <;> omega

/-- What the loop of `select_library` has counted and selected at its end. -/
theorem select_fold (entries : List Entry) (counts : FacetCounts) (selected : List Entry) :
    entries.foldl (selectEntry p nowMs filters) (counts, selected) =
      ({ view := fun name => counts.view name +
          entries.countP fun entry => meetsOthers p nowMs filters .view entry && viewMatches entry name
         source := fun name => counts.source name +
          entries.countP fun entry => sourceOthers p nowMs filters entry && sourceMatches entry name
         params := fun name => counts.params name +
          entries.countP fun entry => meetsOthers p nowMs filters .params entry && parameterMatches p.tables entry name
         activity := fun name => counts.activity name +
          entries.countP fun entry => meetsOthers p nowMs filters .activity entry && activityMatches p nowMs entry name
         impact := fun name => counts.impact name +
          entries.countP fun entry => meetsOthers p nowMs filters .impact entry && impactMatches entry name
         finding := fun name => counts.finding name +
          entries.countP fun entry => meetsOthers p nowMs filters .finding entry && findingMatches entry name },
        selected ++ entries.filter (meetsAll p nowMs filters)) := by
  induction entries generalizing counts selected with
  | nil => simp
  | cons entry rest ih =>
    rw [List.foldl_cons, selectEntry, ih]
    have shapes : ∀ dimension, meetsOthers p nowMs filters dimension entry =
        [Dimension.view, .source, .params, .activity, .impact, .finding].all fun other =>
          decide (other = dimension) || meets p nowMs filters entry other := fun _ => rfl
    have every : meetsAll p nowMs filters entry =
        [Dimension.view, .source, .params, .activity, .impact, .finding].all (meets p nowMs filters entry) := rfl
    congr 1
    · simp only [FacetCounts.mk.injEq]
      refine ⟨?_, ?_, ?_, ?_, ?_, ?_⟩ <;> funext name <;> rw [List.countP_cons, tally_count] <;>
        simp [shapes, sourceOthers, meets, and_assoc]
    · rw [List.filter_cons]
      simp only [every, meets, List.all_cons, List.all_nil, Bool.and_true, Bool.and_assoc]
      split <;> simp

theorem before_strict : Strict Position.Before := by
  refine ⟨?_, ?_, ?_⟩
  · rintro a (value | ⟨-, hash⟩)
    · exact lt_irrefl _ value
    · exact lt_irrefl _ hash
  · rintro a b c (first | ⟨equal, first⟩) (second | ⟨equal', second⟩)
    · exact .inl (second.trans first)
    · exact .inl (equal' ▸ first)
    · exact .inl (equal ▸ second)
    · exact .inr ⟨equal.trans equal', first.trans second⟩
  · intro a b
    rcases lt_trichotomy a.value.val b.value.val with value | value | value
    · exact .inr (.inr (.inl value))
    · rcases lt_trichotomy a.hash b.hash with hash | hash | hash
      · exact .inl (.inr ⟨value, hash⟩)
      · right
        left
        cases a
        cases b
        exact congrArg₂ Position.mk (Subtype.ext value) hash
      · exact .inr (.inr (.inr ⟨value.symm, hash⟩))
    · exact .inl (.inl value)

theorem place_eq (derived : ∀ stored ∈ rows, stored.row = readModelValues p stored.entry) {stored : Stored}
    (member : stored ∈ rows) : stored.place filters.sort = stored.entry.position p filters := by
  unfold Stored.place Entry.position
  rw [derived stored member, sortTerm_eq]
  rfl

/-- The rows that a request selects, whatever page it asks for. -/
def selectedRows (p : Platform) (rows : List Stored) (filters : Filters) (nowMs : Double) : List Stored :=
  orderRows filters.sort ((candidateRows p rows filters).filter fun stored =>
    (dimensionPredicates filters nowMs).all stored.row)

theorem selectedRows_subset : selectedRows p rows filters nowMs ⊆ rows := by
  intro stored member
  have inside := (ordered_perm _).subset member
  exact candidateRows_subset (List.mem_filter.mp inside).1

section OneLibrary

variable (library : LibraryTable p)

theorem places_distinct {picked : List Stored} (sublist : picked.Sublist library.rows)
    (ofTarget : ∀ stored ∈ picked, stored.targetKey = filters.target) :
    (picked.map (Stored.place filters.sort)).Nodup := by
  have distinct := library.distinct.sublist (sublist.map _)
  rw [List.Nodup, List.pairwise_map] at distinct ⊢
  refine distinct.imp_of_mem ?_
  intro a b inA inB differ same
  apply differ
  rw [ofTarget a inA, ofTarget b inB]
  have hashes : ∀ stored ∈ picked, (stored.place filters.sort).hash = stored.entry.hash.val := by
    intro stored member
    show stored.row.rmHash = _
    rw [library.derived stored (sublist.subset member)]
    rfl
  rw [← hashes a inA, ← hashes b inB, same]

theorem base_distinct (filters : Filters) (nowMs : Double) : (((candidateRows p library.rows filters).filter fun stored =>
    (dimensionPredicates filters nowMs).all stored.row).map (Stored.place filters.sort)).Nodup := by
  apply places_distinct library
  · exact List.filter_sublist.trans (List.filter_sublist.trans List.filter_sublist)
  · intro stored member
    have inside := (List.mem_filter.mp (List.mem_filter.mp member).1).1
    exact of_decide_eq_true (List.mem_filter.mp inside).2

theorem selectedRows_sorted : (selectedRows p library.rows filters nowMs).Pairwise fun a b =>
    (a.place filters.sort).Before (b.place filters.sort) :=
  ordered_sorted before_strict (base_distinct library filters nowMs)

/-- A page reads on among the selected rows, by either statement. -/
theorem pageRows_eq (cursorPosition : Option Position) (probe : Nat) :
    pageRows p library.rows filters nowMs cursorPosition probe =
      (after Position.Before (Stored.place filters.sort) cursorPosition
        (selectedRows p library.rows filters nowMs)).take probe := by
  unfold pageRows selectedRows
  cases cursorPosition with
  | none => rfl
  | some cursor =>
    have merged := merge_seeks before_strict (base_distinct library filters nowMs)
      (fun stored => decide ((sortTerm stored.row filters.sort).val = cursor.value.val) &&
        decide (cursor.hash < stored.row.rmHash))
      (fun stored => decide ((sortTerm stored.row filters.sort).val < cursor.value.val)) (by
        intro a b equal lower
        simp only [Bool.and_eq_true, decide_eq_true_eq] at equal lower
        exact .inl (equal.1 ▸ lower)) probe
    refine merged.trans ?_
    unfold after
    congr 1
    apply List.filter_congr
    intro stored _
    rw [Bool.eq_iff_iff]
    simp only [Bool.or_eq_true, Bool.and_eq_true, decide_eq_true_eq]
    unfold Position.Before
    constructor
    · rintro (⟨equal, hash⟩ | lower)
      · exact .inr ⟨equal.symm, hash⟩
      · exact .inl lower
    · rintro (lower | ⟨equal, hash⟩)
      · exact .inr lower
      · exact .inl ⟨equal.symm, hash⟩

/-- The entries that are selected are those of the selectors, in their order. -/
theorem selectLibrary_eq : (selectLibrary p nowMs filters (library.entriesOf p filters.target)).1 =
    (selectedRows p library.rows filters nowMs).map Stored.entry := by
  unfold selectLibrary LibraryTable.entriesOf
  simp only [← candidates_eq library.derived, select_fold, List.nil_append]
  unfold selectedRows orderRows ordered
  have subset : (candidateRows p library.rows filters) ⊆ library.rows := candidateRows_subset
  generalize candidateRows p library.rows filters = candidate at subset
  have picked : (candidate.map Stored.entry).filter (meetsAll p nowMs filters) =
      (candidate.filter fun stored => (dimensionPredicates filters nowMs).all stored.row).map Stored.entry := by
    rw [List.filter_map]
    congr 1
    apply List.filter_congr
    intro stored member
    exact (selected_eq library.derived (subset member)).symm
  rw [picked]
  symm
  apply List.map_insertionSort
  intro a inA b inB
  have place : ∀ stored ∈ candidate.filter fun stored => (dimensionPredicates filters nowMs).all stored.row,
      stored.place filters.sort = stored.entry.position p filters :=
    fun stored member => place_eq library.derived (subset (List.mem_filter.mp member).1)
  rw [place a inA, place b inB]

theorem position_eq {stored : Stored} (member : stored ∈ selectedRows p library.rows filters nowMs) :
    stored.place filters.sort = stored.entry.position p filters :=
  place_eq library.derived (selectedRows_subset member)

/-- What `paginate` keeps after a cursor. -/
def remaining (p : Platform) (filters : Filters) (entries : List Entry) : Option Position → List Entry
  | none => entries
  | some cursor => entries.filter fun entry =>
      decide ((sortValue p entry filters.sort).val < cursor.value.val) ||
        (decide ((sortValue p entry filters.sort).val = cursor.value.val) && decide (cursor.hash < entry.hash.val))

theorem paginate_eq (entries : List Entry) (cursorPosition : Option Position) (limit : Nat) :
    paginate p filters entries cursorPosition limit = ((remaining p filters entries cursorPosition).take limit,
      match ((remaining p filters entries cursorPosition).take limit).getLast? with
      | some last =>
        if limit < (remaining p filters entries cursorPosition).length then some (last.position p filters) else none
      | none => none) := by
  have paired : ∀ rest : List Entry,
      (match (rest.take limit).getLast? with
        | some last => if limit < rest.length then (rest.take limit, some (last.position p filters))
          else (rest.take limit, none)
        | none => (rest.take limit, none)) =
      (rest.take limit, match (rest.take limit).getLast? with
        | some last => if limit < rest.length then some (last.position p filters) else none
        | none => none) := by
    intro rest
    cases (rest.take limit).getLast? with
    | none => rfl
    | some last => exact (apply_ite (Prod.mk (rest.take limit)) _ _ _).symm
  cases cursorPosition with
  | none => exact paired entries
  | some cursor => exact paired _

theorem remaining_eq (cursorPosition : Option Position) :
    remaining p filters ((selectedRows p library.rows filters nowMs).map Stored.entry) cursorPosition =
      (after Position.Before (Stored.place filters.sort) cursorPosition
        (selectedRows p library.rows filters nowMs)).map Stored.entry := by
  cases cursorPosition with
  | none => rfl
  | some cursor =>
    unfold after remaining
    simp only [List.filter_map]
    congr 1
    apply List.filter_congr
    intro stored member
    rw [position_eq library member, Bool.eq_iff_iff]
    simp only [Function.comp_apply, Bool.or_eq_true, Bool.and_eq_true, decide_eq_true_eq]
    unfold Position.Before Entry.position
    constructor
    · rintro (lower | ⟨equal, hash⟩)
      · exact .inl lower
      · exact .inr ⟨equal.symm, hash⟩
    · rintro (lower | ⟨equal, hash⟩)
      · exact .inl lower
      · exact .inr ⟨equal.symm, hash⟩

theorem page_eq (cursorPosition : Option Position) (limit : Nat) :
    ((queryLibrary p library.rows filters cursorPosition limit nowMs).entries,
      (queryLibrary p library.rows filters cursorPosition limit nowMs).next) =
    paginate p filters (selectLibrary p nowMs filters (library.entriesOf p filters.target)).1 cursorPosition limit := by
  rw [paginate_eq, selectLibrary_eq, remaining_eq]
  unfold queryLibrary
  simp only [pageRows_eq]
  have members : ∀ stored ∈ after Position.Before (Stored.place filters.sort) cursorPosition
      (selectedRows p library.rows filters nowMs), stored ∈ selectedRows p library.rows filters nowMs := by
    intro stored member
    cases cursorPosition with
    | none => exact member
    | some cursor => exact (List.mem_filter.mp member).1
  generalize after Position.Before (Stored.place filters.sort) cursorPosition
    (selectedRows p library.rows filters nowMs) = found at members
  rw [List.take_take, Nat.min_eq_left (Nat.le_succ limit), ← List.map_take, List.getLast?_map, List.length_map,
    List.length_take]
  cases ends : (found.take limit).getLast? with
  | none => rfl
  | some last =>
    have inside : last ∈ selectedRows p library.rows filters nowMs :=
      members last ((List.take_subset limit found) (List.mem_of_getLast? ends))
    have place := position_eq library inside
    have hash : last.row.rmHash = last.entry.hash.val := by
      rw [library.derived last (selectedRows_subset inside)]
      rfl
    unfold Stored.place at place
    rw [hash] at place
    simp only [Option.map_some, place]
    by_cases more : limit < found.length
    · rw [if_pos (by omega), if_pos more]
    · rw [if_neg (by omega), if_neg more]

theorem total_eq (cursorPosition : Option Position) (limit : Nat) :
    (queryLibrary p library.rows filters cursorPosition limit nowMs).total =
      (selectLibrary p nowMs filters (library.entriesOf p filters.target)).1.length := by
  rw [selectLibrary_eq, List.length_map, selectedRows, orderRows, (ordered_perm _).length_eq,
    ← List.countP_eq_length_filter]
  rfl

end OneLibrary

/-- Among the entries that are counted, one that meets the other filters meets that of the findings. -/
def FindingCovers (p : Platform) (nowMs : Double) (filters : Filters) (entries : List Entry) : Prop :=
  ∀ entry ∈ candidates p filters entries, sourceOthers p nowMs filters entry = true →
    findingMatches entry filters.finding = true

theorem countP_and {α : Type} (rows : List α) (test also : α → Bool) :
    rows.countP (fun row => test row && also row) = rows.countP test ↔ ∀ row ∈ rows, test row = true → also row = true := by
  have counted : rows.countP test =
      rows.countP (fun row => test row && also row) + rows.countP (fun row => test row && !also row) := by
    rw [List.countP_eq_countP_filter_add rows test also, List.countP_filter, List.countP_filter]
  constructor
  · intro same row member met
    have nowhere : rows.countP (fun row => test row && !also row) = 0 := by omega
    rw [List.countP_eq_zero] at nowhere
    simpa [met] using nowhere row member
  · intro all
    apply List.countP_congr
    intro row member
    rw [Bool.and_eq_true]
    exact ⟨And.left, fun met => ⟨met, all row member met⟩⟩

theorem Counted.unique {entries : List Entry} {first second : FacetCounts} (one : Counted p nowMs filters entries first)
    (other : Counted p nowMs filters entries second) : first = second := by
  obtain ⟨view, source, params, activity, impact, finding⟩ := first
  obtain ⟨view', source', params', activity', impact', finding'⟩ := second
  simp only [FacetCounts.mk.injEq]
  refine ⟨?_, ?_, ?_, ?_, ?_, ?_⟩ <;> funext name
  · exact (one.view name).trans (other.view name).symm
  · exact (one.source name).trans (other.source name).symm
  · exact (one.params name).trans (other.params name).symm
  · exact (one.activity name).trans (other.activity name).symm
  · exact (one.impact name).trans (other.impact name).symm
  · exact (one.finding name).trans (other.finding name).symm

/-- The loop counts the sources under the filter of the findings only where that leaves their counts alone. -/
theorem selectLibrary_counted (entries : List Entry) :
    Counted p nowMs filters (candidates p filters entries) (selectLibrary p nowMs filters entries).2 ↔
      FindingCovers p nowMs filters entries := by
  have looped : (selectLibrary p nowMs filters entries).2 =
      ((candidates p filters entries).foldl (selectEntry p nowMs filters) (emptyFacetCounts, [])).1 := rfl
  rw [looped, select_fold]
  unfold FindingCovers
  generalize candidates p filters entries = considered
  have others : ∀ entry, meetsOthers p nowMs filters .source entry =
      (sourceOthers p nowMs filters entry && findingMatches entry filters.finding) := by
    intro entry
    simp [meetsOthers, meets, sourceOthers, Bool.and_assoc]
  constructor
  · intro counted
    have counts := counted.source .all
    simp only [others, sourceMatches, Bool.and_true, emptyFacetCounts, Nat.zero_add] at counts
    exact (countP_and considered _ _).mp counts.symm
  · intro covers
    constructor
    case source =>
      intro name
      simp only [others, emptyFacetCounts, Nat.zero_add]
      apply List.countP_congr
      intro entry member
      simp only [Bool.and_eq_true]
      exact ⟨fun met => ⟨⟨met.1, covers entry member met.1⟩, met.2⟩, fun met => ⟨met.1.1, met.2⟩⟩
    all_goals
      intro name
      exact Nat.zero_add _

/-- A platform that lowers ASCII and reads no timestamp. -/
def asciiPlatform : Platform where
  tables := asciiTables
  lowering := ⟨fun _ _ _ => [], fun _ _ _ _ => nofun⟩
  fromisoformat := fun _ => none

/-- A query that was saved by hand and never observed. -/
def savedEntry (hash : Digest) : Entry where
  hash := hash
  sql := "SELECT a FROM t".toList
  tag := []
  originalSql := []
  question := []
  source := "manual".toList
  readysetQueryId := []
  readysetSupported := []
  firstAnalyzed := []
  lastAnalyzed := []
  frequency := 1
  observationCount := 0
  avgDurationMs := none
  mostRecentParams := ∅
  firstObservedAt := []
  lastObservedAt := []
  reviewedAt := []
  savedAt := "2026-01-01T00:00:00Z".toList
  lastAnalyzedAt := []
  lastComparedAt := []
  sources := []
  assessment := none

def storedOf (p : Platform) (target : Text) (entry : Entry) : Stored := ⟨target, entry, readModelValues p entry⟩

def oneSaved : LibraryTable asciiPlatform where
  rows := [storedOf asciiPlatform ['t'] (savedEntry ⟨"a1".toList, List.all_eq_true.mp rfl⟩)]
  derived := fun stored member => List.mem_singleton.mp member ▸ rfl
  distinct := List.nodup_singleton _

/-- All queries of a target with a finding of Jev. -/
def withFindings : Filters := ⟨['t'], [], .all, none, .all, .all, .all, .all, .any, .highestImpact⟩

end Rdst.Library.Listing
