import Rdst.Series.Closing
import Rdst.Series.Recompute

namespace Rdst.Series

open Assoc Buckets Totals

variable {s : Store} {filed : List Filed} {thinned retained : List String}

section Fill

variable {child parent : Nat}

/-- The rows that parent buckets are filled from. -/
def Store.toFill (s : Store) (retained : List String) (child parent : Nat) : List (Sigma fun _ : RowKey => Counters) :=
  s.rowsWhere fun row => outside retained row.queryKey && row.res = child &&
    !(s.series.lookup ⟨row.queryKey, parent, start parent row.bucketStart⟩).isSome &&
    (s.series.lookup ⟨everythingElse, parent, start parent row.bucketStart⟩).isSome

/-- The parent buckets are filled from finer rows that hold all of their readings. -/
def SafeToFill (s : Store) (filed : List Filed) (thinned retained : List String) (child parent : Nat) : Prop :=
  ∀ row ∈ s.toFill retained child parent, (parent = 86400 → row.1.queryKey ∉ thinned) →
    Kept s filed child (intoRow parent row)

/-- Whether a reading is in a bucket that is filled. -/
def filledReading (s : Store) (retained : List String) (child parent : Nat) (reading : Reading) : Bool :=
  (s.toFill retained child parent).any fun row => intoRow parent row = reading.row parent

theorem mem_toFill {row : Sigma fun _ : RowKey => Counters} : row ∈ s.toFill retained child parent ↔
    row ∈ s.series.entries ∧ outside retained row.1.queryKey = true ∧ row.1.res = child ∧
      s.series.lookup (intoRow parent row) = none ∧
      ⟨everythingElse, parent, start parent row.1.bucketStart⟩ ∈ s.series.keys := by
  unfold Store.toFill Store.rowsWhere
  rw [List.mem_filter]
  simp only [Bool.and_eq_true, decide_eq_true_eq, Bool.not_eq_true', Option.isSome_eq_false_iff,
    Option.isNone_iff_eq_none, Option.isSome_iff_ne_none, and_assoc, mem_keys_iff, intoRow]

theorem filledReading_iff {reading : Reading} : filledReading s retained child parent reading = true ↔
    ∃ row ∈ s.toFill retained child parent, intoRow parent row = reading.row parent := by
  simp [filledReading]

theorem fillParents_cases {row : RowKey} {c : Counters}
    (found : (fillParents s retained child parent).series.lookup row = some c) :
    (s.series.lookup row = some c ∧ ¬ ∃ fine ∈ s.toFill retained child parent, intoRow parent fine = row) ∨
    ((∃ fine ∈ s.toFill retained child parent, intoRow parent fine = row) ∧
      c = total Sigma.snd (fun fine => intoRow parent fine = row) (s.toFill retained child parent)) := by
  have lookups : (fillParents s retained child parent).series =
      forItems (groupSums (intoRow parent) Sigma.snd (s.toFill retained child parent)) s.series
        fun series row sum => series.insert row sum := rfl
  rw [lookups, forItems_lookup insert_local, groupSums_lookup] at found
  by_cases occurs : ∃ fine ∈ s.toFill retained child parent, intoRow parent fine = row
  · simp only [if_pos occurs, insert_lookup, if_true, Option.some.injEq] at found
    exact .inr ⟨occurs, found.symm⟩
  · rw [if_neg occurs] at found
    exact .inl ⟨found, occurs⟩

theorem fillParents_keys {row : RowKey} : row ∈ (fillParents s retained child parent).series.keys ↔
    row ∈ s.series.keys ∨ ∃ fine ∈ s.toFill retained child parent, intoRow parent fine = row := by
  have lookups : (fillParents s retained child parent).series =
      forItems (groupSums (intoRow parent) Sigma.snd (s.toFill retained child parent)) s.series
        fun series row sum => series.insert row sum := rfl
  rw [mem_keys_iff, lookups, forItems_lookup insert_local, groupSums_lookup, mem_keys_iff]
  by_cases occurs : ∃ fine ∈ s.toFill retained child parent, intoRow parent fine = row
  · simp [occurs, insert_lookup]
  · simp [occurs]

/-- A bucket is filled with all that was recorded in it. -/
theorem Settled.filled_sum (settled : Settled s filed thinned) (level : Level child parent)
    {fine : Sigma fun _ : RowKey => Counters} (member : fine ∈ s.toFill retained child parent)
    (kept : Kept s filed child (intoRow parent fine)) :
    total Sigma.snd (fun other => intoRow parent other = intoRow parent fine) (s.toFill retained child parent) =
      total (fun f => f.reading.counters) (fun f => (intoRow parent fine).Holds f.reading ∧ child ≤ f.reach) filed := by
  have here := mem_toFill.mp member
  apply sum_finer (List.filter_sublist.trans List.filter_sublist) ?_ (intoRow_aligned level fine)
    (Nat.le_of_lt level.finer)
  · intro other found
    have both := List.mem_filter.mp found
    have same : intoRow parent other = intoRow parent fine := by simpa using both.2
    have key : (intoRow parent other).queryKey = (intoRow parent fine).queryKey := by rw [same]
    refine ⟨(mem_toFill.mp both.1).2.2.1, key, ?_⟩
    rw [← same]
    exact intoRow_spans level other
  · intro other found
    have both := List.mem_filter.mp found
    have there := mem_toFill.mp both.1
    have same : intoRow parent other = intoRow parent fine := by simpa using both.2
    have aligned := settled.aligned _ (List.mem_keys_of_mem there.1)
    obtain ⟨f, among, holds⟩ := settled.inhabited _ (List.mem_keys_of_mem there.1)
    have own := (holds_iff aligned).mp holds
    rw [there.2.2.1] at own
    have wide : (intoRow parent fine).Holds f.reading := by
      rw [← same]
      exact ⟨holds.key, holds.spans.widen aligned (intoRow_aligned level other)
        (by rw [there.2.2.1]; exact Nat.le_of_lt level.finer) (intoRow_spans level other)⟩
    have value := (kept f among wide).2
    rw [own, mem_entries_iff.mp there.1] at value
    rw [Option.some.inj value, allOf]
    apply total_congr
    · intro g also
      constructor
      · intro held
        have wideHeld : (intoRow parent fine).Holds g.reading := by
          rw [← same]
          exact ⟨held.key, held.spans.widen aligned (intoRow_aligned level other)
            (by rw [there.2.2.1]; exact Nat.le_of_lt level.finer) (intoRow_spans level other)⟩
        exact ⟨held, (kept g also wideHeld).1⟩
      · intro both
        exact both.1
    · intro g _ _
      rfl
  · intro f among held _
    have value := (kept f among held).2
    have bucket := held.spans.start_eq (intoRow_aligned level fine)
    have into : (⟨f.reading.queryKey, parent, start parent (start child f.reading.ts)⟩ : RowKey) = intoRow parent fine := by
      rw [start_start level.dvd]
      exact (holds_iff (intoRow_aligned level fine)).mp held
    refine ⟨⟨f.reading.row child, _⟩, List.mem_filter.mpr ⟨mem_toFill.mpr ⟨mem_entries_iff.mpr value, ?_, rfl, ?_, ?_⟩, ?_⟩,
      rfl, spans_row f.reading level.knownSrc⟩
    · have key : f.reading.queryKey = fine.1.queryKey := held.key
      rw [show (f.reading.row child).queryKey = fine.1.queryKey from key]
      exact here.2.1
    · rw [intoRow, Reading.row, into]
      exact here.2.2.2.1
    · have same : start parent (start child f.reading.ts) = start parent fine.1.bucketStart := by
        rw [start_start level.dvd]
        exact bucket
      rw [show (f.reading.row child).bucketStart = start child f.reading.ts from rfl, same]
      exact here.2.2.2.2
    · simpa [intoRow, Reading.row] using into
  · intro other found
    exact settled.aligned _ (List.mem_keys_of_mem (mem_toFill.mp (List.mem_filter.mp found).1).1)

/-- Filling the parents of a level keeps what holds. -/
theorem Settled.fill (settled : Settled s filed thinned) (known : (child, parent) ∈ levels)
    (safe : SafeToFill s filed thinned retained child parent) :
    Settled (fillParents s retained child parent)
      (raise child parent (filledReading s retained child parent) filed) thinned := by
  have level := level_of_mem known
  have rowCases : ∀ row ∈ (fillParents s retained child parent).series.keys,
      row ∈ s.series.keys ∨ ∃ fine ∈ s.toFill retained child parent, intoRow parent fine = row :=
    fun row member => fillParents_keys.mp member
  have keeps : ∀ row ∈ s.series.keys, row ∈ (fillParents s retained child parent).series.keys :=
    fun row member => fillParents_keys.mpr (.inl member)
  exact {
    aligned := by
      intro row member
      rcases rowCases row member with old | ⟨fine, _, rfl⟩
      · exact settled.aligned row old
      · exact intoRow_aligned level fine
    inhabited := by
      intro row member
      have held : ∃ f ∈ filed, row.Holds f.reading := by
        rcases rowCases row member with old | ⟨fine, found, rfl⟩
        · exact settled.inhabited row old
        · have here := mem_toFill.mp found
          have there := List.mem_keys_of_mem here.1
          obtain ⟨f, among, holds⟩ := settled.inhabited _ there
          exact ⟨f, among, holds.key, holds.spans.widen (settled.aligned _ there) (intoRow_aligned level fine)
            (by rw [here.2.2.1]; exact Nat.le_of_lt level.finer) (intoRow_spans level fine)⟩
      obtain ⟨f, there, holds⟩ := held
      refine ⟨_, List.mem_map_of_mem there, ?_⟩
      split <;> exact holds
    reaches := by
      intro f member
      obtain ⟨g, there, _, ⟨_, _, moved⟩ | ⟨_, stays⟩⟩ := mem_raise.mp member
      · exact moved ▸ level.knownDest
      · exact stays ▸ settled.reaches g there
    whole := settled.whole
    nested := settled.nested
    closed := by
      intro other also row member res
      rcases rowCases row member with old | ⟨fine, found, rfl⟩
      · exact settled.closed other also row old res
      · -- The parent of everything else is there, so its bucket is closed.
        exact settled.closed other also ⟨everythingElse, parent, start parent fine.1.bucketStart⟩
          (mem_toFill.mp found).2.2.2.2 res
    value := by
      intro row c found claims
      have claimsBefore : s.Claims thinned row := ⟨claims.minute, claims.day⟩
      rcases fillParents_cases found with ⟨old, unfilled⟩ | ⟨⟨fine, member, rfl⟩, sum⟩
      · rw [settled.value row c old claimsBefore]
        symm
        apply upTo_raise level.finer
        intro f _ held _ filled between
        have there := settled.aligned row (mem_keys_of_lookup old)
        have here : row.res = parent := Nat.le_antisymm between.2 (level.next _ there.known between.1)
        have own := (holds_iff there).mp held
        rw [here] at own
        obtain ⟨fine, among, same⟩ := filledReading_iff.mp filled
        exact unfilled ⟨fine, among, same.trans own⟩
      · rw [sum, settled.filled_sum level member (safe fine member claims.day)]
        symm
        apply upTo_raised level settled.reaches
        · intro reading held
          exact filledReading_iff.mpr ⟨fine, member, ((holds_iff (intoRow_aligned level fine)).mp held).symm⟩
        · rfl
    present := by
      intro other also f member reached rolled after
      obtain ⟨g, there, same, moved⟩ := mem_raise.mp member
      rw [same] at rolled after ⊢
      by_cases came : other.1 ≤ g.reach
      · exact keeps _ (settled.present other also g there came rolled after)
      · rcases moved with ⟨atSrc, filled, moved⟩ | ⟨_, stays⟩
        · have here : other.1 = parent := by
            have := level.next _ (level_of_mem also).knownSrc (by omega)
            omega
          rw [here]
          exact fillParents_keys.mpr (.inr (filledReading_iff.mp filled))
        · omega
    waiting := by
      intro f member less
      obtain ⟨g, there, same, moved⟩ := mem_raise.mp member
      have lessBefore : g.reach < 86400 := by
        have := level.finer
        rcases moved with ⟨_, _, _⟩ | ⟨_, _⟩ <;> omega
      obtain ⟨other, also, le, entry⟩ := settled.waiting g there lessBefore
      rw [same]
      refine ⟨other, also, ?_, entry⟩
      have := level.finer
      rcases moved with ⟨_, _, _⟩ | ⟨_, _⟩ <;> omega
    dirty := settled.dirty
    tiers := settled.tiers }

end Fill

section Fold

/-- The row of everything else at the resolution and time of a row. -/
def elseRow (row : RowKey) : RowKey := { row with queryKey := everythingElse }

/-- Whether a row is folded, or folded into. -/
def folds (retained : List String) (queryKey : String) : Bool := outside retained queryKey || queryKey = everythingElse

/-- A displaced identity's readings are everything else's from now on. -/
def foldFiled (retained : List String) (filed : List Filed) : List Filed :=
  filed.map fun f => if outside retained f.reading.queryKey then
    { f with reading := { f.reading with queryKey := everythingElse } } else f

def foldThinned (retained thinned : List String) : List String :=
  if thinned.any (outside retained) then everythingElse :: thinned else thinned

/-- Where an identity that is folded, or folded into, keeps a row, so do the others with readings there. -/
def SafeToFold (s : Store) (filed : List Filed) (thinned retained : List String) : Prop :=
  ∀ row ∈ s.series.keys, row.res ≠ 60 → folds retained row.queryKey = true →
    (row.res = 86400 → everythingElse ∉ foldThinned retained thinned) →
      ∀ f ∈ filed, folds retained f.reading.queryKey = true → row.Spans f.reading.ts → row.res ≤ f.reach →
        f.reading.row row.res ∈ s.series.keys

theorem elseRow_aligned {row : RowKey} (aligned : row.Aligned) : (elseRow row).Aligned := ⟨aligned.known, aligned.whole⟩

theorem foldDisplaced_lookup (row : RowKey) : (foldDisplaced s retained).series.lookup row =
    if outside retained row.queryKey = true then none
    else if ∃ other ∈ s.rowsWhere fun row => outside retained row.queryKey, elseRow other.1 = row then
      some ((s.series.lookup row).getD 0 +
        total Sigma.snd (fun other => elseRow other.1 = row) (s.rowsWhere fun row => outside retained row.queryKey))
    else s.series.lookup row := by
  have lookups : (foldDisplaced s retained).series = keepKeys (fun row => !outside retained row.queryKey)
      (forItems (groupSums (fun other : Sigma fun _ : RowKey => Counters => elseRow other.1) Sigma.snd
        (s.rowsWhere fun row => outside retained row.queryKey)) s.series (upsert fun _ => true)) := rfl
  rw [lookups, keepKeys_lookup]
  by_cases gone : outside retained row.queryKey = true
  · simp [gone]
  · rw [forItems_lookup (upsert_local _), groupSums_lookup]
    by_cases occurs : ∃ other ∈ s.rowsWhere fun row => outside retained row.queryKey, elseRow other.1 = row
    · simp only [if_pos occurs, upsert_lookup, gone, Bool.not_false, if_true, if_false, Bool.false_eq_true]
      cases s.series.lookup row <;> simp
    · simp [occurs, gone]

/-- The rows that come together in a row of everything else. -/
def Store.toFold (s : Store) (retained : List String) (row : RowKey) : List (Sigma fun _ : RowKey => Counters) :=
  s.series.entries.filter fun entry => folds retained entry.1.queryKey ∧ elseRow entry.1 = row

theorem outside_else : outside retained everythingElse = false := by simp [outside]

theorem mem_toFold {row : RowKey} {entry : Sigma fun _ : RowKey => Counters} : entry ∈ s.toFold retained row ↔
    entry ∈ s.series.entries ∧ folds retained entry.1.queryKey = true ∧ elseRow entry.1 = row := by
  unfold Store.toFold
  rw [List.mem_filter, decide_eq_true_eq]

theorem toFold_same {row : RowKey} {entry : Sigma fun _ : RowKey => Counters} (found : entry ∈ s.toFold retained row) :
    entry.1.res = row.res ∧ entry.1.bucketStart = row.bucketStart := by
  rw [← (mem_toFold.mp found).2.2]
  exact ⟨rfl, rfl⟩

theorem elseRow_own {row : RowKey} (own : row.queryKey = everythingElse) : elseRow row = row := by
  rw [elseRow, ← own]

theorem fold_total {row : RowKey} (own : row.queryKey = everythingElse) :
    (s.series.lookup row).getD 0 +
        total Sigma.snd (fun other => elseRow other.1 = row) (s.rowsWhere fun row => outside retained row.queryKey) =
      ((s.toFold retained row).map Sigma.snd).sum := by
  have folded : total Sigma.snd (fun other : Sigma fun _ : RowKey => Counters => elseRow other.1 = row)
      (s.rowsWhere fun row => outside retained row.queryKey) =
        total Sigma.snd (fun entry => (folds retained entry.1.queryKey = true ∧ elseRow entry.1 = row) ∧
          outside retained entry.1.queryKey = true) s.series.entries := by
    unfold Store.rowsWhere total
    rw [List.filter_filter]
    congr 2
    apply List.filter_congr
    intro entry _
    by_cases out : outside retained entry.1.queryKey = true <;> simp [out, folds]
  have kept : (s.series.lookup row).getD 0 =
      total Sigma.snd (fun entry => (folds retained entry.1.queryKey = true ∧ elseRow entry.1 = row) ∧
        ¬ outside retained entry.1.queryKey = true) s.series.entries := by
    rw [← total_own]
    apply total_congr
    · intro entry _
      constructor
      · intro here
        rw [here, own]
        exact ⟨⟨by simp [folds], elseRow_own own⟩, by simp [outside_else]⟩
      · intro all
        have key : entry.1.queryKey = everythingElse := by
          have either := all.1.1
          have not := all.2
          simp only [folds, Bool.or_eq_true, decide_eq_true_eq] at either
          exact either.resolve_left not
        rw [← all.1.2, elseRow_own key]
    · intro entry _ _
      rfl
  rw [folded, kept, add_comm]
  exact (total_split fun entry : Sigma fun _ : RowKey => Counters => outside retained entry.1.queryKey = true).symm

/-- A row of everything else, after the fold, was there or has a folded row to come from. -/
theorem foldDisplaced_else {row : RowKey} (own : row.queryKey = everythingElse) {c : Counters}
    (found : (foldDisplaced s retained).series.lookup row = some c) :
    (∃ entry, entry ∈ s.toFold retained row) ∧ c = ((s.toFold retained row).map Sigma.snd).sum := by
  rw [foldDisplaced_lookup, own, outside_else] at found
  simp only [Bool.false_eq_true, if_false] at found
  rw [← fold_total own]
  split at found
  · rename_i occurs
    obtain ⟨other, member, same⟩ := occurs
    have both := List.mem_filter.mp member
    refine ⟨⟨other, mem_toFold.mpr ⟨both.1, ?_, same⟩⟩, (Option.some.inj found).symm⟩
    simp [folds, both.2]
  · rename_i absent
    have none : total Sigma.snd (fun other : Sigma fun _ : RowKey => Counters => elseRow other.1 = row)
        (s.rowsWhere fun row => outside retained row.queryKey) = 0 :=
      total_eq_zero fun other member same => absent ⟨other, member, same⟩
    refine ⟨⟨⟨row, c⟩, mem_toFold.mpr ⟨mem_entries_iff.mpr found, by simp [folds, own], elseRow_own own⟩⟩, ?_⟩
    rw [found, none, Option.getD_some, add_zero]

theorem foldDisplaced_other {row : RowKey} (own : row.queryKey ≠ everythingElse) {c : Counters}
    (found : (foldDisplaced s retained).series.lookup row = some c) :
    outside retained row.queryKey = false ∧ s.series.lookup row = some c := by
  rw [foldDisplaced_lookup] at found
  split at found
  · cases found
  · rename_i stays
    rw [if_neg] at found
    · exact ⟨by simpa using stays, found⟩
    · intro occurs
      obtain ⟨other, _, same⟩ := occurs
      exact own (same ▸ rfl)

theorem foldDisplaced_keys {row : RowKey} (member : row ∈ s.series.keys) :
    (outside retained row.queryKey = false → row ∈ (foldDisplaced s retained).series.keys) ∧
    (outside retained row.queryKey = true → elseRow row ∈ (foldDisplaced s retained).series.keys) := by
  obtain ⟨c, found⟩ := lookup_of_mem_keys member
  constructor
  · intro stays
    rw [mem_keys_iff, foldDisplaced_lookup, stays]
    simp only [Bool.false_eq_true, if_false]
    split
    · simp
    · simp [found]
  · intro goes
    rw [mem_keys_iff, foldDisplaced_lookup, show (elseRow row).queryKey = everythingElse from rfl, outside_else]
    have among : (⟨row, c⟩ : Sigma _) ∈ s.rowsWhere fun row => outside retained row.queryKey :=
      List.mem_filter.mpr ⟨mem_entries_iff.mpr found, goes⟩
    have occurs : ∃ other ∈ s.rowsWhere (fun row => outside retained row.queryKey), elseRow other.1 = elseRow row :=
      ⟨_, among, rfl⟩
    simp [occurs]

theorem not_thinned {queryKey : String} (none : everythingElse ∉ foldThinned retained thinned)
    (folded : folds retained queryKey = true) : queryKey ∉ thinned := by
  unfold foldThinned at none
  split at none
  · exact absurd List.mem_cons_self none
  · rename_i clear
    intro member
    simp only [folds, Bool.or_eq_true, decide_eq_true_eq] at folded
    rcases folded with out | rfl
    · exact clear (List.any_eq_true.mpr ⟨queryKey, member, out⟩)
    · exact none member

theorem foldThinned_subset {queryKey : String} (member : queryKey ∈ thinned) : queryKey ∈ foldThinned retained thinned := by
  unfold foldThinned
  split
  · exact List.mem_cons_of_mem _ member
  · exact member

theorem mem_foldFiled {f : Filed} (member : f ∈ foldFiled retained filed) : ∃ g ∈ filed, f.reach = g.reach ∧
    f.reading.ts = g.reading.ts ∧
    ((outside retained g.reading.queryKey = true ∧ f.reading.queryKey = everythingElse) ∨
      (outside retained g.reading.queryKey = false ∧ f.reading.queryKey = g.reading.queryKey)) := by
  obtain ⟨g, there, rfl⟩ := List.mem_map.mp member
  refine ⟨g, there, ?_⟩
  by_cases out : outside retained g.reading.queryKey = true <;> simp [out]

theorem upTo_foldFiled (filed : List Filed) (row : RowKey) : upTo (foldFiled retained filed) row =
    total (fun f => f.reading.counters) (fun f => ((if outside retained f.reading.queryKey = true then everythingElse
      else f.reading.queryKey) = row.queryKey ∧ row.Spans f.reading.ts) ∧ row.res ≤ f.reach) filed := by
  unfold upTo foldFiled
  rw [total_map]
  apply total_congr
  · intro f _
    by_cases out : outside retained f.reading.queryKey = true
    · simp only [if_pos out]
      constructor
      · intro counted
        exact ⟨⟨counted.1.key, counted.1.spans⟩, counted.2⟩
      · intro counted
        exact ⟨⟨counted.1.1, counted.1.2⟩, counted.2⟩
    · simp only [if_neg out]
      constructor
      · intro counted
        exact ⟨⟨counted.1.key, counted.1.spans⟩, counted.2⟩
      · intro counted
        exact ⟨⟨counted.1.1, counted.1.2⟩, counted.2⟩
  · intro f _ _
    split <;> rfl

/-- Everything else, after the fold, counts its own readings and those of the identities that were folded. -/
theorem Settled.folded_sum (settled : Settled s filed thinned) (safe : SafeToFold s filed thinned retained)
    {row : RowKey} (own : row.queryKey = everythingElse) (aligned : row.Aligned)
    (minute : row.res = 60 → s.rollupUntil 60 ≤ row.bucketStart)
    (day : row.res = 86400 → everythingElse ∉ foldThinned retained thinned)
    (there : ∃ entry, entry ∈ s.toFold retained row) :
    ((s.toFold retained row).map Sigma.snd).sum = upTo (foldFiled retained filed) row := by
  rw [upTo_foldFiled]
  apply sum_rows (fun f => row.res ≤ f.reach) (fun f => ((if outside retained f.reading.queryKey = true then everythingElse
      else f.reading.queryKey) = row.queryKey ∧ row.Spans f.reading.ts) ∧ row.res ≤ f.reach) List.filter_sublist
  · intro entry found
    exact settled.aligned _ (List.mem_keys_of_mem (mem_toFold.mp found).1)
  · intro entry found
    exact (toFold_same found).1
  · intro entry found
    have here := mem_toFold.mp found
    obtain ⟨res, bucket⟩ := toFold_same found
    have claims : s.Claims thinned entry.1 := {
      minute := by
        intro fine
        rw [bucket]
        exact minute (res.symm.trans fine)
      day := fun last => not_thinned (day (res.symm.trans last)) here.2.1 }
    rw [settled.value _ _ (mem_entries_iff.mp here.1) claims]
    exact upTo_eq filed entry.1 res
  · intro entry found f _ held reached
    have here := mem_toFold.mp found
    obtain ⟨res, bucket⟩ := toFold_same found
    have spans : row.Spans f.reading.ts := by
      have inside := held.spans
      unfold RowKey.Spans at inside ⊢
      rw [← res, ← bucket]
      exact inside
    refine ⟨⟨?_, spans⟩, reached⟩
    rw [held.key, own]
    by_cases out : outside retained entry.1.queryKey = true
    · rw [if_pos out]
    · rw [if_neg out]
      have folded := here.2.1
      simp only [folds, Bool.or_eq_true, decide_eq_true_eq] at folded
      exact folded.resolve_left out
  · intro f member counted
    have folded : folds retained f.reading.queryKey = true := by
      have key := counted.1.1
      rw [own] at key
      unfold folds
      by_cases out : outside retained f.reading.queryKey = true
      · simp [out]
      · rw [if_neg out] at key
        simp [key]
    have kept : f.reading.row row.res ∈ s.series.keys := by
      by_cases fine : row.res = 60
      · have rolled : s.Rolled 60 f.reading.ts := by
          intro level also none
          have := (level_of_mem also).finer
          have := resolution_cases (level_of_mem also).knownSrc
          omega
        have after : s.rollupUntil 60 ≤ f.reading.ts := Nat.le_trans (minute fine) counted.1.2.1
        rw [fine]
        exact settled.present (60, 300) (by decide) f member (by have := counted.2; omega) rolled after
      · obtain ⟨entry, found⟩ := there
        have here := mem_toFold.mp found
        obtain ⟨res, bucket⟩ := toFold_same found
        have spans : entry.1.Spans f.reading.ts := by
          have inside := counted.1.2
          unfold RowKey.Spans at inside ⊢
          rw [res, bucket]
          exact inside
        have own := safe entry.1 (List.mem_keys_of_mem here.1) (by rw [res]; exact fine) here.2.1
          (by rw [res]; exact day) f member folded spans (by rw [res]; exact counted.2)
        rw [res] at own
        exact own
    obtain ⟨c, found⟩ := lookup_of_mem_keys kept
    refine ⟨⟨f.reading.row row.res, c⟩, mem_toFold.mpr ⟨mem_entries_iff.mpr found, folded, ?_⟩,
      ⟨rfl, spans_row f.reading aligned.known⟩, counted.2⟩
    have bucket : start row.res f.reading.ts = row.bucketStart := counted.1.2.start_eq aligned
    rw [elseRow, Reading.row, bucket, ← own]

/-- Folding identities keeps what holds. -/
theorem Settled.fold (settled : Settled s filed thinned) (safe : SafeToFold s filed thinned retained) :
    Settled (foldDisplaced s retained) (foldFiled retained filed) (foldThinned retained thinned) := by
  have rowCases : ∀ row ∈ (foldDisplaced s retained).series.keys,
      (row.queryKey = everythingElse ∧ ∃ entry, entry ∈ s.toFold retained row) ∨
      (row.queryKey ≠ everythingElse ∧ outside retained row.queryKey = false ∧ row ∈ s.series.keys) := by
    intro row member
    obtain ⟨c, found⟩ := lookup_of_mem_keys member
    by_cases own : row.queryKey = everythingElse
    · exact .inl ⟨own, (foldDisplaced_else own found).1⟩
    · have both := foldDisplaced_other own found
      exact .inr ⟨own, both.1, mem_keys_of_lookup both.2⟩
  have aligned : ∀ row ∈ (foldDisplaced s retained).series.keys, row.Aligned := by
    intro row member
    rcases rowCases row member with ⟨_, entry, found⟩ | ⟨_, _, old⟩
    · have here := mem_toFold.mp found
      rw [← here.2.2]
      exact elseRow_aligned (settled.aligned _ (List.mem_keys_of_mem here.1))
    · exact settled.aligned row old
  exact {
    aligned := aligned
    inhabited := by
      intro row member
      rcases rowCases row member with ⟨own, entry, found⟩ | ⟨own, stays, old⟩
      · have here := mem_toFold.mp found
        obtain ⟨f, there, held⟩ := settled.inhabited _ (List.mem_keys_of_mem here.1)
        refine ⟨_, List.mem_map_of_mem there, ?_⟩
        have spans : row.Spans f.reading.ts := by
          rw [← here.2.2]
          exact held.spans
        split
        · exact ⟨own.symm, spans⟩
        · rename_i out
          have folded := here.2.1
          rw [← held.key] at folded
          simp only [folds, Bool.or_eq_true, decide_eq_true_eq] at folded
          exact ⟨(folded.resolve_left out).trans own.symm, spans⟩
      · obtain ⟨f, there, held⟩ := settled.inhabited row old
        refine ⟨_, List.mem_map_of_mem there, ?_⟩
        rw [← held.key] at stays
        simpa [stays] using held
    reaches := by
      intro f member
      obtain ⟨g, there, same, _⟩ := mem_foldFiled member
      exact same ▸ settled.reaches g there
    whole := settled.whole
    nested := settled.nested
    closed := by
      intro level known row member res
      rcases rowCases row member with ⟨_, entry, found⟩ | ⟨_, _, old⟩
      · have here := mem_toFold.mp found
        rw [← here.2.2] at res ⊢
        exact settled.closed level known entry.1 (List.mem_keys_of_mem here.1) res
      · exact settled.closed level known row old res
    value := by
      intro row c found claims
      by_cases own : row.queryKey = everythingElse
      · have both := foldDisplaced_else own found
        rw [both.2]
        exact settled.folded_sum safe own (aligned row (mem_keys_of_lookup found)) claims.minute
          (fun last => own ▸ claims.day last) both.1
      · have both := foldDisplaced_other own found
        have claimsBefore : s.Claims thinned row :=
          ⟨claims.minute, fun last member => claims.day last (foldThinned_subset member)⟩
        rw [settled.value row c both.2 claimsBefore, upTo_foldFiled]
        apply total_congr
        · intro f _
          by_cases out : outside retained f.reading.queryKey = true
          · rw [if_pos out]
            constructor
            · intro counted
              have clear := both.1
              rw [← counted.1.key, out] at clear
              cases clear
            · intro counted
              exact absurd counted.1.1.symm own
          · rw [if_neg out]
            constructor
            · intro counted
              exact ⟨⟨counted.1.key, counted.1.spans⟩, counted.2⟩
            · intro counted
              exact ⟨⟨counted.1.1, counted.1.2⟩, counted.2⟩
        · intro f _ _
          rfl
    present := by
      intro level known f member reached rolled after
      obtain ⟨g, there, reach, time, key⟩ := mem_foldFiled member
      rw [reach] at reached
      rw [time] at rolled after
      have old := settled.present level known g there reached rolled after
      rcases key with ⟨out, key⟩ | ⟨stays, key⟩
      · have goes := (foldDisplaced_keys old).2 out
        simpa [elseRow, Reading.row, key, time] using goes
      · have remains := (foldDisplaced_keys old).1 stays
        simpa [Reading.row, key, time] using remains
    waiting := by
      intro f member less
      obtain ⟨g, there, reach, time, _⟩ := mem_foldFiled member
      rw [reach] at less ⊢
      rw [time]
      exact settled.waiting g there less
    dirty := settled.dirty
    tiers := fun p member second => foldThinned_subset (settled.tiers p member second) }

end Fold

end Rdst.Series
