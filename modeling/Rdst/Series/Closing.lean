import Rdst.Series.Settled

namespace Rdst.Series

open Assoc Buckets Totals

section Close

variable {s : Store} {filed : List Filed} {thinned : List String} {now src dest : Nat}

/-- The rows that closing a level sums. -/
def Store.toClose (s : Store) (now src dest : Nat) : List (Sigma fun _ : RowKey => Counters) :=
  s.rowsWhere fun row => row.res = src ∧ s.rollupUntil src ≤ row.bucketStart ∧ row.bucketStart < start dest now ∧
    s.summedInto dest row

def closeFiled (s : Store) (now src dest : Nat) (filed : List Filed) : List Filed :=
  if s.rollupUntil src < start dest now then
    raise src dest (fun reading => s.rollupUntil src ≤ reading.ts ∧ reading.ts < start dest now) filed
  else filed

/-- The row that a finer row is summed into. -/
def intoRow (dest : Nat) (row : Sigma fun _ : RowKey => Counters) : RowKey :=
  ⟨row.1.queryKey, dest, start dest row.1.bucketStart⟩

theorem closeBuckets_series (opens : s.rollupUntil src < start dest now) :
    (closeBuckets s now src dest).series =
      forItems (groupSums (intoRow dest) Sigma.snd (s.toClose now src dest)) s.series insertOrIgnore := by
  unfold closeBuckets
  simp only [opens, if_true]
  rfl

/-- A row of a closed level was there before, or is the sum of the finer rows now closed. -/
theorem closeBuckets_cases (opens : s.rollupUntil src < start dest now) {row : RowKey} {c : Counters}
    (found : (closeBuckets s now src dest).series.lookup row = some c) :
    s.series.lookup row = some c ∨ (s.series.lookup row = none ∧
      (∃ child ∈ s.toClose now src dest, intoRow dest child = row) ∧
      c = total Sigma.snd (fun child => intoRow dest child = row) (s.toClose now src dest)) := by
  rw [closeBuckets_series opens, forItems_lookup insertOrIgnore_local, groupSums_lookup] at found
  by_cases occurs : ∃ child ∈ s.toClose now src dest, intoRow dest child = row
  · rw [if_pos occurs] at found
    cases old : s.series.lookup row with
    | some before => exact .inl (by simpa [insertOrIgnore, old] using found)
    | none => exact .inr ⟨rfl, occurs, by simpa [insertOrIgnore, old, insert_lookup] using found.symm⟩
  · rw [if_neg occurs] at found
    exact .inl found

theorem closeBuckets_keeps (opens : s.rollupUntil src < start dest now) {row : RowKey} {c : Counters}
    (found : s.series.lookup row = some c) : (closeBuckets s now src dest).series.lookup row = some c := by
  rw [closeBuckets_series opens, forItems_lookup insertOrIgnore_local]
  split
  · exact found
  · simp [insertOrIgnore, found]

theorem closeBuckets_adds (opens : s.rollupUntil src < start dest now) {child : Sigma fun _ : RowKey => Counters}
    (member : child ∈ s.toClose now src dest) : intoRow dest child ∈ (closeBuckets s now src dest).series.keys := by
  rw [mem_keys_iff, closeBuckets_series opens, forItems_lookup insertOrIgnore_local, groupSums_lookup,
    if_pos ⟨child, member, rfl⟩]
  simp only [insertOrIgnore]
  split
  · rename_i there
    exact Option.isSome_iff_ne_none.mp there
  · simp [insert_lookup]

theorem closeBuckets_rest (opens : s.rollupUntil src < start dest now) :
    (closeBuckets s now src dest).rollupUntil = Function.update s.rollupUntil src (start dest now) ∧
    (closeBuckets s now src dest).dirtyRollup = s.dirtyRollup ∧
    (closeBuckets s now src dest).tierPeriod = s.tierPeriod := by
  unfold closeBuckets
  simp [opens]

theorem mem_toClose {child : Sigma fun _ : RowKey => Counters} : child ∈ s.toClose now src dest ↔
    child ∈ s.series.entries ∧ child.1.res = src ∧ s.rollupUntil src ≤ child.1.bucketStart ∧
      child.1.bucketStart < start dest now ∧ s.summedInto dest child.1 = true := by
  unfold Store.toClose Store.rowsWhere
  rw [List.mem_filter, decide_eq_true_eq]

/-- The finer row of a reading that a level closes over. -/
theorem Settled.row_toClose (settled : Settled s filed thinned) (known : (src, dest) ∈ levels)
    (ready : ∀ level ∈ levels, level.2 = src → start dest now ≤ s.rollupUntil level.1)
    {f : Filed} (member : f ∈ filed) (reached : src ≤ f.reach) (after : s.rollupUntil src ≤ f.reading.ts)
    (before : f.reading.ts < start dest now) (day : dest = 86400 → f.reading.queryKey ∉ thinned) :
    ∃ child ∈ s.toClose now src dest, child.1 = f.reading.row src := by
  have level := level_of_mem known
  have rolled : s.Rolled src f.reading.ts := by
    intro other also same
    exact Nat.lt_of_lt_of_le before (ready other also same)
  obtain ⟨c, found⟩ := lookup_of_mem_keys (settled.present _ known f member reached rolled after)
  refine ⟨⟨f.reading.row src, c⟩, mem_toClose.mpr ⟨mem_entries_iff.mpr found, rfl, ?_, ?_, ?_⟩, rfl⟩
  · exact le_start (level.dvd.trans (settled.whole _ known)) after
  · exact Nat.lt_of_le_of_lt start_le before
  · unfold Store.summedInto
    by_cases last : dest = 86400
    · have plain : tailPeriod s.tierPeriod (f.reading.row src) = false := settled.tail_false (day last)
      simp [plain]
    · simp [last]

theorem intoRow_aligned (level : Level src dest) (child : Sigma fun _ : RowKey => Counters) : (intoRow dest child).Aligned :=
  ⟨level.knownDest, dvd_start⟩

/-- The rows that are summed into a bucket lie inside it. -/
theorem intoRow_spans (level : Level src dest) (child : Sigma fun _ : RowKey => Counters) :
    (intoRow dest child).Spans child.1.bucketStart := ⟨start_le, lt_start_add (resolution_pos level.knownDest)⟩

/-- The bucket that a row to be closed is summed into lies where the level closes. -/
theorem Settled.intoRow_within (settled : Settled s filed thinned) (known : (src, dest) ∈ levels)
    {child : Sigma fun _ : RowKey => Counters} (member : child ∈ s.toClose now src dest) :
    s.rollupUntil src ≤ (intoRow dest child).bucketStart ∧ (intoRow dest child).bucketStart + dest ≤ start dest now := by
  have here := mem_toClose.mp member
  constructor
  · exact le_start (settled.whole _ known) here.2.2.1
  · apply add_le_of_lt dvd_start dvd_start
    exact Nat.lt_of_le_of_lt start_le here.2.2.2.1

theorem Settled.closed_sum (settled : Settled s filed thinned) (known : (src, dest) ∈ levels)
    (opens : s.rollupUntil src < start dest now)
    (ready : ∀ level ∈ levels, level.2 = src → start dest now ≤ s.rollupUntil level.1)
    {child : Sigma fun _ : RowKey => Counters} (member : child ∈ s.toClose now src dest)
    (day : dest = 86400 → child.1.queryKey ∉ thinned) :
    total Sigma.snd (fun other => intoRow dest other = intoRow dest child) (s.toClose now src dest) =
      upTo (closeFiled s now src dest filed) (intoRow dest child) := by
  have level := level_of_mem known
  have within := settled.intoRow_within known member
  have alignedParent := intoRow_aligned level child
  have summed : (((s.toClose now src dest).filter fun other => intoRow dest other = intoRow dest child).map Sigma.snd).sum =
      total (fun f => f.reading.counters) (fun f => (intoRow dest child).Holds f.reading ∧ src ≤ f.reach) filed := by
    apply sum_finer (List.filter_sublist.trans List.filter_sublist) ?_ alignedParent (Nat.le_of_lt level.finer)
    · intro other found
      have both := List.mem_filter.mp found
      have same : intoRow dest other = intoRow dest child := by simpa using both.2
      have key : (intoRow dest other).queryKey = (intoRow dest child).queryKey := by rw [same]
      refine ⟨(mem_toClose.mp both.1).2.1, key, ?_⟩
      rw [← same]
      exact intoRow_spans level other
    · intro other found
      have here := mem_toClose.mp (List.mem_filter.mp found).1
      have claims : s.Claims thinned other.1 := {
        minute := by
          intro minute
          rw [here.2.1] at minute
          rw [← minute]
          exact here.2.2.1
        day := by
          intro last
          have := resolution_cases level.knownDest
          have := level.finer
          omega }
      rw [settled.value _ _ (mem_entries_iff.mp here.1) claims]
      exact upTo_eq filed other.1 here.2.1
    · intro f member held reached
      have times : s.rollupUntil src ≤ f.reading.ts ∧ f.reading.ts < start dest now :=
        ⟨Nat.le_trans within.1 held.spans.1, Nat.lt_of_lt_of_le held.spans.2 within.2⟩
      have whole : dest = 86400 → f.reading.queryKey ∉ thinned := by
        intro last
        rw [held.key]
        exact day last
      obtain ⟨other, found, own⟩ := settled.row_toClose known ready member reached times.1 times.2 whole
      refine ⟨other, List.mem_filter.mpr ⟨found, ?_⟩, ?_⟩
      · have into : intoRow dest other = intoRow dest child := by
          unfold intoRow at held ⊢
          rw [own]
          simp only [Reading.row, start_start level.dvd]
          have bucket := held.spans.start_eq alignedParent
          have key := held.key
          simp only at bucket key
          rw [bucket, key]
        simpa using into
      · rw [own]
        exact ⟨rfl, spans_row f.reading level.knownSrc⟩
    · intro other found
      exact settled.aligned _ (List.mem_keys_of_mem (mem_toClose.mp (List.mem_filter.mp found).1).1)
  unfold total at summed ⊢
  rw [summed]
  unfold closeFiled
  rw [if_pos opens]
  refine (upTo_raised level settled.reaches ?_ rfl).symm
  intro reading held
  simp only [Bool.decide_and, Bool.and_eq_true, decide_eq_true_eq]
  exact ⟨Nat.le_trans within.1 held.spans.1, Nat.lt_of_lt_of_le held.spans.2 within.2⟩

theorem mem_closeFiled {f : Filed} (member : f ∈ closeFiled s now src dest filed) :
    ∃ g ∈ filed, f.reading = g.reading ∧ (f.reach = g.reach ∨
      (g.reach = src ∧ f.reach = dest ∧ s.rollupUntil src ≤ g.reading.ts ∧ g.reading.ts < start dest now)) := by
  unfold closeFiled at member
  split at member
  · obtain ⟨g, here, same, ⟨atSrc, times, moved⟩ | ⟨_, stays⟩⟩ := mem_raise.mp member
    · simp only [Bool.decide_and, Bool.and_eq_true, decide_eq_true_eq] at times
      exact ⟨g, here, same, .inr ⟨atSrc, moved, times⟩⟩
    · exact ⟨g, here, same, .inl stays⟩
  · exact ⟨f, member, rfl, .inl rfl⟩

theorem closeFiled_mem {f : Filed} (member : f ∈ filed) :
    ∃ g ∈ closeFiled s now src dest filed, g.reading = f.reading := by
  unfold closeFiled
  split
  · refine ⟨_, List.mem_map_of_mem member, ?_⟩
    split <;> rfl
  · exact ⟨f, member, rfl⟩

theorem closeBuckets_until (s : Store) (now : Nat) (known : (src, dest) ∈ levels) (level : Nat × Nat) (also : level ∈ levels) :
    s.rollupUntil level.1 ≤ (closeBuckets s now src dest).rollupUntil level.1 ∧
    (level.1 = src → start dest now ≤ (closeBuckets s now src dest).rollupUntil level.1) ∧
    (level.1 ≠ src → (closeBuckets s now src dest).rollupUntil level.1 = s.rollupUntil level.1) := by
  by_cases opens : s.rollupUntil src < start dest now
  · rw [(closeBuckets_rest opens).1]
    by_cases same : level.1 = src
    · rw [same, Function.update_self]
      exact ⟨Nat.le_of_lt opens, fun _ => Nat.le_refl _, fun ne => absurd rfl ne⟩
    · rw [Function.update_of_ne same]
      exact ⟨Nat.le_refl _, fun here => absurd here same, fun _ => rfl⟩
  · have unchanged : closeBuckets s now src dest = s := by simp [closeBuckets, opens]
    rw [unchanged]
    refine ⟨Nat.le_refl _, ?_, fun _ => rfl⟩
    intro same
    rw [same]
    omega

/-- Closing a level keeps what holds. -/
theorem Settled.close (settled : Settled s filed thinned) (known : (src, dest) ∈ levels)
    (ready : ∀ level ∈ levels, level.2 = src → start dest now ≤ s.rollupUntil level.1) :
    Settled (closeBuckets s now src dest) (closeFiled s now src dest filed) thinned := by
  by_cases opens : s.rollupUntil src < start dest now
  case neg =>
    have unchanged : closeBuckets s now src dest = s := by simp [closeBuckets, opens]
    have same : closeFiled s now src dest filed = filed := by simp [closeFiled, opens]
    rw [unchanged, same]
    exact settled
  have level := level_of_mem known
  have rest := closeBuckets_rest opens
  have moves := fun other also => closeBuckets_until s now known other also
  have rowCases : ∀ row ∈ (closeBuckets s now src dest).series.keys,
      row ∈ s.series.keys ∨ ∃ child ∈ s.toClose now src dest, intoRow dest child = row := by
    intro row member
    obtain ⟨c, found⟩ := lookup_of_mem_keys member
    rcases closeBuckets_cases opens found with old | ⟨_, new, _⟩
    · exact .inl (mem_keys_of_lookup old)
    · exact .inr new
  exact {
    aligned := by
      intro row member
      rcases rowCases row member with old | ⟨child, _, rfl⟩
      · exact settled.aligned row old
      · exact intoRow_aligned level child
    inhabited := by
      intro row member
      have held : ∃ f ∈ filed, row.Holds f.reading := by
        rcases rowCases row member with old | ⟨child, found, rfl⟩
        · exact settled.inhabited row old
        · have here := mem_toClose.mp found
          obtain ⟨f, there, holds⟩ := settled.inhabited _ (List.mem_keys_of_mem here.1)
          have alignedChild := settled.aligned _ (List.mem_keys_of_mem here.1)
          have le : child.1.res ≤ (intoRow dest child).res := by
            rw [here.2.1]
            exact Nat.le_of_lt level.finer
          exact ⟨f, there, holds.key,
            holds.spans.widen alignedChild (intoRow_aligned level child) le (intoRow_spans level child)⟩
      obtain ⟨f, there, holds⟩ := held
      obtain ⟨g, member, same⟩ := closeFiled_mem there
      exact ⟨g, member, same ▸ holds⟩
    reaches := by
      intro f member
      obtain ⟨g, there, _, stays | ⟨_, moved, _⟩⟩ := mem_closeFiled member
      · exact stays ▸ settled.reaches g there
      · exact moved ▸ level.knownDest
    whole := by
      intro other also
      by_cases same : other.1 = src
      · have both := (level_unique also known).1 same
        rw [rest.1, both, Function.update_self]
        exact dvd_start
      · rw [(moves other also).2.2 same]
        exact settled.whole other also
    nested := by
      have before := settled.nested
      rw [rest.1]
      rcases level_cases known with same | same | same <;> obtain ⟨rfl, rfl⟩ := Prod.mk.inj same
      · simp only [Function.update_self, Function.update_of_ne (show (3600 : Nat) ≠ 60 by decide),
          Function.update_of_ne (show (300 : Nat) ≠ 60 by decide)]
        omega
      · have below : start 3600 now ≤ s.rollupUntil 60 := ready (60, 300) (by decide) rfl
        simp only [Function.update_self, Function.update_of_ne (show (3600 : Nat) ≠ 300 by decide),
          Function.update_of_ne (show (60 : Nat) ≠ 300 by decide)]
        omega
      · have below : start 86400 now ≤ s.rollupUntil 300 := ready (300, 3600) (by decide) rfl
        simp only [Function.update_self, Function.update_of_ne (show (300 : Nat) ≠ 3600 by decide),
          Function.update_of_ne (show (60 : Nat) ≠ 3600 by decide)]
        omega
    closed := by
      intro other also row member res
      rcases rowCases row member with old | ⟨child, found, rfl⟩
      · exact Nat.lt_of_lt_of_le (settled.closed other also row old res) (moves other also).1
      · have both := (level_unique also known).2 res.symm
        have within := settled.intoRow_within known found
        have after := (moves other also).2.1 (by rw [both])
        have positive := resolution_pos level.knownDest
        omega
    value := by
      intro row c found claims
      have claimsBefore : s.Claims thinned row := {
        minute := fun minute => Nat.le_trans (moves (60, 300) (by decide)).1 (claims.minute minute)
        day := claims.day }
      rcases closeBuckets_cases opens found with old | ⟨_, ⟨child, member, rfl⟩, sum⟩
      · rw [settled.value row c old claimsBefore]
        unfold closeFiled
        rw [if_pos opens]
        symm
        apply upTo_raise level.finer
        intro f _ held _ times between
        simp only [Bool.decide_and, Bool.and_eq_true, decide_eq_true_eq] at times
        have member := mem_keys_of_lookup old
        have aligned := settled.aligned row member
        have here : row.res = dest := Nat.le_antisymm between.2 (level.next _ aligned.known between.1)
        have early := settled.closed _ known row member here
        have ends : row.bucketStart + dest ≤ s.rollupUntil src :=
          add_le_of_lt (here ▸ aligned.whole) (settled.whole _ known) early
        have last := held.spans.2
        omega
      · rw [sum]
        exact settled.closed_sum known opens ready member claims.day
    present := by
      intro other also f member reached rolled after
      obtain ⟨g, there, same, moved⟩ := mem_closeFiled member
      rw [same] at rolled after ⊢
      have later := Nat.le_trans (moves other also).1 after
      by_cases atDest : other.1 = dest
      · have before : g.reading.ts < (closeBuckets s now src dest).rollupUntil src := rolled _ known atDest.symm
        rw [rest.1, Function.update_self] at before
        by_cases early : g.reading.ts < s.rollupUntil src
        · have stays : f.reach = g.reach := by
            rcases moved with stays | ⟨_, _, first, _⟩
            · exact stays
            · omega
          have rolledBefore : s.Rolled other.1 g.reading.ts := by
            intro lower alsoLower equal
            have both := (level_unique alsoLower known).2 (equal.trans atDest)
            rw [both]
            exact early
          obtain ⟨c, found⟩ := lookup_of_mem_keys (settled.present other also g there (stays ▸ reached) rolledBefore later)
          exact mem_keys_of_lookup (closeBuckets_keeps opens found)
        · have came : src ≤ g.reach := by
            have := level.finer
            rcases moved with stays | ⟨atSrc, _⟩ <;> omega
          have notLast : dest = 86400 → g.reading.queryKey ∉ thinned := by
            intro last
            rcases level_cases also with rfl | rfl | rfl <;> simp_all
          obtain ⟨child, found, own⟩ := settled.row_toClose known ready there came (by omega) before notLast
          have into : intoRow dest child = g.reading.row other.1 := by
            rw [intoRow, own, atDest]
            simp only [Reading.row, start_start level.dvd]
          exact into ▸ closeBuckets_adds opens found
      · have rolledBefore : s.Rolled other.1 g.reading.ts := by
          intro lower alsoLower equal
          have notHere : lower.1 ≠ src := by
            intro here
            have both := (level_unique alsoLower known).1 here
            rw [both] at equal
            exact atDest equal.symm
          rw [← (moves lower alsoLower).2.2 notHere]
          exact rolled lower alsoLower equal
        have came : other.1 ≤ g.reach := by
          rcases moved with stays | ⟨atSrc, atNext, _⟩
          · exact stays ▸ reached
          · rw [atNext] at reached
            by_contra far
            have := level.next _ (level_of_mem also).knownSrc (by omega)
            omega
        obtain ⟨c, found⟩ := lookup_of_mem_keys (settled.present other also g there came rolledBefore later)
        exact mem_keys_of_lookup (closeBuckets_keeps opens found)
    waiting := by
      intro f member less
      rw [rest.2.1]
      obtain ⟨g, there, same, stays | ⟨atSrc, moved, _⟩⟩ := mem_closeFiled member
      · rw [same]
        rw [stays] at less ⊢
        exact settled.waiting g there less
      · have lessBefore : g.reach < 86400 := by
          have := level.finer
          omega
        obtain ⟨other, also, le, entry⟩ := settled.waiting g there lessBefore
        rw [same]
        exact ⟨other, also, by have := level.finer; omega, entry⟩
    dirty := by
      rw [rest.2.1]
      exact settled.dirty
    tiers := by
      rw [rest.2.2]
      exact settled.tiers }

end Close

end Rdst.Series
