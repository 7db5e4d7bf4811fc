import Rdst.Series.Settled

namespace Rdst.Series

open Assoc Buckets Totals

variable {s : Store} {filed : List Filed} {thinned : List String}

section Drop

/-- A row that no level has to sum any more. -/
def Store.Done (s : Store) (row : RowKey) : Prop := ∀ level ∈ levels, row.res = level.1 → row.bucketStart < s.rollupUntil level.1

/-- Rows that are done may go. -/
theorem Settled.drop (settled : Settled s filed thinned) (stays : RowKey → Bool)
    (done : ∀ row ∈ s.series.keys, stays row = false → s.Done row) :
    Settled { s with series := keepKeys stays s.series } filed thinned := by
  have subset : ∀ row ∈ (keepKeys stays s.series).keys, row ∈ s.series.keys := by
    intro row member
    obtain ⟨c, found⟩ := lookup_of_mem_keys member
    rw [keepKeys_lookup] at found
    split at found
    · exact mem_keys_of_lookup found
    · cases found
  exact {
    aligned := fun row member => settled.aligned row (subset row member)
    inhabited := fun row member => settled.inhabited row (subset row member)
    reaches := settled.reaches
    whole := settled.whole
    nested := settled.nested
    closed := fun level known row member => settled.closed level known row (subset row member)
    value := by
      intro row c found claims
      rw [keepKeys_lookup] at found
      split at found
      · exact settled.value row c found ⟨claims.minute, claims.day⟩
      · cases found
    present := by
      intro level known f member reached rolled after
      obtain ⟨c, found⟩ := lookup_of_mem_keys (settled.present level known f member reached rolled after)
      have kept : stays (f.reading.row level.1) = true := by
        by_contra gone
        have early := done _ (mem_keys_of_lookup found) (by simpa using gone) level known rfl
        have late : s.rollupUntil level.1 ≤ start level.1 f.reading.ts :=
          le_start ((level_of_mem known).dvd.trans (settled.whole level known)) after
        exact Nat.lt_irrefl _ (Nat.lt_of_le_of_lt late early)
      refine mem_keys_of_lookup (c := c) ?_
      rw [keepKeys_lookup, if_pos kept, found]
    waiting := settled.waiting
    dirty := settled.dirty
    tiers := settled.tiers }

end Drop

/-- Periods may change, where the identities of a second tier are known to be thinned. -/
theorem Settled.rank (settled : Settled s filed thinned) (ranked : List TierPeriod) :
    Settled { s with tierPeriod := ranked } filed
      (thinned ++ (ranked.filter fun p => p.tier = 2).map TierPeriod.queryKey) where
  aligned := settled.aligned
  inhabited := settled.inhabited
  reaches := settled.reaches
  whole := settled.whole
  nested := settled.nested
  closed := settled.closed
  value := by
    intro row c found claims
    apply settled.value row c found
    exact ⟨claims.minute, fun last member => claims.day last (List.mem_append_left _ member)⟩
  present := settled.present
  waiting := settled.waiting
  dirty := settled.dirty
  tiers := by
    intro p member second
    apply List.mem_append_right
    exact List.mem_map_of_mem (List.mem_filter.mpr ⟨member, by simpa using second⟩)

theorem Settled.pin (settled : Settled s filed thinned) (pins : List Pin) :
    Settled { s with incidentPin := pins } filed thinned where
  aligned := settled.aligned
  inhabited := settled.inhabited
  reaches := settled.reaches
  whole := settled.whole
  nested := settled.nested
  closed := settled.closed
  value := fun row c found claims => settled.value row c found ⟨claims.minute, claims.day⟩
  present := settled.present
  waiting := settled.waiting
  dirty := settled.dirty
  tiers := settled.tiers

/-- More buckets may wait to be summed again. -/
theorem Settled.wait (settled : Settled s filed thinned) {level : Nat × Nat} (known : level ∈ levels) {bucket : Nat}
    (aligned : level.2 ∣ bucket) :
    Settled { s with dirtyRollup := s.dirtyRollup.insert (level.1, bucket) } filed thinned where
  aligned := settled.aligned
  inhabited := settled.inhabited
  reaches := settled.reaches
  whole := settled.whole
  nested := settled.nested
  closed := settled.closed
  value := fun row c found claims => settled.value row c found ⟨claims.minute, claims.day⟩
  present := settled.present
  waiting := by
    intro f member less
    obtain ⟨other, also, le, entry⟩ := settled.waiting f member less
    exact ⟨other, also, le, List.mem_insert_of_mem entry⟩
  dirty := by
    intro other also b entry
    rcases List.mem_insert_iff.mp entry with new | old
    · obtain ⟨first, rfl⟩ := Prod.mk.inj new
      rw [(level_unique also known).1 first]
      exact aligned
    · exact settled.dirty other also b old
  tiers := settled.tiers

/-- The history of some identities may be forgotten, with their readings. -/
theorem Settled.forget (settled : Settled s filed thinned) (gone : List String) (system : List String) :
    Settled { s with systemQuery := system, series := keepKeys (fun row => !gone.contains row.queryKey) s.series }
      (filed.filter fun f => !gone.contains f.reading.queryKey) thinned := by
  have lookups : ∀ row c, (keepKeys (fun row => !gone.contains row.queryKey) s.series).lookup row = some c →
      row.queryKey ∉ gone ∧ s.series.lookup row = some c := by
    intro row c found
    rw [keepKeys_lookup] at found
    split at found
    · rename_i stays
      exact ⟨by simpa using stays, found⟩
    · cases found
  have subset : ∀ row ∈ (keepKeys (fun row => !gone.contains row.queryKey) s.series).keys,
      row.queryKey ∉ gone ∧ row ∈ s.series.keys := by
    intro row member
    obtain ⟨c, found⟩ := lookup_of_mem_keys member
    exact ⟨(lookups row c found).1, mem_keys_of_lookup (lookups row c found).2⟩
  exact {
    aligned := fun row member => settled.aligned row (subset row member).2
    inhabited := by
      intro row member
      obtain ⟨f, there, held⟩ := settled.inhabited row (subset row member).2
      have stays := (subset row member).1
      rw [← held.key] at stays
      exact ⟨f, List.mem_filter.mpr ⟨there, by simpa using stays⟩, held⟩
    reaches := fun f member => settled.reaches f (List.mem_filter.mp member).1
    whole := settled.whole
    nested := settled.nested
    closed := fun level known row member => settled.closed level known row (subset row member).2
    value := by
      intro row c found claims
      have both := lookups row c found
      rw [settled.value row c both.2 ⟨claims.minute, claims.day⟩]
      unfold upTo total
      rw [List.filter_filter]
      congr 2
      apply List.filter_congr
      intro f _
      by_cases held : row.Holds f.reading
      · have stays := both.1
        rw [← held.key] at stays
        simp [stays]
      · simp [held]
    present := by
      intro level known f member reached rolled after
      have there := List.mem_filter.mp member
      obtain ⟨c, found⟩ := lookup_of_mem_keys (settled.present level known f there.1 reached rolled after)
      have stays : (!gone.contains (f.reading.row level.1).queryKey) = true := there.2
      refine mem_keys_of_lookup (c := c) ?_
      rw [keepKeys_lookup, if_pos stays, found]
    waiting := fun f member => settled.waiting f (List.mem_filter.mp member).1
    dirty := settled.dirty
    tiers := settled.tiers }

section File

/-- Every resolution but the finest one is summed from a finer one, no further than the minutes are. -/
theorem Settled.until_le (settled : Settled s filed thinned) {res : Nat} (known : res ∈ resolutions) (coarse : res ≠ 60) :
    ∃ level ∈ levels, level.2 = res ∧ s.rollupUntil level.1 ≤ s.rollupUntil 60 := by
  have nested := settled.nested
  rcases resolution_cases known with rfl | rfl | rfl | rfl
  · exact absurd rfl coarse
  · exact ⟨(60, 300), by decide, rfl, Nat.le_refl _⟩
  · exact ⟨(300, 3600), by decide, rfl, nested.2⟩
  · exact ⟨(3600, 86400), by decide, rfl, Nat.le_trans nested.1 nested.2⟩

/-- A reading may be filed under its minute, on time or to wait for its bucket. -/
theorem Settled.file (settled : Settled s filed thinned) (reading : Reading) (reach : Nat)
    (timely : (reach = 60 ∧ (60, start 300 reading.ts) ∈ s.dirtyRollup) ∨
      (reach = 86400 ∧ s.rollupUntil 60 ≤ reading.ts)) :
    Settled { s with series := upsert (fun _ => true) s.series (reading.row 60) reading.counters }
      (filed ++ [⟨reading, reach⟩]) thinned := by
  have keys : ∀ row ∈ (upsert (fun _ => true) s.series (reading.row 60) reading.counters).keys,
      row = reading.row 60 ∨ row ∈ s.series.keys := by
    intro row member
    rw [mem_keys_iff, upsert_lookup] at member
    by_cases same : row = reading.row 60
    · exact .inl same
    · rw [if_neg same] at member
      exact .inr (mem_keys_iff.mpr member)
  have keeps : ∀ row, row = reading.row 60 ∨ row ∈ s.series.keys →
      row ∈ (upsert (fun _ => true) s.series (reading.row 60) reading.counters).keys := by
    intro row cases
    rw [mem_keys_iff, upsert_lookup]
    by_cases same : row = reading.row 60
    · simp [same]
    · rw [if_neg same]
      rcases cases with here | there
      · exact absurd here same
      · exact mem_keys_iff.mp there
  have minute : (reading.row 60).Holds reading := ⟨rfl, spans_row reading (by decide)⟩
  have known : reach ∈ resolutions := by
    rcases timely with ⟨rfl, _⟩ | ⟨rfl, _⟩ <;> decide
  exact {
    aligned := by
      intro row member
      rcases keys row member with rfl | old
      · exact reading.row_aligned (by decide)
      · exact settled.aligned row old
    inhabited := by
      intro row member
      rcases keys row member with rfl | old
      · exact ⟨⟨reading, reach⟩, by simp, minute⟩
      · obtain ⟨f, there, held⟩ := settled.inhabited row old
        exact ⟨f, List.mem_append_left _ there, held⟩
    reaches := by
      intro f member
      rcases List.mem_append.mp member with old | new
      · exact settled.reaches f old
      · rw [List.mem_singleton.mp new]
        exact known
    whole := settled.whole
    nested := settled.nested
    closed := by
      intro level also row member res
      rcases keys row member with rfl | old
      · have := (level_of_mem also).finer
        have := resolution_cases (level_of_mem also).knownSrc
        have here : 60 = level.2 := res
        omega
      · exact settled.closed level also row old res
    value := by
      intro row c found claims
      have claimsBefore : s.Claims thinned row := ⟨claims.minute, claims.day⟩
      rw [upsert_lookup] at found
      unfold upTo
      rw [total_append, total_cons, total_nil, add_zero]
      by_cases same : row = reading.row 60
      · subst same
        have reached : (reading.row 60).res ≤ reach := by
          have := resolution_cases known
          show 60 ≤ reach
          omega
        rw [if_pos rfl] at found
        rw [if_pos ⟨minute, reached⟩]
        cases before : s.series.lookup (reading.row 60) with
        | some old =>
          have value := settled.value _ _ before claimsBefore
          simp only [before, if_true, Option.some.injEq] at found
          rw [← found, value]
          rfl
        | none =>
          simp only [before, Option.some.injEq] at found
          have nothing : total (fun f => f.reading.counters)
              (fun f => (reading.row 60).Holds f.reading ∧ (reading.row 60).res ≤ f.reach) filed = 0 := by
            apply total_eq_zero
            intro f there counted
            have after : s.rollupUntil 60 ≤ f.reading.ts := Nat.le_trans (claims.minute rfl) counted.1.spans.1
            have rolled : s.Rolled 60 f.reading.ts := by
              intro level also none
              have := (level_of_mem also).finer
              have := resolution_cases (level_of_mem also).knownSrc
              omega
            have own : f.reading.row 60 = reading.row 60 :=
              (holds_iff (reading.row_aligned (by decide))).mp counted.1
            have member := settled.present (60, 300) (by decide) f there counted.2 rolled after
            rw [own, mem_keys_iff] at member
            exact member before
          rw [← found, nothing, zero_add]
      · rw [if_neg same] at found
        have apart : ¬ (row.Holds reading ∧ row.res ≤ reach) := by
          intro counted
          have aligned := settled.aligned row (mem_keys_of_lookup found)
          by_cases fine : row.res = 60
          · have own := (holds_iff aligned).mp counted.1
            rw [fine] at own
            exact same own.symm
          · obtain ⟨level, also, res, within⟩ := settled.until_le aligned.known fine
            have early := settled.closed level also row (mem_keys_of_lookup found) res.symm
            have ends : row.bucketStart + row.res ≤ s.rollupUntil level.1 := by
              apply add_le_of_lt aligned.whole _ early
              rw [← res]
              exact settled.whole level also
            have inside := counted.1.spans.2
            have := resolution_cases aligned.known
            rcases timely with ⟨rfl, _⟩ | ⟨_, after⟩ <;> omega
        rw [if_neg apart, add_zero]
        exact settled.value row c found claimsBefore
    present := by
      intro level also f member reached rolled after
      apply keeps
      rcases List.mem_append.mp member with old | new
      · exact .inr (settled.present level also f old reached rolled after)
      · rw [List.mem_singleton.mp new] at reached rolled ⊢
        by_cases fine : level.1 = 60
        · rw [fine]
          exact .inl rfl
        · obtain ⟨lower, alsoLower, res, within⟩ := settled.until_le (level_of_mem also).knownSrc fine
          have early : reading.ts < s.rollupUntil lower.1 := rolled lower alsoLower res
          have := resolution_cases (level_of_mem also).knownSrc
          rcases timely with ⟨rfl, _⟩ | ⟨_, open'⟩
          · simp only at reached
            omega
          · omega
    waiting := by
      intro f member less
      rcases List.mem_append.mp member with old | new
      · exact settled.waiting f old less
      · rw [List.mem_singleton.mp new] at less ⊢
        rcases timely with ⟨rfl, entry⟩ | ⟨rfl, _⟩
        · exact ⟨(60, 300), by decide, Nat.le_refl _, entry⟩
        · exact absurd less (Nat.lt_irrefl _)
    dirty := settled.dirty
    tiers := settled.tiers }

end File

end Rdst.Series
