import Rdst.Series.Settled

namespace Rdst.Series

open Assoc Buckets Totals

section Recompute

variable {s : Store} {filed : List Filed} {thinned : List String} {src dest bucket : Nat}

/-- The rows that a bucket is summed from again. -/
def Store.toSum (s : Store) (src dest bucket : Nat) : List (Sigma fun _ : RowKey => Counters) :=
  s.rowsWhere fun row => row.res = src ∧ bucket ≤ row.bucketStart ∧ row.bucketStart < bucket + dest ∧
    s.summedInto dest row

/-- The finer rows of a bucket hold every reading that was recorded in it. -/
def Kept (s : Store) (filed : List Filed) (src : Nat) (row : RowKey) : Prop :=
  ∀ f ∈ filed, row.Holds f.reading →
    src ≤ f.reach ∧ s.series.lookup (f.reading.row src) = some (allOf filed (f.reading.row src))

instance (s : Store) (filed : List Filed) (src : Nat) (row : RowKey) : Decidable (Kept s filed src row) :=
  inferInstanceAs (Decidable (∀ f ∈ filed, row.Holds f.reading → src ≤ f.reach ∧ _))

/-- The minutes of a bucket hold just the readings that are not counted in it. -/
structure OnlyLate (s : Store) (filed : List Filed) (row : RowKey) : Prop where
  all : ∀ f ∈ filed, row.Holds f.reading → f.reach = 60 → s.series.lookup (f.reading.row 60) =
    some (total (fun g => g.reading.counters) (fun g => (f.reading.row 60).Holds g.reading ∧ g.reach = 60) filed)
  only : ∀ x ∈ s.series.keys, x.res = 60 → x.queryKey = row.queryKey → row.Spans x.bucketStart →
    ∃ f ∈ filed, x.Holds f.reading ∧ f.reach = 60

instance (s : Store) (filed : List Filed) (row : RowKey) : Decidable (OnlyLate s filed row) :=
  decidable_of_iff
    ((∀ f ∈ filed, row.Holds f.reading → f.reach = 60 → s.series.lookup (f.reading.row 60) =
      some (total (fun g => g.reading.counters) (fun g => (f.reading.row 60).Holds g.reading ∧ g.reach = 60) filed)) ∧
      ∀ x ∈ s.series.keys, x.res = 60 → x.queryKey = row.queryKey → row.Spans x.bucketStart →
        ∃ f ∈ filed, x.Holds f.reading ∧ f.reach = 60)
    ⟨fun both => ⟨both.1, both.2⟩, fun late => ⟨late.all, late.only⟩⟩

def bucketTimes (bucket dest : Nat) (reading : Reading) : Bool := bucket ≤ reading.ts && reading.ts < bucket + dest

/-- The identities with rows to sum again, or with readings that are still to be counted. -/
def Store.identities (s : Store) (filed : List Filed) (src dest bucket : Nat) : List String :=
  ((s.toSum src dest bucket).map fun child => child.1.queryKey) ++
    (filed.filter fun f => f.reach = src ∧ bucketTimes bucket dest f.reading).map fun f => f.reading.queryKey

/-- Nothing was pruned that a bucket, summed again, would need. -/
def SafeToSum (s : Store) (filed : List Filed) (thinned : List String) (src dest bucket : Nat) : Prop :=
  ∀ queryKey ∈ s.identities filed src dest bucket, (dest = 86400 → queryKey ∉ thinned) →
    if ⟨queryKey, dest, bucket⟩ ∈ s.series.keys ∧ tailAdd s.tierPeriod s.incidentPin ⟨queryKey, dest, bucket⟩ = true
      then OnlyLate s filed ⟨queryKey, dest, bucket⟩
      else Kept s filed src ⟨queryKey, dest, bucket⟩

instance (s : Store) (filed : List Filed) (thinned : List String) (src dest bucket : Nat) :
    Decidable (SafeToSum s filed thinned src dest bucket) :=
  have (queryKey : String) : Decidable (if ⟨queryKey, dest, bucket⟩ ∈ s.series.keys ∧
      tailAdd s.tierPeriod s.incidentPin ⟨queryKey, dest, bucket⟩ = true
    then OnlyLate s filed ⟨queryKey, dest, bucket⟩ else Kept s filed src ⟨queryKey, dest, bucket⟩) := inferInstance
  List.decidableBAll _ (s.identities filed src dest bucket)

theorem bucketTimes_iff {reading : Reading} : bucketTimes bucket dest reading = true ↔
    bucket ≤ reading.ts ∧ reading.ts < bucket + dest := by
  simp [bucketTimes]

/-- The row that a finer row is summed into, in a bucket. -/
def atRow (dest bucket : Nat) (row : Sigma fun _ : RowKey => Counters) : RowKey := ⟨row.1.queryKey, dest, bucket⟩

theorem recompute_cases {row : RowKey} {c : Counters} (found : (recompute s src dest bucket).series.lookup row = some c) :
    (s.series.lookup row = some c ∧ ¬ ∃ child ∈ s.toSum src dest bucket, atRow dest bucket child = row) ∨
    ((∃ child ∈ s.toSum src dest bucket, atRow dest bucket child = row) ∧
      c = match s.series.lookup row with
        | none => total Sigma.snd (fun child => atRow dest bucket child = row) (s.toSum src dest bucket)
        | some old => if tailAdd s.tierPeriod s.incidentPin row
          then old + total Sigma.snd (fun child => atRow dest bucket child = row) (s.toSum src dest bucket)
          else total Sigma.snd (fun child => atRow dest bucket child = row) (s.toSum src dest bucket)) := by
  have lookups : (recompute s src dest bucket).series =
      forItems (groupSums (atRow dest bucket) Sigma.snd (s.toSum src dest bucket)) s.series
        (upsert (tailAdd s.tierPeriod s.incidentPin)) := rfl
  rw [lookups, forItems_lookup (upsert_local _), groupSums_lookup] at found
  by_cases occurs : ∃ child ∈ s.toSum src dest bucket, atRow dest bucket child = row
  · simp only [if_pos occurs, upsert_lookup, if_true, Option.some.injEq] at found
    exact .inr ⟨occurs, found.symm⟩
  · rw [if_neg occurs] at found
    exact .inl ⟨found, occurs⟩

theorem recompute_keys {row : RowKey} : row ∈ (recompute s src dest bucket).series.keys ↔
    row ∈ s.series.keys ∨ ∃ child ∈ s.toSum src dest bucket, atRow dest bucket child = row := by
  have lookups : (recompute s src dest bucket).series =
      forItems (groupSums (atRow dest bucket) Sigma.snd (s.toSum src dest bucket)) s.series
        (upsert (tailAdd s.tierPeriod s.incidentPin)) := rfl
  rw [mem_keys_iff, lookups, forItems_lookup (upsert_local _), groupSums_lookup, mem_keys_iff]
  by_cases occurs : ∃ child ∈ s.toSum src dest bucket, atRow dest bucket child = row
  · simp [occurs, upsert_lookup]
  · simp [occurs]

theorem mem_toSum {child : Sigma fun _ : RowKey => Counters} : child ∈ s.toSum src dest bucket ↔
    child ∈ s.series.entries ∧ child.1.res = src ∧ bucket ≤ child.1.bucketStart ∧
      child.1.bucketStart < bucket + dest ∧ s.summedInto dest child.1 = true := by
  unfold Store.toSum Store.rowsWhere
  rw [List.mem_filter, decide_eq_true_eq]

/-- A finer row of a reading of the bucket is among those that are summed. -/
theorem Settled.row_toSum (settled : Settled s filed thinned) (level : Level src dest) (aligned : dest ∣ bucket)
    {f : Filed} {queryKey : String} (held : RowKey.Holds ⟨queryKey, dest, bucket⟩ f.reading) {c : Counters}
    (found : s.series.lookup (f.reading.row src) = some c) (day : dest = 86400 → queryKey ∉ thinned) :
    (⟨f.reading.row src, c⟩ : Sigma _) ∈ s.toSum src dest bucket := by
  have key : f.reading.queryKey = queryKey := held.key
  have spans : bucket ≤ f.reading.ts ∧ f.reading.ts < bucket + dest := held.spans
  refine mem_toSum.mpr ⟨mem_entries_iff.mpr found, rfl, ?_, ?_, ?_⟩
  · exact le_start (level.dvd.trans aligned) spans.1
  · exact Nat.lt_of_le_of_lt start_le spans.2
  · unfold Store.summedInto
    by_cases last : dest = 86400
    · have plain : tailPeriod s.tierPeriod (f.reading.row src) = false := by
        apply settled.tail_false
        rw [show (f.reading.row src).queryKey = queryKey from key]
        exact day last
      simp [plain]
    · simp [last]

/-- The finer rows of a bucket add up to what the readings of a kind do that they are there for. -/
theorem Settled.summed_again (settled : Settled s filed thinned) (level : Level src dest) (aligned : dest ∣ bucket)
    {queryKey : String} (day : dest = 86400 → queryKey ∉ thinned) (test : Filed → Prop) [DecidablePred test]
    (there : ∀ f ∈ filed, RowKey.Holds ⟨queryKey, dest, bucket⟩ f.reading → test f →
      f.reading.row src ∈ s.series.keys)
    (values : ∀ child ∈ s.toSum src dest bucket, child.1.queryKey = queryKey → child.2 =
      total (fun f => f.reading.counters) (fun f => child.1.Holds f.reading ∧ test f) filed) :
    total Sigma.snd (fun child => atRow dest bucket child = ⟨queryKey, dest, bucket⟩) (s.toSum src dest bucket) =
      total (fun f => f.reading.counters) (fun f => RowKey.Holds ⟨queryKey, dest, bucket⟩ f.reading ∧ test f) filed := by
  have alignedParent : RowKey.Aligned ⟨queryKey, dest, bucket⟩ := ⟨level.knownDest, aligned⟩
  apply sum_finer (List.filter_sublist.trans List.filter_sublist) ?_ alignedParent (Nat.le_of_lt level.finer)
  · intro child found
    have both := List.mem_filter.mp found
    have here := mem_toSum.mp both.1
    have same : atRow dest bucket child = ⟨queryKey, dest, bucket⟩ := by simpa using both.2
    have key : child.1.queryKey = queryKey := congrArg RowKey.queryKey same
    exact ⟨here.2.1, key, here.2.2.1, here.2.2.2.1⟩
  · intro child found
    have both := List.mem_filter.mp found
    have same : atRow dest bucket child = ⟨queryKey, dest, bucket⟩ := by simpa using both.2
    have key : child.1.queryKey = queryKey := congrArg RowKey.queryKey same
    exact values child both.1 key
  · intro f member held met
    obtain ⟨c, found⟩ := lookup_of_mem_keys (there f member held met)
    have among := settled.row_toSum level aligned held found day
    have key : f.reading.queryKey = queryKey := held.key
    refine ⟨_, List.mem_filter.mpr ⟨among, ?_⟩, rfl, spans_row f.reading level.knownSrc⟩
    simp [atRow, Reading.row, key]
  · intro child found
    exact settled.aligned _ (List.mem_keys_of_mem (mem_toSum.mp (List.mem_filter.mp found).1).1)

/-- A row that was summed again counts all the readings of its bucket. -/
theorem Settled.recomputed (settled : Settled s filed thinned) (level : Level src dest) (aligned : dest ∣ bucket)
    (safe : SafeToSum s filed thinned src dest bucket) {queryKey : String} (day : dest = 86400 → queryKey ∉ thinned)
    (occurs : queryKey ∈ s.identities filed src dest bucket) :
    (match s.series.lookup ⟨queryKey, dest, bucket⟩ with
      | none => total Sigma.snd (fun child => atRow dest bucket child = ⟨queryKey, dest, bucket⟩) (s.toSum src dest bucket)
      | some old => if tailAdd s.tierPeriod s.incidentPin ⟨queryKey, dest, bucket⟩
        then old + total Sigma.snd (fun child => atRow dest bucket child = ⟨queryKey, dest, bucket⟩) (s.toSum src dest bucket)
        else total Sigma.snd (fun child => atRow dest bucket child = ⟨queryKey, dest, bucket⟩) (s.toSum src dest bucket)) =
      total (fun f => f.reading.counters)
        (fun f => RowKey.Holds ⟨queryKey, dest, bucket⟩ f.reading ∧ src ≤ f.reach) filed := by
  have meets := safe queryKey occurs day
  by_cases adds : ⟨queryKey, dest, bucket⟩ ∈ s.series.keys ∧
      tailAdd s.tierPeriod s.incidentPin ⟨queryKey, dest, bucket⟩ = true
  · rw [if_pos adds] at meets
    obtain ⟨old, found⟩ := lookup_of_mem_keys adds.1
    have five : dest = 300 := by
      have tail := adds.2
      simp only [tailAdd, Bool.and_eq_true, decide_eq_true_eq] at tail
      exact tail.1.1
    have minutes : src = 60 := by
      have := resolution_cases level.knownSrc
      have := level.finer
      omega
    have before := settled.value _ _ found ⟨fun minute => by simp only at minute; omega, day⟩
    have again := settled.summed_again level aligned day (fun f => f.reach = 60)
      (by
        intro f member held late
        rw [minutes]
        exact mem_keys_of_lookup (meets.all f member held late))
      (by
        intro child found key
        have here := mem_toSum.mp found
        have member := List.mem_keys_of_mem here.1
        obtain ⟨f, there, holds, late⟩ := meets.only child.1 member (here.2.1.trans minutes) key ⟨here.2.2.1, here.2.2.2.1⟩
        have own := (holds_iff (settled.aligned _ member)).mp holds
        rw [here.2.1, minutes] at own
        have wide : RowKey.Holds ⟨queryKey, dest, bucket⟩ f.reading :=
          ⟨holds.key.trans key, holds.spans.widen (settled.aligned _ member) ⟨level.knownDest, aligned⟩
            (by rw [here.2.1]; exact Nat.le_of_lt level.finer) ⟨here.2.2.1, here.2.2.2.1⟩⟩
        have value := meets.all f there wide late
        rw [own, mem_entries_iff.mp here.1] at value
        exact Option.some.inj value)
    rw [found, before]
    simp only [adds.2, if_true]
    rw [again]
    refine ((total_split fun f => dest ≤ f.reach).trans ?_).symm
    congr 1
    · apply total_congr
      · intro f member
        have := level.finer
        constructor
        · intro all
          exact ⟨all.1.1, all.2⟩
        · intro both
          have reached : dest ≤ f.reach := both.2
          exact ⟨⟨both.1, by omega⟩, reached⟩
      · intro f _ _
        rfl
    · apply total_congr
      · intro f member
        have := resolution_cases (settled.reaches f member)
        constructor
        · intro all
          have := all.1.2
          exact ⟨all.1.1, by omega⟩
        · intro both
          exact ⟨⟨both.1, by omega⟩, by omega⟩
      · intro f _ _
        rfl
  · rw [if_neg adds] at meets
    have again := settled.summed_again level aligned day (fun _ => True)
      (by
        intro f member held _
        exact mem_keys_of_lookup (meets f member held).2)
      (by
        intro child found key
        have here := mem_toSum.mp found
        have member := List.mem_keys_of_mem here.1
        obtain ⟨f, there, holds⟩ := settled.inhabited _ member
        have own := (holds_iff (settled.aligned _ member)).mp holds
        rw [here.2.1] at own
        have wide : RowKey.Holds ⟨queryKey, dest, bucket⟩ f.reading :=
          ⟨holds.key.trans key, holds.spans.widen (settled.aligned _ member) ⟨level.knownDest, aligned⟩
            (by rw [here.2.1]; exact Nat.le_of_lt level.finer) ⟨here.2.2.1, here.2.2.2.1⟩⟩
        have value := (meets f there wide).2
        rw [own, mem_entries_iff.mp here.1] at value
        rw [Option.some.inj value, allOf]
        apply total_congr
        · intro g _
          simp
        · intro g _ _
          rfl)
    have all : total (fun f => f.reading.counters) (fun f => RowKey.Holds ⟨queryKey, dest, bucket⟩ f.reading ∧ True) filed =
        total (fun f => f.reading.counters) (fun f => RowKey.Holds ⟨queryKey, dest, bucket⟩ f.reading ∧ src ≤ f.reach) filed := by
      apply total_congr
      · intro f member
        constructor
        · intro both
          exact ⟨both.1, (meets f member both.1).1⟩
        · intro both
          exact ⟨both.1, trivial⟩
      · intro f _ _
        rfl
    rw [again, all]
    split
    · rfl
    · rename_i old found
      have plain : ¬ tailAdd s.tierPeriod s.incidentPin ⟨queryKey, dest, bucket⟩ = true :=
        fun tail => adds ⟨mem_keys_of_lookup found, tail⟩
      rw [if_neg plain]

theorem level_parent {parent : Nat} (known : (src, dest) ∈ levels) :
    parentRes dest = some parent ↔ (dest, parent) ∈ levels := by
  rcases level_cases known with same | same | same <;> obtain ⟨rfl, rfl⟩ := Prod.mk.inj same <;>
    simp [parentRes, levels, List.lookup_cons, eq_comm]

/-- A reading that came to a row of the bucket has a row there. -/
theorem SafeToSum.counted (settled : Settled s filed thinned) (level : Level src dest) (aligned : dest ∣ bucket)
    (safe : SafeToSum s filed thinned src dest bucket) {f : Filed} (member : f ∈ filed)
    (inside : bucket ≤ f.reading.ts ∧ f.reading.ts < bucket + dest) (atSrc : f.reach = src)
    (day : dest = 86400 → f.reading.queryKey ∉ thinned) :
    ∃ child ∈ s.toSum src dest bucket, child.1.queryKey = f.reading.queryKey := by
  have held : RowKey.Holds ⟨f.reading.queryKey, dest, bucket⟩ f.reading := ⟨rfl, inside⟩
  have among : f.reading.queryKey ∈ s.identities filed src dest bucket := by
    apply List.mem_append_right
    refine List.mem_map.mpr ⟨f, List.mem_filter.mpr ⟨member, ?_⟩, rfl⟩
    simpa [atSrc] using bucketTimes_iff.mpr inside
  have meets := safe f.reading.queryKey among day
  have row : ∃ c, s.series.lookup (f.reading.row src) = some c := by
    split at meets
    · rename_i adds
      have tail := adds.2
      simp only [tailAdd, Bool.and_eq_true, decide_eq_true_eq] at tail
      have five : dest = 300 := tail.1.1
      have minutes : src = 60 := by
        have := resolution_cases level.knownSrc
        have := level.finer
        omega
      rw [minutes] at atSrc ⊢
      exact ⟨_, meets.all f member held atSrc⟩
    · exact ⟨_, (meets f member held).2⟩
  obtain ⟨c, found⟩ := row
  exact ⟨_, settled.row_toSum level aligned held found day, rfl⟩

/-- Summing a bucket again keeps what holds, where nothing it needs was pruned. -/
theorem Settled.recompute (settled : Settled s filed thinned) (known : (src, dest) ∈ levels) (aligned : dest ∣ bucket)
    (early : bucket < s.rollupUntil src) (safe : SafeToSum s filed thinned src dest bucket) :
    Settled (recompute s src dest bucket) (raise src dest (bucketTimes bucket dest) filed) thinned := by
  have level := level_of_mem known
  have rowCases : ∀ row ∈ (Series.recompute s src dest bucket).series.keys,
      row ∈ s.series.keys ∨ ∃ child ∈ s.toSum src dest bucket, atRow dest bucket child = row :=
    fun row member => recompute_keys.mp member
  have keeps : ∀ row ∈ s.series.keys, row ∈ (Series.recompute s src dest bucket).series.keys :=
    fun row member => recompute_keys.mpr (.inl member)
  exact {
    aligned := by
      intro row member
      rcases rowCases row member with old | ⟨child, _, rfl⟩
      · exact settled.aligned row old
      · exact ⟨level.knownDest, aligned⟩
    inhabited := by
      intro row member
      have held : ∃ f ∈ filed, row.Holds f.reading := by
        rcases rowCases row member with old | ⟨child, found, rfl⟩
        · exact settled.inhabited row old
        · have here := mem_toSum.mp found
          have there := List.mem_keys_of_mem here.1
          obtain ⟨f, among, holds⟩ := settled.inhabited _ there
          have le : child.1.res ≤ (atRow dest bucket child).res := by
            rw [here.2.1]
            exact Nat.le_of_lt level.finer
          exact ⟨f, among, holds.key, holds.spans.widen (settled.aligned _ there) ⟨level.knownDest, aligned⟩ le
            ⟨here.2.2.1, here.2.2.2.1⟩⟩
      obtain ⟨f, there, holds⟩ := held
      refine ⟨_, List.mem_map_of_mem there, ?_⟩
      split <;> exact holds
    reaches := by
      intro f member
      obtain ⟨g, there, _, ⟨_, _, moved⟩ | ⟨_, stays⟩⟩ := mem_raise.mp member
      · exact moved ▸ level.knownDest
      · exact stays ▸ settled.reaches g there
    whole := settled.whole
    nested := settled.nested
    closed := by
      intro other also row member res
      rcases rowCases row member with old | ⟨child, found, rfl⟩
      · exact settled.closed other also row old res
      · have both := (level_unique also known).2 res.symm
        rw [both]
        exact early
    value := by
      intro row c found claims
      have claimsBefore : s.Claims thinned row := ⟨claims.minute, claims.day⟩
      rcases recompute_cases found with ⟨old, unsummed⟩ | ⟨⟨child, member, rfl⟩, sum⟩
      · rw [settled.value row c old claimsBefore]
        symm
        apply upTo_raise level.finer
        intro f member held atSrc times between
        have inside := bucketTimes_iff.mp times
        have there := settled.aligned row (mem_keys_of_lookup old)
        have here : row.res = dest := Nat.le_antisymm between.2 (level.next _ there.known between.1)
        have own : row = ⟨f.reading.queryKey, dest, bucket⟩ := by
          have first := (holds_iff there).mp held
          rw [← first, here, Reading.row, start_eq aligned inside.1 inside.2]
        have day : dest = 86400 → f.reading.queryKey ∉ thinned := by
          intro last
          rw [held.key]
          exact claims.day (here.trans last)
        obtain ⟨child, among, key⟩ := safe.counted settled level aligned member inside atSrc day
        exact unsummed ⟨child, among, by rw [own, atRow, key]⟩
      · have among : child.1.queryKey ∈ s.identities filed src dest bucket :=
          List.mem_append_left _ (List.mem_map_of_mem member)
        have again := settled.recomputed level aligned safe claims.day among
        rw [sum]
        refine again.trans ?_
        symm
        apply upTo_raised level settled.reaches
        · intro reading held
          exact bucketTimes_iff.mpr held.spans
        · rfl
    present := by
      intro other also f member reached rolled after
      obtain ⟨g, there, same, moved⟩ := mem_raise.mp member
      rw [same] at rolled after ⊢
      by_cases came : other.1 ≤ g.reach
      · exact keeps _ (settled.present other also g there came rolled after)
      · rcases moved with ⟨atSrc, times, moved⟩ | ⟨_, stays⟩
        · have inside := bucketTimes_iff.mp times
          have here : other.1 = dest := by
            have := level.next _ (level_of_mem also).knownSrc (by omega)
            omega
          have day : dest = 86400 → g.reading.queryKey ∉ thinned := by
            intro last
            rcases level_cases also with rfl | rfl | rfl <;> simp_all
          obtain ⟨child, among, key⟩ := safe.counted settled level aligned there inside atSrc day
          refine recompute_keys.mpr (.inr ⟨child, among, ?_⟩)
          rw [atRow, key, here, Reading.row, start_eq aligned inside.1 inside.2]
        · omega
    waiting := by
      intro f member less
      obtain ⟨g, there, same, moved⟩ := mem_raise.mp member
      rw [same]
      have next : ∀ parent, (dest, parent) ∈ levels → start dest g.reading.ts = bucket →
          (dest, start parent g.reading.ts) ∈ (Series.recompute s src dest bucket).dirtyRollup := by
        intro parent upper here
        have found := (level_parent known).mpr upper
        unfold Series.recompute
        simp only [found]
        rw [← here, start_start (level_of_mem upper).dvd]
        exact List.mem_insert_self
      have kept : ∀ entry ∈ s.dirtyRollup, entry ≠ (src, bucket) →
          entry ∈ (Series.recompute s src dest bucket).dirtyRollup := by
        intro entry among ne
        have stays : entry ∈ s.dirtyRollup.erase (src, bucket) := (List.mem_erase_of_ne ne).mpr among
        unfold Series.recompute
        simp only
        split
        · exact List.mem_insert_of_mem stays
        · exact stays
      have climbs : dest ≤ f.reach → start dest g.reading.ts = bucket → ∃ level ∈ levels, level.1 ≤ f.reach ∧
          (level.1, start level.2 g.reading.ts) ∈ (Series.recompute s src dest bucket).dirtyRollup := by
        intro came here
        have upper : ∃ parent, (dest, parent) ∈ levels := by
          rcases level_cases known with same | same | same <;> obtain ⟨rfl, rfl⟩ := Prod.mk.inj same
          · exact ⟨3600, by decide⟩
          · exact ⟨86400, by decide⟩
          · omega
        obtain ⟨parent, upper⟩ := upper
        exact ⟨(dest, parent), upper, came, next parent upper here⟩
      rcases moved with ⟨atSrc, times, moved⟩ | ⟨not, stays⟩
      · have inside := bucketTimes_iff.mp times
        exact climbs (Nat.le_of_eq moved.symm) (start_eq aligned inside.1 inside.2)
      · rw [stays] at less climbs ⊢
        obtain ⟨other, also, le, entry⟩ := settled.waiting g there less
        by_cases here : (other.1, start other.2 g.reading.ts) = (src, bucket)
        · obtain ⟨first, second⟩ := Prod.mk.inj here
          have both := (level_unique also known).1 first
          rw [both] at second
          have inside := (mem_iff (resolution_pos level.knownDest) aligned).mpr second
          have ne : g.reach ≠ src := fun atSrc => not ⟨atSrc, bucketTimes_iff.mpr inside⟩
          have come := level.next _ (settled.reaches g there) (by omega)
          exact climbs come second
        · exact ⟨other, also, le, kept _ entry here⟩
    dirty := by
      intro other also b entry
      unfold Series.recompute at entry
      simp only at entry
      split at entry
      · rename_i parent found
        rcases List.mem_insert_iff.mp entry with new | old
        · obtain ⟨first, second⟩ := Prod.mk.inj new
          have both := (level_unique also ((level_parent known).mp found)).1 first
          rw [second, both]
          exact dvd_start
        · exact settled.dirty other also b (List.mem_of_mem_erase old)
      · exact settled.dirty other also b (List.mem_of_mem_erase entry)
    tiers := settled.tiers }

end Recompute

end Rdst.Series
