import Rdst.Series.Rollup

namespace Rdst.Series

open Assoc Buckets Totals

/-- A reading that was recorded, and the coarsest resolution whose rows count it by now. -/
structure Filed where
  reading : Reading
  reach : Nat
deriving DecidableEq

/-- What the readings add up to that the rows of a row's resolution count. -/
def upTo (filed : List Filed) (row : RowKey) : Counters :=
  total (fun f => f.reading.counters) (fun f => row.Holds f.reading ∧ row.res ≤ f.reach) filed

/-- What all the readings of a row add up to. -/
def allOf (filed : List Filed) (row : RowKey) : Counters :=
  total (fun f => f.reading.counters) (fun f => row.Holds f.reading) filed

/-- Some readings have come from the rows of one resolution to those of the next. -/
def raise (src dest : Nat) (some : Reading → Bool) (filed : List Filed) : List Filed :=
  filed.map fun f => if f.reach = src ∧ some f.reading then { f with reach := dest } else f

section Lookups

variable {series : StmtSeries} {row : RowKey} {sums : StmtSeries}

theorem insertOrIgnore_local : Local insertOrIgnore where
  other series key sum k ne := by
    unfold insertOrIgnore
    split
    · rfl
    · rw [insert_lookup, if_neg ne]
  own series other key sum same := by
    unfold insertOrIgnore
    rw [same]
    split <;> simp [insert_lookup, same]

theorem upsert_local (add : RowKey → Bool) : Local (upsert add) where
  other series key sum k ne := by
    unfold upsert
    split <;> rw [insert_lookup, if_neg ne]
  own series other key sum same := by
    unfold upsert
    rw [same]
    split <;> simp [insert_lookup]

theorem insert_local : Local fun (series : StmtSeries) row sum => series.insert row sum where
  other series key sum k ne := by rw [insert_lookup, if_neg ne]
  own series other key sum same := by simp [insert_lookup]

theorem upsert_lookup (add : RowKey → Bool) (series : StmtSeries) (key : RowKey) (sum : Counters) :
    (upsert add series key sum).lookup row =
      if row = key then some (match series.lookup key with
        | none => sum
        | some old => if add key then old + sum else sum) else series.lookup row := by
  cases found : series.lookup key <;> simp [upsert, found, insert_lookup]

theorem mem_entries_iff {c : Counters} : (⟨row, c⟩ : Sigma _) ∈ series.entries ↔ series.lookup row = some c :=
  AList.mem_lookup_iff.symm

theorem mem_keys_of_lookup {c : Counters} (found : series.lookup row = some c) : row ∈ series.keys := by
  rw [mem_keys_iff, found]
  exact Option.some_ne_none c

theorem lookup_of_mem_keys (member : row ∈ series.keys) : ∃ c, series.lookup row = some c :=
  Option.ne_none_iff_exists'.mp (mem_keys_iff.mp member)

end Lookups

section Sums

variable {series : StmtSeries} {filed : List Filed} {test : Filed → Prop} [DecidablePred test]
  {rows : List (Sigma fun _ : RowKey => Counters)} {parent : RowKey} {src : Nat}

/-- Rows of one resolution that have every reading of a target between them, and count just these, add up to
what the readings of the target do. -/
theorem sum_rows (test target : Filed → Prop) [DecidablePred test] [DecidablePred target] (sub : rows.Sublist series.entries)
    (aligned : ∀ row ∈ rows, row.1.Aligned) (same : ∀ row ∈ rows, row.1.res = src)
    (values : ∀ row ∈ rows, row.2 = total (fun f => f.reading.counters) (fun f => row.1.Holds f.reading ∧ test f) filed)
    (within : ∀ row ∈ rows, ∀ f ∈ filed, row.1.Holds f.reading → test f → target f)
    (there : ∀ f ∈ filed, target f → ∃ row ∈ rows, row.1.Holds f.reading ∧ test f) :
    (rows.map Sigma.snd).sum = total (fun f => f.reading.counters) target filed := by
  have apart : rows.Pairwise fun a b => ∀ f : Filed, ¬ ((a.1.Holds f.reading ∧ test f) ∧ (b.1.Holds f.reading ∧ test f)) := by
    have distinct : rows.Nodup := (List.NodupKeys.nodup series.nodupKeys).sublist sub
    apply distinct.pairwise_of_forall_ne
    intro a inA b inB ne f both
    have first := (holds_iff (aligned a inA)).mp both.1.1
    have second := (holds_iff (aligned b inB)).mp both.2.1
    rw [same a inA] at first
    rw [same b inB] at second
    exact ne (List.NodupKeys.eq_of_fst_eq series.nodupKeys (sub.subset inA) (sub.subset inB) (first.symm.trans second))
  have exact : ∀ f ∈ filed, cover (fun (row : Sigma fun _ : RowKey => Counters) f => row.1.Holds f.reading ∧ test f) rows f =
      if target f then 1 else 0 := by
    intro f member
    split
    · rename_i held
      exact (cover_eq_one_iff apart).mpr (there f member held)
    · rename_i not
      apply cover_eq_zero
      intro row found both
      exact not (within row found f member both.1 both.2)
  rw [← sum_of_cover exact]
  congr 1
  exact List.map_congr_left values

/-- Rows inside a bucket that have every reading of a kind between them add up to what the bucket's readings of
that kind do. -/
theorem sum_finer (sub : rows.Sublist series.entries) (aligned : ∀ row ∈ rows, row.1.Aligned)
    (alignedParent : parent.Aligned) (le : src ≤ parent.res)
    (finer : ∀ row ∈ rows, row.1.res = src ∧ row.1.queryKey = parent.queryKey ∧ parent.Spans row.1.bucketStart)
    (values : ∀ row ∈ rows, row.2 = total (fun f => f.reading.counters) (fun f => row.1.Holds f.reading ∧ test f) filed)
    (there : ∀ f ∈ filed, parent.Holds f.reading → test f → ∃ row ∈ rows, row.1.Holds f.reading) :
    (rows.map Sigma.snd).sum =
      total (fun f => f.reading.counters) (fun f => parent.Holds f.reading ∧ test f) filed := by
  apply sum_rows test (fun f => parent.Holds f.reading ∧ test f) sub aligned (fun row found => (finer row found).1) values
  · intro row found f _ held met
    obtain ⟨res, key, spans⟩ := finer row found
    have wide := held.spans.widen (aligned row found) alignedParent (by omega) spans
    exact ⟨⟨held.key.trans key, wide⟩, met⟩
  · intro f member held
    obtain ⟨row, found, holds⟩ := there f member held.1 held.2
    exact ⟨row, found, holds, held.2⟩

/-- A row by itself. -/
theorem total_own (series : StmtSeries) (row : RowKey) :
    total Sigma.snd (fun entry => entry.1 = row) series.entries = (series.lookup row).getD 0 := by
  obtain ⟨entries, nodup⟩ := series
  show total Sigma.snd (fun entry => entry.1 = row) entries = (entries.dlookup row).getD 0
  induction entries with
  | nil => rfl
  | cons entry rest ih =>
    obtain ⟨key, c⟩ := entry
    rw [List.nodupKeys_cons] at nodup
    rw [total_cons]
    by_cases same : key = row
    · subst same
      have none : total Sigma.snd (fun entry : Sigma fun _ : RowKey => Counters => entry.1 = key) rest = 0 := by
        apply total_eq_zero
        intro other member here
        have among := List.mem_keys_of_mem member
        rw [here] at among
        exact nodup.1 among
      simp [none]
    · rw [if_neg same, zero_add, List.dlookup_cons_ne _ _ (Ne.symm same)]
      exact ih nodup.2

end Sums

section Raise

variable {filed : List Filed} {src dest : Nat} {some : Reading → Bool} {row : RowKey}

theorem mem_raise {f : Filed} : f ∈ raise src dest some filed ↔
    ∃ g ∈ filed, f.reading = g.reading ∧
      ((g.reach = src ∧ some g.reading = true ∧ f.reach = dest) ∨
        (¬ (g.reach = src ∧ some g.reading = true) ∧ f.reach = g.reach)) := by
  unfold raise
  rw [List.mem_map]
  constructor
  · intro found
    obtain ⟨g, member, rfl⟩ := found
    refine ⟨g, member, ?_⟩
    by_cases moves : g.reach = src ∧ some g.reading = true <;> simp [moves]
  · intro found
    obtain ⟨g, member, same, moved⟩ := found
    refine ⟨g, member, ?_⟩
    obtain ⟨reading, reach⟩ := f
    simp only at same moved
    subst same
    rcases moved with ⟨atSrc, now, rfl⟩ | ⟨stays, rfl⟩
    · simp [atSrc, now]
    · simp [stays]

/-- Readings that go on count for more rows, at the resolution they come to only. -/
theorem upTo_raise (order : src < dest)
    (still : ∀ f ∈ filed, row.Holds f.reading → f.reach = src → some f.reading = true → ¬ (src < row.res ∧ row.res ≤ dest)) :
    upTo (raise src dest some filed) row = upTo filed row := by
  unfold upTo raise
  rw [total_map]
  apply total_congr
  · intro f member
    by_cases moves : f.reach = src ∧ some f.reading = true
    · rw [if_pos moves]
      constructor
      · intro counted
        have not := still f member counted.1 moves.1 moves.2
        exact ⟨counted.1, by have := counted.2; simp only at this; omega⟩
      · intro counted
        exact ⟨counted.1, by have := counted.2; simp only; omega⟩
    · rw [if_neg moves]
  · intro f _ _
    split <;> rfl

end Raise

theorem level_cases {level : Nat × Nat} (known : level ∈ levels) :
    level = (60, 300) ∨ level = (300, 3600) ∨ level = (3600, 86400) := by
  simpa [levels] using known

/-- The finer resolution of a level is one, the coarser one is too, and is made of whole buckets of the finer one. -/
structure Level (src dest : Nat) : Prop where
  knownSrc : src ∈ resolutions
  knownDest : dest ∈ resolutions
  finer : src < dest
  next : ∀ res ∈ resolutions, src < res → dest ≤ res

theorem level_of_mem {src dest : Nat} (known : (src, dest) ∈ levels) : Level src dest := by
  rcases level_cases known with same | same | same <;> obtain ⟨rfl, rfl⟩ := Prod.mk.inj same <;>
    exact ⟨by decide, by decide, by decide, by decide⟩

theorem Level.dvd {src dest : Nat} (level : Level src dest) : src ∣ dest :=
  resolution_dvd level.knownSrc level.knownDest (Nat.le_of_lt level.finer)

/-- A level is given by either of its resolutions. -/
theorem level_unique {first second : Nat × Nat} (known : first ∈ levels) (also : second ∈ levels) :
    (first.1 = second.1 → first = second) ∧ (first.2 = second.2 → first = second) := by
  rcases level_cases known with rfl | rfl | rfl <;> rcases level_cases also with rfl | rfl | rfl <;> simp

/-- The readings of a bucket that came to a resolution are those that were counted one resolution below. -/
theorem upTo_raised {src dest : Nat} (level : Level src dest) {filed : List Filed}
    (reaches : ∀ f ∈ filed, f.reach ∈ resolutions) {some : Reading → Bool} {row : RowKey}
    (all : ∀ reading, row.Holds reading → some reading = true) (here : row.res = dest) :
    upTo (raise src dest some filed) row =
      total (fun f => f.reading.counters) (fun f => row.Holds f.reading ∧ src ≤ f.reach) filed := by
  unfold upTo raise
  rw [total_map]
  apply total_congr
  · intro f member
    by_cases moves : f.reach = src ∧ some f.reading = true
    · rw [if_pos moves]
      have := level.finer
      constructor
      · intro counted
        exact ⟨counted.1, by omega⟩
      · intro counted
        exact ⟨counted.1, by simp only; omega⟩
    · rw [if_neg moves]
      constructor
      · intro counted
        have := level.finer
        have := counted.2
        exact ⟨counted.1, by omega⟩
      · intro counted
        have ne : f.reach ≠ src := fun same => moves ⟨same, all _ counted.1⟩
        have := level.next _ (reaches f member) (by have := counted.2; omega)
        exact ⟨counted.1, by omega⟩
  · intro f _ _
    split <;> rfl

/-- Whether the rollups have summed the rows of a resolution up to a time. -/
def Store.Rolled (s : Store) (res time : Nat) : Prop := ∀ level ∈ levels, level.2 = res → time < s.rollupUntil level.1

/-- The rows that are to hold what was recorded: minutes until they are rolled up, and the days of the
identities whose hours all count for them. -/
structure Store.Claims (s : Store) (thinned : List String) (row : RowKey) : Prop where
  minute : row.res = 60 → s.rollupUntil 60 ≤ row.bucketStart
  day : row.res = 86400 → row.queryKey ∉ thinned

/-- What holds between any two writes: rows hold what the readings add up to that came as far, the rows that a
level still has to sum are there, and a reading that did not come all the way waits for a bucket to be summed again. -/
structure Settled (s : Store) (filed : List Filed) (thinned : List String) : Prop where
  aligned : ∀ row ∈ s.series.keys, row.Aligned
  inhabited : ∀ row ∈ s.series.keys, ∃ f ∈ filed, row.Holds f.reading
  reaches : ∀ f ∈ filed, f.reach ∈ resolutions
  whole : ∀ level ∈ levels, level.2 ∣ s.rollupUntil level.1
  nested : s.rollupUntil 3600 ≤ s.rollupUntil 300 ∧ s.rollupUntil 300 ≤ s.rollupUntil 60
  closed : ∀ level ∈ levels, ∀ row ∈ s.series.keys, row.res = level.2 → row.bucketStart < s.rollupUntil level.1
  value : ∀ row c, s.series.lookup row = some c → s.Claims thinned row → c = upTo filed row
  present : ∀ level ∈ levels, ∀ f ∈ filed, level.1 ≤ f.reach → s.Rolled level.1 f.reading.ts →
    s.rollupUntil level.1 ≤ f.reading.ts → f.reading.row level.1 ∈ s.series.keys
  waiting : ∀ f ∈ filed, f.reach < 86400 → ∃ level ∈ levels, level.1 ≤ f.reach ∧
    (level.1, start level.2 f.reading.ts) ∈ s.dirtyRollup
  dirty : ∀ level ∈ levels, ∀ bucket, (level.1, bucket) ∈ s.dirtyRollup → level.2 ∣ bucket
  tiers : ∀ p ∈ s.tierPeriod, p.tier = 2 → p.queryKey ∈ thinned

theorem Settled.tail_false {s : Store} {filed : List Filed} {thinned : List String} (settled : Settled s filed thinned)
    {row : RowKey} (whole : row.queryKey ∉ thinned) : tailPeriod s.tierPeriod row = false := by
  have none : inTier s.tierPeriod 2 row.queryKey row.bucketStart row.res = false := by
    rw [Bool.eq_false_iff]
    intro found
    obtain ⟨p, member, met⟩ := List.any_eq_true.mp found
    simp only [decide_eq_true_eq] at met
    exact whole (met.1 ▸ settled.tiers p member met.2.1)
  simp [tailPeriod, none]

theorem upTo_eq (filed : List Filed) (row : RowKey) {res : Nat} (same : row.res = res) :
    upTo filed row = total (fun f => f.reading.counters) (fun f => row.Holds f.reading ∧ res ≤ f.reach) filed := by
  subst same
  rfl

end Rdst.Series
