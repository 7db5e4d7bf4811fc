import Rdst.Series.Conservation

namespace Rdst.Series

open Assoc Buckets Totals Machine

section Waits

variable {s : Store} {row : RowKey} {entry : Nat × Nat} {now src dest bucket : Nat}

/-- A late reading marked the bucket, or one inside it, to be summed again. -/
def Store.Waits (s : Store) (row : RowKey) : Prop := ∃ entry ∈ s.dirtyRollup, entry.1 < row.res ∧ row.Spans entry.2

instance (s : Store) (row : RowKey) : Decidable (s.Waits row) :=
  inferInstanceAs (Decidable (∃ entry ∈ s.dirtyRollup, entry.1 < row.res ∧ row.Spans entry.2))

/-- The marks are a set, as the primary key has it, of buckets that a level sums. -/
structure Store.Marks (s : Store) : Prop where
  nodup : s.dirtyRollup.Nodup
  known : ∀ entry ∈ s.dirtyRollup, ∃ level ∈ levels, level.1 = entry.1

theorem recompute_dirty (marks : s.Marks) (member : entry ∈ (recompute s src dest bucket).dirtyRollup) :
    entry.1 = dest ∨ (entry ∈ s.dirtyRollup ∧ entry ≠ (src, bucket)) := by
  have erased : entry ∈ s.dirtyRollup.erase (src, bucket) → entry ∈ s.dirtyRollup ∧ entry ≠ (src, bucket) := by
    intro left
    exact ⟨List.mem_of_mem_erase left, fun same => marks.nodup.not_mem_erase (same ▸ left)⟩
  simp only [recompute] at member
  split at member
  · rcases List.mem_insert_iff.mp member with rfl | left
    · exact .inl rfl
    · exact .inr (erased left)
  · exact .inr (erased member)

theorem parentRes_known {res parent : Nat} (above : parentRes res = some parent) : (res, parent) ∈ levels := by
  unfold parentRes at above
  obtain ⟨before, after, same, _⟩ := List.lookup_eq_some_iff.mp above
  rw [same]
  exact List.mem_append_right _ List.mem_cons_self

theorem recompute_marks (marks : s.Marks) : (recompute s src dest bucket).Marks where
  nodup := by
    have left := marks.nodup.erase (src, bucket)
    simp only [recompute]
    split
    · exact left.insert
    · exact left
  known := by
    intro entry member
    simp only [recompute] at member
    split at member
    · rename_i parent above
      rcases List.mem_insert_iff.mp member with rfl | left
      · exact ⟨(dest, parent), parentRes_known above, rfl⟩
      · exact marks.known entry (List.mem_of_mem_erase left)
    · exact marks.known entry (List.mem_of_mem_erase member)

/-- One after the other, the buckets of a loop lose their marks. -/
theorem recompute_all (buckets : List Nat) (marks : s.Marks)
    (member : entry ∈ (buckets.foldl (fun s bucket => recompute s src dest bucket) s).dirtyRollup) :
    entry.1 = dest ∨ (entry ∈ s.dirtyRollup ∧ (entry.1 = src → entry.2 ∉ buckets)) := by
  induction buckets generalizing s with
  | nil => exact .inr ⟨member, fun _ => List.not_mem_nil⟩
  | cons bucket rest ih =>
    rcases ih (recompute_marks marks) member with next | ⟨left, others⟩
    · exact .inl next
    · rcases recompute_dirty marks left with next | ⟨before, ne⟩
      · exact .inl next
      · right
        refine ⟨before, fun atSrc among => ?_⟩
        rcases List.mem_cons.mp among with here | later
        · exact ne (Prod.ext atSrc here)
        · exact others atSrc later

theorem closeBuckets_dirty : (closeBuckets s now src dest).dirtyRollup = s.dirtyRollup := by
  unfold closeBuckets
  simp only
  split <;> rfl

theorem closeBuckets_marks (marks : s.Marks) : (closeBuckets s now src dest).Marks where
  nodup := by rw [closeBuckets_dirty]; exact marks.nodup
  known := by rw [closeBuckets_dirty]; exact marks.known

theorem rollupLevel_marks (marks : s.Marks) : (rollupLevel s now src dest).Marks := by
  unfold rollupLevel
  simp only
  generalize (closeBuckets s now src dest).dirtyBuckets now src dest = buckets
  have closed : (closeBuckets s now src dest).Marks := closeBuckets_marks marks
  revert closed
  generalize closeBuckets s now src dest = t
  intro closed
  induction buckets generalizing t with
  | nil => exact closed
  | cons bucket rest ih => exact ih _ (recompute_marks closed)

/-- What a level leaves marked for itself is not closed. -/
theorem rollupLevel_dirty (marks : s.Marks) (member : entry ∈ (rollupLevel s now src dest).dirtyRollup) :
    entry.1 = dest ∨ (entry ∈ s.dirtyRollup ∧ (entry.1 = src → start dest now ≤ entry.2)) := by
  rcases recompute_all _ (closeBuckets_marks marks) member with next | ⟨before, others⟩
  · exact .inl next
  · right
    refine ⟨closeBuckets_dirty ▸ before, fun atSrc => ?_⟩
    by_contra early
    apply others atSrc
    unfold Store.dirtyBuckets
    apply (List.mergeSort_perm _ _).symm.subset
    exact List.mem_map.mpr ⟨entry, List.mem_filter.mpr ⟨before, by simpa [atSrc] using early⟩, rfl⟩

theorem rollup_marks (marks : s.Marks) (now preference : Nat) : (rollup s now preference).Marks := by
  have third : (rollupLevel (rollupLevel (rollupLevel s now 60 300) now 300 3600) now 3600 86400).Marks :=
    rollupLevel_marks (rollupLevel_marks (rollupLevel_marks marks))
  exact ⟨third.nodup, third.known⟩

/-- A rollup leaves marked only what is still open. -/
theorem rollup_dirty (marks : s.Marks) {preference : Nat} {level : Nat × Nat} (known : level ∈ levels)
    (member : (level.1, bucket) ∈ (rollup s now preference).dirtyRollup) : start level.2 now ≤ bucket := by
  have first : (rollupLevel s now 60 300).Marks := rollupLevel_marks marks
  have second : (rollupLevel (rollupLevel s now 60 300) now 300 3600).Marks := rollupLevel_marks first
  have last : (level.1, bucket) ∈
      (rollupLevel (rollupLevel (rollupLevel s now 60 300) now 300 3600) now 3600 86400).dirtyRollup := member
  have days := rollupLevel_dirty second last
  rcases level_cases known with rfl | rfl | rfl
  · have before := (days.resolve_left (by simp)).1
    have hours := ((rollupLevel_dirty first before).resolve_left (by simp)).1
    exact ((rollupLevel_dirty marks hours).resolve_left (by simp)).2 rfl
  · have before := (days.resolve_left (by simp)).1
    exact ((rollupLevel_dirty first before).resolve_left (by simp)).2 rfl
  · exact (days.resolve_left (by simp)).2 rfl

/-- After a rollup no bucket waits that is over by then. -/
theorem rollup_caught_up (marks : s.Marks) {preference : Nat} (aligned : row.Aligned)
    (ended : row.bucketStart + row.res ≤ now) : ¬ (rollup s now preference).Waits row := by
  intro waits
  obtain ⟨⟨source, bucket⟩, member, finer, spans⟩ := waits
  obtain ⟨level, known, rfl⟩ := (rollup_marks marks now preference).known _ member
  have left := rollup_dirty marks known member
  have both := level_of_mem known
  have dvd : level.2 ∣ row.res := resolution_dvd both.knownDest aligned.known (both.next _ aligned.known finer)
  have whole : level.2 ∣ row.bucketStart + row.res := Nat.dvd_add (dvd.trans aligned.whole) dvd
  have closed : row.bucketStart + row.res ≤ start level.2 now := le_start whole ended
  have inside : bucket < row.bucketStart + row.res := spans.2
  omega

theorem Store.Marks.step (marks : s.Marks) (i : Input) : (s.step i).Marks := by
  cases i with
  | record r =>
    have marked : (markDirty (forget s r) r).Marks := by
      unfold markDirty
      split
      · refine ⟨marks.nodup.insert, fun entry member => ?_⟩
        rcases List.mem_insert_iff.mp member with rfl | before
        · exact ⟨(60, 300), by decide, rfl⟩
        · exact marks.known entry before
      · exact ⟨marks.nodup, marks.known⟩
    have trims : (trimmed (markDirty (forget s r) r) r).dirtyRollup = (markDirty (forget s r) r).dirtyRollup := by
      unfold trimmed
      cases r.selected with
      | none => rfl
      | some selected => exact (World.trim_rest _ selected).2
    apply rollup_marks
    show Store.Marks (fileRows (trimmed (markDirty (forget s r) r) r) r)
    constructor
    · show (trimmed (markDirty (forget s r) r) r).dirtyRollup.Nodup
      rw [trims]
      exact marked.nodup
    · show ∀ entry ∈ (trimmed (markDirty (forget s r) r) r).dirtyRollup, _
      rw [trims]
      exact marked.known
  | rollup now preference => exact rollup_marks marks now preference
  | enforceBudget clock batch => exact ⟨marks.nodup, marks.known⟩
  | trim retained =>
    show (trimTrackedQueries s retained).Marks
    have same := (World.trim_rest s retained).2
    constructor
    · rw [same]
      exact marks.nodup
    · rw [same]
      exact marks.known
  | rank ranked => exact ⟨marks.nodup, marks.known⟩
  | pin pins => exact ⟨marks.nodup, marks.known⟩

theorem marks_run (inputs : List Input) : (inputs.foldl Store.step Store.empty).Marks := by
  suffices all : ∀ s : Store, s.Marks → (inputs.foldl Store.step s).Marks from
    all Store.empty ⟨List.nodup_nil, fun entry member => absurd member List.not_mem_nil⟩
  induction inputs with
  | nil => exact fun s marks => marks
  | cons i rest ih => exact fun s marks => ih _ (marks.step i)

end Waits

/-- The readings as recorded, without how far they came. -/
def World.readings (w : World) : List Reading := w.filed.map Filed.reading

section Conserved

variable {s : Store} {filed : List Filed} {thinned : List String} {row : RowKey}

/-- In a bucket that does not wait every reading has come as far as the bucket. -/
theorem Settled.reached (settled : Settled s filed thinned) (aligned : row.Aligned) (still : ¬ s.Waits row) {f : Filed}
    (member : f ∈ filed) (held : row.Holds f.reading) : row.res ≤ f.reach := by
  by_contra less
  have days : row.res ≤ 86400 := by
    have := resolution_cases aligned.known
    omega
  obtain ⟨level, known, le, entry⟩ := settled.waiting f member (by omega)
  have both := level_of_mem known
  have finer : level.1 < row.res := by omega
  have dvd : level.2 ∣ row.res := resolution_dvd both.knownDest aligned.known (both.next _ aligned.known finer)
  have first : row.bucketStart ≤ start level.2 f.reading.ts := le_start (dvd.trans aligned.whole) held.spans.1
  have last : start level.2 f.reading.ts < row.bucketStart + row.res := Nat.lt_of_le_of_lt start_le held.spans.2
  exact still ⟨_, entry, finer, first, last⟩

theorem Settled.exact (settled : Settled s filed thinned) {c : Counters} (kept : s.series.lookup row = some c)
    (coarse : row.res ≠ 60) (whole : row.res = 86400 → row.queryKey ∉ thinned) (still : ¬ s.Waits row) :
    c = recorded (filed.map Filed.reading) row := by
  have aligned := settled.aligned row (mem_keys_of_lookup kept)
  rw [settled.value row c kept ⟨fun minute => absurd minute coarse, whole⟩, upTo, recorded, total_map]
  apply total_congr
  · intro f member
    constructor
    · exact And.left
    · intro held
      exact ⟨held, settled.reached aligned still member held⟩
  · intro f _ _
    rfl

/-- A reading of one ranked statement that ran twice. -/
def twice (ts : Nat) (ranked : List TierPeriod) : Reception where
  ts := ts
  statements := [("orders", ⟨2, 3, 0, 0, 0, 0⟩)]
  hasDb := true
  untracked := none
  systemKeys := []
  selected := none
  ranked := ranked
  ranks := ["orders"]
  excluded := []
  preference := 7

def lateRun : List Input := [.record (twice 0 []), .rollup 300 7, .record (twice 60 [])]

def caughtUp : List Input := lateRun ++ [.rollup 600 7]

theorem caughtUp_safe : EveryTurn World.step World.Safe World.start caughtUp := by
  have marks : ∀ w : World, ∀ ts, (twice ts []).isLate w.store = true → (twice ts []).detailed ≠ [] →
      (twice ts []).statements ≠ [] ∨ (twice ts []).hasDb = true := fun _ _ _ _ => .inr rfl
  have trims : ∀ w : World, ∀ ts selected, (twice ts []).selected = some selected → (w.received (twice ts [])).SafeTrim selected :=
    fun _ _ selected none => nomatch none
  have first : (World.start.step (.record (twice 0 []))).SafeRollup 300 := by decide +kernel
  have second : ((lateRun.foldl World.step World.start)).SafeRollup 600 := by decide +kernel
  exact ⟨⟨marks _ _, trims _ _, by decide +kernel⟩, first, ⟨marks _ _, trims _ _, by decide +kernel⟩, second, True.intro⟩

def tailRun : List Input := [.record (twice 0 []), .record (twice 7200 [⟨"orders", 3600, none, 2⟩]), .rollup 86400 7]

/-- The budget takes a minute that its five minutes hold, and a late reading then puts the rest of them in their place. -/
example : ([.record (twice 0 []), .rollup 300 7, .enforceBudget 0 [⟨"orders", 60, 0⟩], .record (twice 60 []),
    .rollup 600 7].foldl Store.step Store.empty).series.lookup ⟨"orders", 300, 0⟩ = some ⟨2, 3, 0, 0, 0, 0⟩ := by
  decide +kernel

end Conserved

end Rdst.Series
