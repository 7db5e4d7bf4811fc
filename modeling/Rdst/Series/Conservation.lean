import Rdst.Lib.Run
import Rdst.Series.Filing
import Rdst.Series.Trim

namespace Rdst.Series

open Assoc Buckets Totals Machine

/-- What is done to the tables of a target. The periods and the pins change by ranking and by incidents. -/
inductive Input
  | record (r : Reception)
  | rollup (now preference : Nat)
  | enforceBudget (clock : Nat) (batch : List RowKey)
  | trim (retained : List String)
  | rank (ranked : List TierPeriod)
  | pin (pins : List Pin)

def Store.step (s : Store) : Input → Store
  | .record r => record s r
  | .rollup now preference => rollup s now preference
  | .enforceBudget clock batch => enforceBudget s clock batch
  | .trim retained => trimTrackedQueries s retained
  | .rank ranked => { s with tierPeriod := ranked }
  | .pin pins => { s with incidentPin := pins }

/-- The tables, the readings recorded for the identities of now, and the identities whose days leave hours out. -/
structure World where
  store : Store
  filed : List Filed
  thinned : List String

namespace World

def start : World := ⟨Store.empty, [], []⟩

variable (w : World)

def close (now src dest : Nat) : World :=
  ⟨closeBuckets w.store now src dest, closeFiled w.store now src dest w.filed, w.thinned⟩

def sumAgain (src dest : Nat) (bucket : Nat) : World :=
  ⟨recompute w.store src dest bucket, raise src dest (bucketTimes bucket dest) w.filed, w.thinned⟩

def level (now : Nat) (level : Nat × Nat) : World :=
  let w := w.close now level.1 level.2
  (w.store.dirtyBuckets now level.1 level.2).foldl (fun w => w.sumAgain level.1 level.2) w

def rollup (now preference : Nat) : World :=
  let w := levels.foldl (fun w => w.level now) w
  { w with store := dropOld w.store now preference }

def fill (retained : List String) (level : Nat × Nat) : World :=
  ⟨fillParents w.store retained level.1 level.2,
    raise level.1 level.2 (filledReading w.store retained level.1 level.2) w.filed, w.thinned⟩

def trim (retained : List String) : World :=
  let w := levels.foldl (fun w => w.fill retained) w
  ⟨foldDisplaced w.store retained, foldFiled retained w.filed, foldThinned retained w.thinned⟩

def secondTier (ranked : List TierPeriod) : List String := (ranked.filter fun p => p.tier = 2).map TierPeriod.queryKey

section Record

variable (r : Reception)

def received : World :=
  ⟨markDirty (forget w.store r) r, w.filed.filter fun f => !(newSystemKeys w.store r).contains f.reading.queryKey, w.thinned⟩

def trimmed : World :=
  match r.selected with
  | none => w
  | some selected => w.trim selected

def fileRows : World where
  store := Series.fileRows w.store r
  filed := w.filed ++ r.detailed.map fun row => ⟨⟨row.1, r.ts, row.2⟩, if r.isLate w.store then 60 else 86400⟩
  thinned := w.thinned ++ secondTier r.ranked

def record : World := (((w.received r).trimmed r).fileRows r).rollup r.ts r.preference

end Record

def step : Input → World
  | .record r => w.record r
  | .rollup now preference => w.rollup now preference
  | .enforceBudget clock batch => { w with store := enforceBudget w.store clock batch }
  | .trim retained => w.trim retained
  | .rank ranked => { w with store := { w.store with tierPeriod := ranked }, thinned := w.thinned ++ secondTier ranked }
  | .pin pins => { w with store := { w.store with incidentPin := pins } }

section Store

/-- A loop over the tables with the readings beside them is the loop over the tables. -/
theorem foldl_store {Turn : Type} (body : World → Turn → World) (own : Store → Turn → Store)
    (same : ∀ w turn, (body w turn).store = own w.store turn) (turns : List Turn) (w : World) :
    (turns.foldl body w).store = turns.foldl own w.store := by
  induction turns generalizing w with
  | nil => rfl
  | cons turn rest ih => rw [List.foldl_cons, List.foldl_cons, ih, same]

theorem level_store (now : Nat) (level : Nat × Nat) :
    (w.level now level).store = rollupLevel w.store now level.1 level.2 :=
  foldl_store _ _ (fun _ _ => rfl) _ _

theorem rollup_store (now preference : Nat) : (w.rollup now preference).store = Series.rollup w.store now preference := by
  unfold rollup Series.rollup
  simp only
  rw [foldl_store _ (fun s level => rollupLevel s now level.1 level.2) fun w level => level_store w now level]

theorem trim_store (retained : List String) : (w.trim retained).store = trimTrackedQueries w.store retained := by
  unfold trim trimTrackedQueries
  simp only
  rw [foldl_store _ (fun s level => fillParents s retained level.1 level.2) fun w level => rfl]

/-- The tables do not depend on what is kept beside them. -/
theorem step_store (i : Input) : (w.step i).store = w.store.step i := by
  cases i with
  | record r =>
    show (w.record r).store = Series.record w.store r
    unfold record Series.record
    rw [rollup_store]
    have trimmed : ((w.received r).trimmed r).store = Series.trimmed (markDirty (forget w.store r) r) r := by
      unfold World.trimmed Series.trimmed
      cases r.selected with
      | none => rfl
      | some selected => exact trim_store _ selected
    show Series.rollup (Series.fileRows ((w.received r).trimmed r).store r) r.ts r.preference = _
    rw [trimmed]
  | rollup now preference => exact rollup_store w now preference
  | enforceBudget clock batch => rfl
  | trim retained => exact trim_store w retained
  | rank ranked => rfl
  | pin pins => rfl

end Store

/-- Whatever the rollup sums again, it sums from rows that still hold it. -/
def SafeRollup (now : Nat) : Prop :=
  EveryTurn (fun w => w.level now)
    (fun w level => EveryTurn (fun w => w.sumAgain level.1 level.2)
      (fun w bucket => SafeToSum w.store w.filed w.thinned level.1 level.2 bucket)
      (w.close now level.1 level.2) ((w.close now level.1 level.2).store.dirtyBuckets now level.1 level.2))
    w levels

instance (now : Nat) : Decidable (w.SafeRollup now) := inferInstanceAs (Decidable (EveryTurn _ _ w levels))

/-- The identities that a trim folds keep rows at the same times, or finer rows to fill them from. -/
def SafeTrim (retained : List String) : Prop :=
  EveryTurn (fun w => w.fill retained)
    (fun w level => SafeToFill w.store w.filed w.thinned retained level.1 level.2) w levels ∧
  SafeToFold (levels.foldl (fun w => w.fill retained) w).store (levels.foldl (fun w => w.fill retained) w).filed
    (levels.foldl (fun w => w.fill retained) w).thinned retained

/-- A late reading has its bucket marked, as one with statements or with the counters of the database does. -/
def SafeRecord (r : Reception) : Prop :=
  (r.isLate w.store = true → r.detailed ≠ [] → r.statements ≠ [] ∨ r.hasDb = true) ∧
  (∀ selected, r.selected = some selected → (w.received r).SafeTrim selected) ∧
  (((w.received r).trimmed r).fileRows r).SafeRollup r.ts

/-- No step takes a sum from rows of which some were pruned. -/
def Safe : Input → Prop
  | .record r => w.SafeRecord r
  | .rollup now _ => w.SafeRollup now
  | .trim retained => w.SafeTrim retained
  | .enforceBudget _ _ | .rank _ | .pin _ => True

def Settled : Prop := Series.Settled w.store w.filed w.thinned

variable {w : World}

theorem Settled.level (settled : w.Settled) {now : Nat} {level : Nat × Nat} (known : level ∈ levels)
    (ready : ∀ lower ∈ levels, lower.2 = level.1 → Buckets.start level.2 now ≤ w.store.rollupUntil lower.1)
    (safe : EveryTurn (fun w => w.sumAgain level.1 level.2)
      (fun w bucket => SafeToSum w.store w.filed w.thinned level.1 level.2 bucket)
      (w.close now level.1 level.2) ((w.close now level.1 level.2).store.dirtyBuckets now level.1 level.2)) :
    (w.level now level).Settled ∧
      Buckets.start level.2 now ≤ (w.level now level).store.rollupUntil level.1 ∧
      ∀ other ∈ levels, w.store.rollupUntil other.1 ≤ (w.level now level).store.rollupUntil other.1 := by
  have closed : (w.close now level.1 level.2).Settled := Series.Settled.close settled known ready
  have moves := fun other also => closeBuckets_until w.store now known other also
  let Inv := fun v : World => v.Settled ∧ v.store.rollupUntil = (w.close now level.1 level.2).store.rollupUntil
  have after : Inv (w.level now level) := by
    apply foldl_invariant Inv _ safe ⟨closed, rfl⟩
    intro v bucket member safe inv
    have entry : (level.1, bucket) ∈ (w.close now level.1 level.2).store.dirtyRollup ∧ bucket < Buckets.start level.2 now := by
      unfold Store.dirtyBuckets at member
      obtain ⟨⟨source, _⟩, found, rfl⟩ := List.mem_map.mp ((List.mergeSort_perm _ _).subset member)
      have both := List.mem_filter.mp found
      simp only [decide_eq_true_eq] at both
      have same : source = level.1 := both.2.1
      exact ⟨same ▸ both.1, both.2.2⟩
    have aligned := closed.dirty level known bucket entry.1
    have early : bucket < v.store.rollupUntil level.1 := by
      rw [inv.2]
      exact Nat.lt_of_lt_of_le entry.2 ((moves level known).2.1 rfl)
    exact ⟨Series.Settled.recompute inv.1 known aligned early safe, inv.2⟩
  refine ⟨after.1, ?_, ?_⟩
  · rw [after.2]
    exact (moves level known).2.1 rfl
  · intro other also
    rw [after.2]
    exact (moves other also).1

theorem expired_aged {s : Store} {now preference : Nat} {row : RowKey} {level : Nat × Nat} (known : level ∈ levels)
    (res : row.res = level.1) (old : expired s now preference row = true) :
    ∃ age, level.2 ≤ age ∧ row.bucketStart < Buckets.start row.res (now - age) := by
  have days : 7 ≤ keepReadingsDays preference := by
    unfold keepReadingsDays
    split
    · rename_i choice
      simp only [List.mem_cons, List.not_mem_nil, or_false] at choice
      omega
    · omega
  have aged : ∀ age : Nat, level.2 ≤ age → row.bucketStart < Buckets.start row.res (now - age) →
      ∃ age, level.2 ≤ age ∧ row.bucketStart < Buckets.start row.res (now - age) := fun age le before => ⟨age, le, before⟩
  unfold expired at old
  rcases level_cases known with rfl | rfl | rfl
  · have age : (if row.res = 300 then some (keepReadingsDays preference * 86400) else retention row.res) =
        some (48 * 3600) := by simp [res, retention]
    rw [age] at old
    simp only [Bool.and_eq_true, decide_eq_true_eq] at old
    exact aged _ (by simp) old.1
  · have age : (if row.res = 300 then some (keepReadingsDays preference * 86400) else retention row.res) =
        some (keepReadingsDays preference * 86400) := by simp [res]
    rw [age] at old
    simp only [Bool.and_eq_true, decide_eq_true_eq] at old
    exact aged _ (by simp only; omega) old.1
  · have age : (if row.res = 300 then some (keepReadingsDays preference * 86400) else retention row.res) =
        some (90 * 86400) := by simp [res, retention]
    rw [age] at old
    simp only [Bool.and_eq_true, decide_eq_true_eq] at old
    exact aged _ (by simp) old.1

/-- A row that is past its retention, or a minute that is only rolled up, belongs to a closed bucket. -/
theorem Settled.dropOld (settled : w.Settled) {now : Nat} (preference : Nat)
    (rolled : ∀ level ∈ levels, Buckets.start level.2 now ≤ w.store.rollupUntil level.1) :
    Settled { w with store := Series.dropOld w.store now preference } := by
  have middle := Series.Settled.drop settled (fun row => !middleMinute w.store now row) (by
    intro row _ goes level known res
    have old : row.res = 60 ∧ row.bucketStart < Buckets.start 300 now := by
      simp only [middleMinute, Bool.not_eq_false', Bool.and_eq_true, decide_eq_true_eq] at goes
      exact goes.1.1
    have here := (level_unique known (by decide : (60, 300) ∈ levels)).1 (res.symm.trans old.1)
    rw [here]
    exact Nat.lt_of_lt_of_le old.2 (rolled (60, 300) (by decide)))
  refine Series.Settled.drop middle _ ?_
  intro row _ goes level known res
  obtain ⟨age, old, before⟩ := expired_aged known res (by simpa using goes)
  have first : Buckets.start row.res (now - age) ≤ now - age := start_le
  have last : now < Buckets.start level.2 now + level.2 := lt_start_add (resolution_pos (level_of_mem known).knownDest)
  have closed : Buckets.start level.2 now ≤ w.store.rollupUntil level.1 := rolled level known
  show row.bucketStart < w.store.rollupUntil level.1
  omega

theorem Settled.rollup (settled : w.Settled) {now preference : Nat} (safe : w.SafeRollup now) :
    (w.rollup now preference).Settled := by
  obtain ⟨first, second, third, _⟩ := safe
  have fives := Settled.level settled (by decide) (fun lower known res => by
    rcases level_cases known with rfl | rfl | rfl <;> simp at res) first
  have below300 : Buckets.start 3600 now ≤ (w.level now (60, 300)).store.rollupUntil 60 :=
    Nat.le_trans (by rw [← start_start (by decide : 300 ∣ 3600)]; exact start_le) fives.2.1
  have hours := Settled.level fives.1 (by decide) (fun lower known res => by
    have here := (level_unique known (by decide : (60, 300) ∈ levels)).2 res
    rw [here]
    exact below300) second
  have below3600 : Buckets.start 86400 now ≤ ((w.level now (60, 300)).level now (300, 3600)).store.rollupUntil 300 :=
    Nat.le_trans (by rw [← start_start (by decide : 3600 ∣ 86400)]; exact start_le) hours.2.1
  have days := Settled.level hours.1 (by decide) (fun lower known res => by
    have here := (level_unique known (by decide : (300, 3600) ∈ levels)).2 res
    rw [here]
    exact below3600) third
  apply Settled.dropOld days.1
  intro level known
  rcases level_cases known with rfl | rfl | rfl
  · exact Nat.le_trans fives.2.1 (Nat.le_trans (hours.2.2 _ known) (days.2.2 _ known))
  · exact Nat.le_trans hours.2.1 (days.2.2 _ known)
  · exact days.2.1

theorem Settled.trim (settled : w.Settled) {retained : List String} (safe : w.SafeTrim retained) :
    (w.trim retained).Settled := by
  have filled : (levels.foldl (fun w => w.fill retained) w).Settled := by
    apply foldl_invariant World.Settled _ safe.1 settled
    intro v level known safe settled
    exact Series.Settled.fill settled known safe
  exact Series.Settled.fold filled safe.2

section Record

variable {r : Reception}

theorem Settled.received (settled : w.Settled) : (w.received r).Settled := by
  have forgot := Series.Settled.forget settled (newSystemKeys w.store r)
    (w.store.systemQuery ++ (newSystemKeys w.store r).dedup)
  show Series.Settled (markDirty (forget w.store r) r) _ _
  unfold markDirty
  split
  · exact Series.Settled.wait forgot (by decide : (60, 300) ∈ levels) dvd_start
  · exact forgot

theorem Settled.trimmed (settled : w.Settled) (safe : ∀ selected, r.selected = some selected → w.SafeTrim selected) :
    (w.trimmed r).Settled := by
  unfold World.trimmed
  cases chosen : r.selected with
  | none => exact settled
  | some selected => exact Settled.trim settled (safe selected chosen)

/-- A trim leaves the watermarks and the buckets to sum again as they are. -/
theorem trim_rest (s : Store) (retained : List String) :
    (trimTrackedQueries s retained).rollupUntil = s.rollupUntil ∧
      (trimTrackedQueries s retained).dirtyRollup = s.dirtyRollup := by
  have fills : ∀ s : Store, ∀ child parent : Nat, (fillParents s retained child parent).rollupUntil = s.rollupUntil ∧
      (fillParents s retained child parent).dirtyRollup = s.dirtyRollup := fun _ _ _ => ⟨rfl, rfl⟩
  have folds : ∀ s : Store, (foldDisplaced s retained).rollupUntil = s.rollupUntil ∧
      (foldDisplaced s retained).dirtyRollup = s.dirtyRollup := fun _ => ⟨rfl, rfl⟩
  simp only [trimTrackedQueries, levels, List.foldl_cons, List.foldl_nil, folds, fills, and_self]

theorem trimmed_rest (w : World) (r : Reception) :
    (w.trimmed r).store.rollupUntil = w.store.rollupUntil ∧ (w.trimmed r).store.dirtyRollup = w.store.dirtyRollup := by
  unfold World.trimmed
  cases r.selected with
  | none => exact ⟨rfl, rfl⟩
  | some selected =>
    rw [show ((w.trim selected).store) = trimTrackedQueries w.store selected from trim_store w selected]
    exact trim_rest w.store selected

theorem received_until (w : World) (r : Reception) : (w.received r).store.rollupUntil = w.store.rollupUntil := by
  show (markDirty (forget w.store r) r).rollupUntil = _
  unfold markDirty
  split <;> rfl

/-- The rows of a reading may be filed one after the other. -/
theorem file_rows {s : Store} {filed : List Filed} {thinned : List String} (settled : Series.Settled s filed thinned)
    (ts reach : Nat) (timely : (reach = 60 ∧ (60, Buckets.start 300 ts) ∈ s.dirtyRollup) ∨
      (reach = 86400 ∧ s.rollupUntil 60 ≤ ts)) (rows : List (String × Counters)) :
    Series.Settled
      { s with
        series := rows.foldl (fun series row => upsert (fun _ => true) series ⟨row.1, 60, Buckets.start 60 ts⟩ row.2)
          s.series }
      (filed ++ rows.map fun row => ⟨⟨row.1, ts, row.2⟩, reach⟩) thinned := by
  induction rows generalizing s filed with
  | nil => simpa using settled
  | cons row rest ih =>
    have filedRow := Series.Settled.file settled ⟨row.1, ts, row.2⟩ reach timely
    have after := ih filedRow timely
    rw [List.append_assoc] at after
    exact after

theorem Settled.fileRows (settled : w.Settled)
    (marked : r.isLate w.store = true → r.detailed ≠ [] → (60, Buckets.start 300 r.ts) ∈ w.store.dirtyRollup) :
    (w.fileRows r).Settled := by
  have ranked := Series.Settled.rank settled r.ranked
  by_cases late : r.isLate w.store = true
  · by_cases empty : r.detailed = []
    · simpa [World.fileRows, Series.fileRows, World.Settled, secondTier, empty] using ranked
    · have filed := file_rows ranked r.ts 60 (.inl ⟨rfl, marked late empty⟩) r.detailed
      simpa [World.fileRows, Series.fileRows, World.Settled, secondTier, late] using filed
  · have before : w.store.rollupUntil 60 ≤ r.ts := by
      have first : Buckets.start 300 (Buckets.start 60 r.ts) ≤ Buckets.start 60 r.ts := start_le
      have second : Buckets.start 60 r.ts ≤ r.ts := start_le
      have not : ¬ Buckets.start 300 (Buckets.start 60 r.ts) < w.store.rollupUntil 60 := by
        simpa [Reception.isLate] using late
      omega
    have filed := file_rows ranked r.ts 86400 (.inr ⟨rfl, before⟩) r.detailed
    simpa [World.fileRows, Series.fileRows, World.Settled, secondTier, late] using filed

theorem Settled.record (settled : w.Settled) (safe : w.SafeRecord r) : (w.record r).Settled := by
  obtain ⟨marks, trims, rolls⟩ := safe
  apply Settled.rollup _ rolls
  have received : (w.received r).Settled := Settled.received settled
  apply Settled.fileRows (Settled.trimmed received trims)
  intro late some
  have same := trimmed_rest (w.received r) r
  have lateBefore : r.isLate w.store = true := by
    have until_eq : ((w.received r).trimmed r).store.rollupUntil = w.store.rollupUntil := same.1.trans (received_until w r)
    unfold Reception.isLate at late ⊢
    rwa [until_eq] at late
  have dirty : (markDirty (forget w.store r) r).dirtyRollup =
      w.store.dirtyRollup.insert (60, Buckets.start 300 (Buckets.start 60 r.ts)) := by
    have condition : (r.statements ≠ [] ∨ r.hasDb = true) ∧ r.isLate (forget w.store r) = true :=
      ⟨marks lateBefore some, lateBefore⟩
    unfold markDirty
    rw [if_pos condition]
    rfl
  rw [same.2]
  show (60, Buckets.start 300 r.ts) ∈ (markDirty (forget w.store r) r).dirtyRollup
  rw [dirty, start_start (by decide : 60 ∣ 300)]
  exact List.mem_insert_self

end Record

/-- What the budget takes has a row above it, and so belongs to a closed bucket. -/
theorem Settled.enforceBudget (settled : w.Settled) (clock : Nat) (batch : List RowKey) :
    Settled { w with store := Series.enforceBudget w.store clock batch } := by
  apply Series.Settled.drop settled
  intro row member gone level known res
  have taken : prunable w.store clock row = true := by
    simp only [Bool.not_eq_false', Bool.and_eq_true] at gone
    exact gone.2
  have parent : parentRes row.res = some level.2 := by
    rcases level_cases known with rfl | rfl | rfl <;> rw [res] <;> rfl
  unfold prunable at taken
  rw [parent] at taken
  simp only [Bool.and_eq_true] at taken
  have above := mem_keys_iff.mpr (Option.isSome_iff_ne_none.mp taken.1.1)
  have closed := settled.closed level known _ above rfl
  have wide := (level_of_mem known).knownDest
  have whole : Buckets.start level.2 row.bucketStart + level.2 ≤ w.store.rollupUntil level.1 :=
    add_le_of_lt dvd_start (settled.whole level known) closed
  have inside : row.bucketStart < Buckets.start level.2 row.bucketStart + level.2 := lt_start_add (resolution_pos wide)
  exact Nat.lt_of_lt_of_le inside whole

theorem Settled.step (settled : w.Settled) (i : Input) (safe : w.Safe i) : (w.step i).Settled := by
  cases i with
  | record r => exact Settled.record settled safe
  | rollup now preference => exact Settled.rollup settled safe
  | enforceBudget clock batch => exact Settled.enforceBudget settled clock batch
  | trim retained => exact Settled.trim settled safe
  | rank ranked => exact Series.Settled.rank settled ranked
  | pin pins => exact Series.Settled.pin settled pins

theorem settled_start : start.Settled where
  aligned := fun row member => absurd member (by simp [start, Store.empty])
  inhabited := fun row member => absurd member (by simp [start, Store.empty])
  reaches := fun f member => absurd member (by simp [start])
  whole := fun level _ => by simp [start, Store.empty]
  nested := ⟨Nat.le_refl _, Nat.le_refl _⟩
  closed := fun level _ row member => absurd member (by simp [start, Store.empty])
  value := fun row c found => absurd found (by simp [start, Store.empty])
  present := fun level _ f member => absurd member (by simp [start])
  waiting := fun f member => absurd member (by simp [start])
  dirty := fun level _ bucket member => absurd member (by simp [start, Store.empty])
  tiers := fun p member => absurd member (by simp [start, Store.empty])

end World

end Rdst.Series
