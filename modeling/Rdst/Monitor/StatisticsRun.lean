import Rdst.Lib.Gauges
import Rdst.Lib.Run
import Rdst.Monitor.Statistics

namespace Rdst.Monitor.Statistics

open Assoc Gauges Machine

/-- What a reading takes from the engine besides the counters. Its statements have limits, so a reading need not show
every row. -/
structure View where
  engine : String
  counterSince : Int
  takenAt : Int
  tables : List (TableName × TableFacts)
  indexes : List (IndexName × IndexFacts)
  settings : Dict String Setting
  tablesDistinct : (tables.map Prod.fst).Nodup
  indexesDistinct : (indexes.map Prod.fst).Nodup

abbrev EngineCounters := Engine (TableName ⊕ IndexName) Gauge

def View.reading (view : View) (statistics : EngineCounters) : Reading where
  engine := view.engine
  counterSince := view.counterSince
  takenAt := view.takenAt
  tables := view.tables.map fun row => ⟨row.1, fun counter => statistics.value (.table row.1 counter), row.2⟩
  indexes := view.indexes.map fun row => ⟨row.1, statistics.value (.index row.1), row.2⟩
  settings := view.settings
  tablesDistinct := by
    rw [List.map_map]
    exact view.tablesDistinct
  indexesDistinct := by
    rw [List.map_map]
    exact view.indexesDistinct

/-- A reading with the statistics it was taken of. -/
structure Scan where
  reading : Reading
  engine : EngineCounters

structure World where
  engine : EngineCounters
  scans : List Scan
  store : Store
  /-- The readings in the order they were stored, and where the last of them stands among all. -/
  stored : List Scan
  lastIndex : Nat

def World.start : World := ⟨Engine.start, [], .empty, [], 0⟩

inductive Event
  | worked (gauge : Gauge) (amount : Nat)
  /-- A reset of some statistics, or tables and indexes that are created again. -/
  | restarted (rows : TableName ⊕ IndexName → Bool)
  | scanned (view : View)
  | stored (index : Nat)

def World.step (w : World) : Event → World
  | .worked gauge amount => { w with engine := w.engine.work gauge amount }
  | .restarted rows => { w with engine := w.engine.restart Gauge.row rows }
  | .scanned view => { w with scans := w.scans ++ [⟨view.reading w.engine, w.engine⟩] }
  | .stored index =>
    match w.scans[index]? with
    | none => w
    | some scan =>
      { w with
        store := (recordStats w.store scan.reading).1
        stored := w.stored ++ [scan]
        lastIndex := index }

/-- What was counted since the first stored reading. -/
def World.activity (w : World) (gauge : Gauge) : Int :=
  match w.stored.head? with
  | none => 0
  | some first => w.engine.total gauge - first.engine.total gauge

/-- Every row that two readings share started anew between them. -/
def Anew (last next : Scan) : Prop :=
  (∀ row ∈ next.reading.tables, row.name ∈ last.reading.tables.map TableReading.name →
    last.engine.epoch (.inl row.name) < next.engine.epoch (.inl row.name)) ∧
  ∀ row ∈ next.reading.indexes, row.name ∈ last.reading.indexes.map IndexReading.name →
    last.engine.epoch (.inr row.name) < next.engine.epoch (.inr row.name)

instance (last next : Scan) : Decidable (Anew last next) := inferInstanceAs (Decidable (_ ∧ _))

/-- No reading is stored after one that was taken later, and the reported age of the counters falls by more than its
tolerance only where the counters started anew. -/
def World.Sound (w : World) : Event → Prop
  | .stored index => ∀ next ∈ w.scans[index]?, ∀ last ∈ w.stored.getLast?,
    w.lastIndex ≤ index ∧ (reset w.store next.reading = true → Anew last next)
  | _ => True

instance (w : World) (event : Event) : Decidable (w.Sound event) :=
  match event with
  | .stored index => inferInstanceAs (Decidable (∀ next ∈ w.scans[index]?, ∀ last ∈ w.stored.getLast?, _ ∧ _))
  | .worked _ _ | .restarted _ | .scanned _ => inferInstanceAs (Decidable True)

/-- What the readings show of a counter. -/
def shownOf (gauge : Gauge) (scans : List Scan) : List Int := scans.filterMap fun scan => scan.reading.shows gauge

/-- Readings one after another that do not lose a counter they have shown, which does not start anew. -/
structure Steady (gauge : Gauge) (scans : List Scan) : Prop where
  ordered : scans.Pairwise fun a b => a.reading.takenAt < b.reading.takenAt
  same : ∀ a ∈ scans, ∀ b ∈ scans, a.engine.epoch gauge.row = b.engine.epoch gauge.row
  kept : scans.Pairwise fun a b => a.reading.shows gauge ≠ none → b.reading.shows gauge ≠ none

section Good

structure World.Good (w : World) : Prop where
  apart : w.scans.Pairwise fun a b => Follows Gauge.row a.engine b.engine
  past : ∀ scan ∈ w.scans, Follows Gauge.row scan.engine w.engine
  own : ∀ scan ∈ w.scans, ∀ gauge value, scan.reading.shows gauge = some value → value = scan.engine.value gauge
  within : ∀ scan ∈ w.stored, scan ∈ w.scans
  latest : ∀ last, w.stored.getLast? = some last → w.scans[w.lastIndex]? = some last
  fresh : w.stored = [] → w.store = .empty
  held : ∀ last, w.stored.getLast? = some last → ∀ gauge, w.store.held gauge = last.reading.shows gauge
  taken : ∀ last, w.stored.getLast? = some last → w.store.statsMeta.map StatsMeta.takenAt = some last.reading.takenAt
  counted : ∀ first last, w.stored.head? = some first → w.stored.getLast? = some last → ∀ gauge,
    w.store.recorded gauge + first.engine.total gauge ≤ last.engine.total gauge
  exact_ : ∀ gauge, Steady gauge w.stored →
    w.store.recorded gauge = (shownOf gauge w.stored).getLast?.getD 0 - (shownOf gauge w.stored).head?.getD 0

theorem good_start : World.start.Good where
  apart := List.Pairwise.nil
  past scan member := by cases member
  own scan member := by cases member
  within scan member := by cases member
  latest last found := by cases found
  fresh _ := rfl
  held last found := by cases found
  taken last found := by cases found
  counted first last found := by cases found
  exact_ gauge _ := by cases gauge <;> rfl

variable {w : World}

theorem World.Good.move (good : w.Good) {engine : EngineCounters} (follows : Follows Gauge.row w.engine engine) :
    World.Good { w with engine := engine } :=
  { good with past := fun scan member => (good.past scan member).trans follows }

theorem View.reading_own (view : View) (statistics : EngineCounters) {gauge : Gauge} {value : Int}
    (shown : (view.reading statistics).shows gauge = some value) : value = statistics.value gauge := by
  cases gauge with
  | table name counter =>
    obtain ⟨row, found, rfl⟩ := Option.map_eq_some_iff.mp shown
    have own : row.name = name := by simpa using List.find?_some found
    obtain ⟨listed, -, rfl⟩ := List.mem_map.mp (List.mem_of_find?_eq_some found)
    rw [← own]
  | index name =>
    obtain ⟨row, found, rfl⟩ := Option.map_eq_some_iff.mp shown
    have own : row.name = name := by simpa using List.find?_some found
    obtain ⟨listed, -, rfl⟩ := List.mem_map.mp (List.mem_of_find?_eq_some found)
    rw [← own]

theorem World.Good.scan (good : w.Good) (view : View) : (w.step (.scanned view)).Good := by
  refine { good with apart := ?_, past := ?_, own := ?_, within := ?_, latest := ?_ }
  · refine List.pairwise_append.mpr ⟨good.apart, List.pairwise_singleton _ _, ?_⟩
    intro scan member fresh single
    rw [List.mem_singleton.mp single]
    exact good.past scan member
  · intro scan member
    rcases List.mem_append.mp member with old | new
    · exact good.past scan old
    · rw [List.mem_singleton.mp new]
      exact Follows.refl w.engine
  · intro scan member gauge value shown
    rcases List.mem_append.mp member with old | new
    · exact good.own scan old gauge value shown
    · rw [List.mem_singleton.mp new] at shown ⊢
      exact view.reading_own w.engine shown
  · exact fun scan member => List.mem_append_left _ (good.within scan member)
  · intro last found
    have before := good.latest last found
    have inside := (List.getElem?_eq_some_iff.mp before).1
    show (w.scans ++ _)[w.lastIndex]? = some last
    rw [List.getElem?_append_left inside, before]

/-- Where the rows of two readings started anew, a counter that both show did. -/
theorem Anew.epoch {last next : Scan} (anew : Anew last next) {gauge : Gauge} {old new : Int}
    (held : last.reading.shows gauge = some old) (shown : next.reading.shows gauge = some new) :
    last.engine.epoch gauge.row < next.engine.epoch gauge.row := by
  cases gauge with
  | table name counter =>
    obtain ⟨before, oldFound, -⟩ := Option.map_eq_some_iff.mp held
    obtain ⟨row, found, -⟩ := Option.map_eq_some_iff.mp shown
    have oldOwn : before.name = name := by simpa using List.find?_some oldFound
    have own : row.name = name := by simpa using List.find?_some found
    have listed : row.name ∈ last.reading.tables.map TableReading.name :=
      List.mem_map.mpr ⟨before, List.mem_of_find?_eq_some oldFound, oldOwn.trans own.symm⟩
    have later := anew.1 row (List.mem_of_find?_eq_some found) listed
    rwa [own] at later
  | index name =>
    obtain ⟨before, oldFound, -⟩ := Option.map_eq_some_iff.mp held
    obtain ⟨row, found, -⟩ := Option.map_eq_some_iff.mp shown
    have oldOwn : before.name = name := by simpa using List.find?_some oldFound
    have own : row.name = name := by simpa using List.find?_some found
    have listed : row.name ∈ last.reading.indexes.map IndexReading.name :=
      List.mem_map.mpr ⟨before, List.mem_of_find?_eq_some oldFound, oldOwn.trans own.symm⟩
    have later := anew.2 row (List.mem_of_find?_eq_some found) listed
    rwa [own] at later

section Next

variable {last next : Scan}

/-- What a stored reading adds is at most what was counted since the one before. -/
theorem World.Good.gain_le (good : w.Good) (before : w.stored.getLast? = some last) (inside : next ∈ w.scans)
    (follows : Follows Gauge.row last.engine next.engine)
    (real : reset w.store next.reading = true → Anew last next) (gauge : Gauge) :
    gain w.store next.reading gauge + last.engine.total gauge ≤ next.engine.total gauge := by
  have counted := follows.total_le gauge
  have lastInside := good.within last (List.mem_of_getLast? before)
  have held := good.held last before
  by_cases timed : seconds w.store next.reading = 0
  · rw [gain_untimed timed]
    omega
  cases shown : next.reading.shows gauge with
  | none =>
    rw [gain_unseen shown]
    omega
  | some new =>
    cases old : last.reading.shows gauge with
    | none =>
      rw [gain_fresh ((held gauge).trans old)]
      omega
    | some value =>
      have newOwn := good.own next inside gauge new shown
      have oldOwn := good.own last lastInside gauge value old
      rcases gain_held ((held gauge).trans old) shown timed with ⟨grown, -⟩ | ⟨whole, why⟩
      · have growth := follows.growth_le gauge
        omega
      · have anew : last.engine.epoch gauge.row < next.engine.epoch gauge.row := by
          rcases why with restarted | ⟨other, high, low, same, otherHeld, otherShown, fell⟩
          · exact (real restarted).epoch old shown
          · have highOwn := good.own last lastInside other high ((held other).symm.trans otherHeld)
            have lowOwn := good.own next inside other low otherShown
            rw [← same]
            exact follows.fell (by omega)
        have since := follows.anew gauge anew
        omega

theorem World.Good.gain_steady (good : w.Good) (before : w.stored.getLast? = some last)
    (inside : next ∈ w.scans) (follows : Follows Gauge.row last.engine next.engine)
    (real : reset w.store next.reading = true → Anew last next) {gauge : Gauge} {old new : Int}
    (held : last.reading.shows gauge = some old) (shown : next.reading.shows gauge = some new)
    (ordered : last.reading.takenAt < next.reading.takenAt)
    (same : last.engine.epoch gauge.row = next.engine.epoch gauge.row) :
    gain w.store next.reading gauge = new - old := by
  have lastInside := good.within last (List.mem_of_getLast? before)
  have timed : seconds w.store next.reading ≠ 0 := by
    have taken := good.taken last before
    obtain ⟨stats, found, at_⟩ := Option.map_eq_some_iff.mp taken
    rw [seconds, found]
    simp only
    omega
  rcases gain_held ((good.held last before gauge).trans held) shown timed with ⟨grown, -⟩ | ⟨whole, why⟩
  · exact grown
  · exfalso
    rcases why with restarted | ⟨other, high, low, sameRow, otherHeld, otherShown, fell⟩
    · exact absurd ((real restarted).epoch held shown) (by omega)
    · have highOwn := good.own last lastInside other high ((good.held last before other).symm.trans otherHeld)
      have lowOwn := good.own next inside other low otherShown
      have later : last.engine.epoch other.row < next.engine.epoch other.row := follows.fell (by omega)
      rw [sameRow] at later
      omega

end Next

section Stored

variable {last next : Scan}

theorem shownOf_append (gauge : Gauge) (scans : List Scan) (next : Scan) :
    shownOf gauge (scans ++ [next]) = shownOf gauge scans ++ (next.reading.shows gauge).toList := by
  rw [shownOf, List.filterMap_append, shownOf]
  cases shown : next.reading.shows gauge <;> simp [shown]

theorem Steady.before {gauge : Gauge} {scans : List Scan} (steady : Steady gauge (scans ++ [next])) : Steady gauge scans where
  ordered := (List.pairwise_append.mp steady.ordered).1
  same a first b second := steady.same a (List.mem_append_left _ first) b (List.mem_append_left _ second)
  kept := (List.pairwise_append.mp steady.kept).1

/-- The first stored reading only sets the counters. -/
theorem World.Good.store_first (good : w.Good) (none_ : w.stored = []) {index : Nat} (found : w.scans[index]? = some next) :
    (w.step (.stored index)).Good := by
  have stepped : w.step (.stored index) =
      { w with store := (recordStats w.store next.reading).1, stored := [next], lastIndex := index } := by
    rw [World.step, found, none_]
    rfl
  have nothing : ∀ gauge, (recordStats w.store next.reading).1.recorded gauge = 0 := by
    intro gauge
    rw [recorded_recordStats, good.fresh none_, gain_untimed rfl]
    cases gauge <;> rfl
  rw [stepped]
  refine ⟨good.apart, good.past, good.own, ?_, ?_, ?_, ?_, ?_, ?_, ?_⟩
  · intro scan member
    rw [List.mem_singleton.mp member]
    exact List.mem_of_getElem? found
  · rintro last ⟨⟩
    exact found
  · exact nofun
  · rintro last ⟨⟩ gauge
    exact held_recordStats w.store next.reading gauge
  · rintro last ⟨⟩
    rfl
  · intro first last head latest gauge
    have one : first = last := (Option.some.inj head).symm.trans (Option.some.inj latest)
    rw [nothing, one]
    omega
  · intro gauge _
    rw [nothing]
    cases shown : next.reading.shows gauge <;> simp [shownOf, shown]

theorem World.Good.store_exact (good : w.Good) (before : w.stored.getLast? = some last) (inside : next ∈ w.scans)
    (follows : Follows Gauge.row last.engine next.engine) (real : reset w.store next.reading = true → Anew last next)
    {gauge : Gauge} (steady : Steady gauge (w.stored ++ [next])) :
    w.store.recorded gauge + gain w.store next.reading gauge =
      (shownOf gauge (w.stored ++ [next])).getLast?.getD 0 - (shownOf gauge (w.stored ++ [next])).head?.getD 0 := by
  have recorded := good.exact_ gauge steady.before
  obtain ⟨init, split⟩ := List.getLast?_eq_some_iff.mp before
  rw [shownOf_append]
  cases shown : next.reading.shows gauge with
  | none =>
    rw [gain_unseen shown, Option.toList_none, List.append_nil]
    omega
  | some new =>
    cases held : last.reading.shows gauge with
    | none =>
      -- A counter that the last reading does not show was never shown.
      have unshown : shownOf gauge w.stored = [] := by
        have kept := (List.pairwise_append.mp (split ▸ steady.before.kept)).2.2
        rw [split, shownOf_append, held, Option.toList_none, List.append_nil, shownOf, List.filterMap_eq_nil_iff]
        intro scan member
        by_contra seen
        exact kept scan member last List.mem_cons_self seen held
      rw [unshown] at recorded ⊢
      rw [gain_fresh ((good.held last before gauge).trans held)]
      simp only [List.getLast?_nil, List.head?_nil, Option.getD_none] at recorded
      simp [recorded]
    | some old =>
      have lastIn : last ∈ w.stored := List.mem_of_getLast? before
      have ordered := (List.pairwise_append.mp steady.ordered).2.2 last lastIn next List.mem_cons_self
      have same := steady.same last (List.mem_append_left _ lastIn) next (List.mem_append_right _ List.mem_cons_self)
      rw [good.gain_steady before inside follows real held shown ordered same]
      have lasting : shownOf gauge w.stored = shownOf gauge init ++ [old] := by
        rw [split, shownOf_append, held, Option.toList_some]
      rw [lasting] at recorded ⊢
      simp only [List.getLast?_concat, Option.getD_some, Option.toList_some] at recorded ⊢
      rw [List.head?_append_of_ne_nil _ (by simp), recorded]
      omega

theorem World.Good.store_next (good : w.Good) (before : w.stored.getLast? = some last) {index : Nat}
    (found : w.scans[index]? = some next) (late : w.lastIndex ≤ index)
    (real : reset w.store next.reading = true → Anew last next) : (w.step (.stored index)).Good := by
  have inside : next ∈ w.scans := List.mem_of_getElem? found
  have follows : Follows Gauge.row last.engine next.engine := by
    obtain ⟨lastBound, lastAt⟩ := List.getElem?_eq_some_iff.mp (good.latest last before)
    obtain ⟨bound, nextAt⟩ := List.getElem?_eq_some_iff.mp found
    rcases Nat.eq_or_lt_of_le late with same | later
    · subst same
      rw [← lastAt, ← nextAt]
      exact Follows.refl _
    · rw [← lastAt, ← nextAt]
      exact List.pairwise_iff_getElem.mp good.apart _ _ lastBound bound later
  have stepped : w.step (.stored index) =
      { w with store := (recordStats w.store next.reading).1, stored := w.stored ++ [next], lastIndex := index } := by
    rw [World.step, found]
  rw [stepped]
  refine ⟨good.apart, good.past, good.own, ?_, ?_, ?_, ?_, ?_, ?_, ?_⟩
  · intro scan member
    rcases List.mem_append.mp member with old | new
    · exact good.within scan old
    · rw [List.mem_singleton.mp new]
      exact inside
  · intro scan latest
    rw [List.getLast?_concat] at latest
    exact latest ▸ found
  · intro none_
    exact absurd none_ (by simp)
  · intro scan latest gauge
    rw [List.getLast?_concat] at latest
    cases latest
    exact held_recordStats w.store next.reading gauge
  · intro scan latest
    rw [List.getLast?_concat] at latest
    cases latest
    rfl
  · intro first scan head latest gauge
    rw [List.getLast?_concat] at latest
    cases latest
    have some_ : w.stored ≠ [] := by
      rintro empty
      rw [empty] at before
      cases before
    have firstBefore : w.stored.head? = some first := by
      rw [← head, List.head?_append_of_ne_nil _ some_]
    have counted := good.counted first last firstBefore before gauge
    have gained := good.gain_le before inside follows real gauge
    rw [recorded_recordStats]
    omega
  · intro gauge steady
    rw [recorded_recordStats]
    exact good.store_exact before inside follows real steady

end Stored

theorem World.Good.step (good : w.Good) (event : Event) (sound : w.Sound event) : (w.step event).Good := by
  cases event with
  | worked gauge amount => exact good.move (Follows.work w.engine gauge amount)
  | restarted rows => exact good.move (Follows.restart w.engine rows)
  | scanned view => exact good.scan view
  | stored index =>
    cases found : w.scans[index]? with
    | none =>
      have same : w.step (.stored index) = w := by rw [World.step, found]
      rw [same]
      exact good
    | some next =>
      cases before : w.stored.getLast? with
      | none => exact good.store_first (List.getLast?_eq_none_iff.mp before) found
      | some last =>
        have turn := sound next found last before
        exact good.store_next before found turn.1 turn.2

end Good

/-- In every run whose stored readings are in the order they were taken and report a younger age of the counters only where
these started anew, the recorded activity of a counter is at most what was counted since the first reading, and that of a
counter that every reading goes on to show, at increasing times and without a start in between, is its last value less its
first. -/
theorem never_over_counted (events : List Event) (sound : EveryTurn World.step World.Sound World.start events)
    (gauge : Gauge) :
    (events.foldl World.step World.start).store.recorded gauge ≤ (events.foldl World.step World.start).activity gauge ∧
      (Steady gauge (events.foldl World.step World.start).stored →
        (events.foldl World.step World.start).store.recorded gauge =
          (shownOf gauge (events.foldl World.step World.start).stored).getLast?.getD 0 -
            (shownOf gauge (events.foldl World.step World.start).stored).head?.getD 0) := by
  have good : (events.foldl World.step World.start).Good :=
    foldl_invariant World.Good (fun w event _ sound good => good.step event sound) sound good_start
  refine ⟨?_, good.exact_ gauge⟩
  rw [World.activity]
  cases first : (events.foldl World.step World.start).stored.head? with
  | none =>
    rw [good.fresh (List.head?_eq_none_iff.mp first)]
    cases gauge <;> exact Int.le_refl 0
  | some first_ =>
    cases last : (events.foldl World.step World.start).stored.getLast? with
    | none =>
      rw [List.getLast?_eq_none_iff.mp last] at first
      cases first
    | some last_ =>
      have counted := good.counted first_ last_ first last gauge
      have later := (good.past last_ (good.within last_ (List.mem_of_getLast? last))).total_le gauge
      simp only
      omega

def events : TableName := ("public", "events")

/-- A reading of one table. -/
def eventsAt (takenAt counterSince : Int) : Event :=
  .scanned ⟨"postgresql", counterSince, takenAt, [(events, ⟨100, 0, 8192, none, none⟩)], [], ∅, by simp, by simp⟩

def inserts (amount : Nat) : Event := .worked (.table events .ins) amount

/-- A table's rows before a reset, of which the next reading tells. -/
def resetRun : List Event :=
  [inserts 500, eventsAt 36000 1000, .stored 0, inserts 40, .restarted fun _ => true, inserts 900, eventsAt 36300 36200,
    .stored 1]

theorem never_over_counted_resetRun :
    (resetRun.foldl World.step World.start).store.recorded (.table events .ins) ≤
        (resetRun.foldl World.step World.start).activity (.table events .ins) ∧
      (Steady (.table events .ins) (resetRun.foldl World.step World.start).stored →
        (resetRun.foldl World.step World.start).store.recorded (.table events .ins) =
          (shownOf (.table events .ins) (resetRun.foldl World.step World.start).stored).getLast?.getD 0 -
            (shownOf (.table events .ins) (resetRun.foldl World.step World.start).stored).head?.getD 0) :=
  never_over_counted resetRun (by decide +kernel) (.table events .ins)

/-- The server starts again in between, and its counters stay. -/
def restartRun : World :=
  [inserts 100, eventsAt 36000 1000, .stored 0, inserts 10, eventsAt 36300 36200, .stored 1].foldl World.step World.start

/-- A reading that is stored after one that was taken later. -/
def lateRun : World :=
  [inserts 100, eventsAt 36000 1000, .stored 0, inserts 50, eventsAt 36300 1000, inserts 50, eventsAt 36600 1000, .stored 2,
    .stored 1, inserts 10, eventsAt 36900 1000, .stored 3].foldl World.step World.start

theorem restart_counted_twice :
    (restartRun.store.recorded (.table events .ins) = 110 ∧ restartRun.activity (.table events .ins) = 10) ∧
      lateRun.store.recorded (.table events .ins) = 160 ∧ lateRun.activity (.table events .ins) = 110 := by
  decide +kernel

end Rdst.Monitor.Statistics
