import Mathlib.Data.List.Nodup
import Mathlib.Data.List.Pairwise
import Rdst.Series.Rows

namespace Rdst.Series

open Assoc Buckets Totals

/-- The rows of a target and the readings they were summed from. Rows may be missing; those there are complete. -/
structure History where
  readings : List Reading
  series : StmtSeries
  /-- The setting `rollup_until_60`. -/
  minuteMark : Option Nat
  aligned : ∀ row ∈ series.keys, row.Aligned
  summed : ∀ row ∈ series.entries, row.2 = recorded readings row.1

/-- The arguments of a read, over the times from `start` up to and without `stop`. -/
structure Window where
  start : Int
  stop : Int
  keys : Option (List String)
  step : Option Nat

/-- The first bucket start from which rows of `res` are complete. -/
def fineFrom (res : Nat) (now : Int) : Int :=
  match retention res with
  | none => 0
  | some retention =>
    let align : Int := (if res = 3600 then 86400 else 3600);
    -(-(now - retention) / align) * align

def edge (minuteMark : Option Nat) (res : Nat) : Int :=
  match minuteMark with
  | none => 0
  | some minuteMark => if res ≠ 60 then fineFrom res (minuteMark + 300) else 0

/-- The coarsest resolution that the step allows. -/
def Window.top (w : Window) : Nat := ((resolutions.filter fun res => w.step.all (res ≤ ·)).max?).getD 60

/-- A reading is inside a window by the minute it is filed under. -/
def Window.Inside (w : Window) (reading : Reading) : Prop := w.start ≤ reading.minute ∧ (reading.minute : Int) < w.stop

instance (w : Window) : DecidablePred w.Inside := fun reading =>
  inferInstanceAs (Decidable (w.start ≤ reading.minute ∧ (reading.minute : Int) < w.stop))

def Window.asks (w : Window) (queryKey : String) : Bool := w.keys.all (·.contains queryKey)

section Select

variable (h : History) (w : Window)

/-- Whether any of the finer rows that a bucket summed are kept. -/
def kept (row : RowKey) : Bool :=
  resolutions.any fun child => child < row.res && h.series.keys.any fun x =>
    x.queryKey = row.queryKey ∧ x.res = child ∧ row.bucketStart ≤ x.bucketStart ∧
      x.bucketStart < row.bucketStart + row.res ∧ edge h.minuteMark child ≤ x.bucketStart

/-- Whether a coarser row that the step allows lies around a row and inside the window. -/
def covered (row : RowKey) : Bool :=
  resolutions.any fun cover => (row.res < cover && cover ≤ w.top) && h.series.keys.any fun x =>
    x.queryKey = row.queryKey ∧ x.res = cover ∧ x.bucketStart = row.bucketStart / cover * cover ∧
      max w.start (edge h.minuteMark cover) ≤ x.bucketStart ∧ (x.bucketStart : Int) + cover ≤ w.stop

/-- The conditions of the branch of one resolution. -/
def branch (res : Nat) (row : RowKey) : Bool :=
  (w.asks row.queryKey && row.res = res && edge h.minuteMark res ≤ row.bucketStart && row.bucketStart < w.stop) &&
  (if res = 60 then w.start ≤ row.bucketStart else w.start < (row.bucketStart : Int) + res) &&
  (if 60 < res ∧ res ≤ w.top then
    (w.start ≤ row.bucketStart && (row.bucketStart : Int) + res ≤ w.stop) || !kept h row else true) &&
  (if res < w.top then !covered h w row else if w.top < res then !kept h row else true)

/-- The rows that the branches select, which `UNION ALL` puts one after the other. -/
def selected : List (Sigma fun _ : RowKey => Counters) :=
  resolutions.flatMap fun res => h.series.entries.filter fun row => branch h w res row.1

end Select

def Window.Surrounds (w : Window) (row : RowKey) : Prop :=
  w.start ≤ row.bucketStart ∧ (row.bucketStart : Int) + row.res ≤ w.stop

instance (w : Window) : DecidablePred w.Surrounds := fun row =>
  inferInstanceAs (Decidable (w.start ≤ row.bucketStart ∧ (row.bucketStart : Int) + row.res ≤ w.stop))

/-- A row that is there and not past its retention. -/
def Counts (h : History) (row : RowKey) : Prop := row ∈ h.series.keys ∧ edge h.minuteMark row.res ≤ row.bucketStart

instance (h : History) : DecidablePred (Counts h) := fun row =>
  inferInstanceAs (Decidable (row ∈ h.series.keys ∧ edge h.minuteMark row.res ≤ row.bucketStart))

section Branches

variable {h : History} {w : Window} {row fine coarse : RowKey} {reading : Reading}

theorem kept_iff : kept h row = true ↔ ∃ x, Counts h x ∧ x.res < row.res ∧ x.queryKey = row.queryKey ∧
    row.Spans x.bucketStart := by
  unfold kept
  simp only [List.any_eq_true, Bool.and_eq_true, decide_eq_true_eq]
  constructor
  · rintro ⟨child, _, finer, x, member, same, rfl, after, before, edge⟩
    exact ⟨x, ⟨member, edge⟩, finer, same, after, before⟩
  · rintro ⟨x, counts, finer, same, after, before⟩
    exact ⟨x.res, (h.aligned x counts.1).known, finer, x, counts.1, same, rfl, after, before, counts.2⟩

theorem covered_iff : covered h w row = true ↔ ∃ x, Counts h x ∧ row.res < x.res ∧ x.res ≤ w.top ∧
    x.queryKey = row.queryKey ∧ x.bucketStart = start x.res row.bucketStart ∧ w.Surrounds x := by
  unfold covered
  simp only [List.any_eq_true, Bool.and_eq_true, decide_eq_true_eq]
  constructor
  · rintro ⟨cover, _, ⟨coarser, allowed⟩, x, member, same, rfl, parent, after, before⟩
    have := max_le_iff.mp after
    exact ⟨x, ⟨member, this.2⟩, coarser, allowed, same, parent, this.1, before⟩
  · rintro ⟨x, counts, coarser, allowed, same, parent, after, before⟩
    exact ⟨x.res, (h.aligned x counts.1).known, ⟨coarser, allowed⟩, x, counts.1, same, rfl, parent,
      max_le_iff.mpr ⟨after, counts.2⟩, before⟩

/-- What it takes for a row to be selected, its own branch being the only one that can. -/
structure Chosen (h : History) (w : Window) (row : RowKey) : Prop where
  counts : Counts h row
  asked : w.asks row.queryKey = true
  begins : (row.bucketStart : Int) < w.stop
  ends : if row.res = 60 then w.start ≤ row.bucketStart else w.start < (row.bucketStart : Int) + row.res
  straddles : 60 < row.res → row.res ≤ w.top → w.Surrounds row ∨ kept h row = false
  uncovered : row.res < w.top → covered h w row = false
  coarse : w.top < row.res → kept h row = false

theorem branch_iff (member : row ∈ h.series.keys) {res : Nat} :
    branch h w res row = true ↔ row.res = res ∧ Chosen h w row := by
  unfold branch
  constructor
  · intro met
    simp only [Bool.and_eq_true, decide_eq_true_eq] at met
    obtain ⟨⟨⟨⟨⟨⟨asked, rfl⟩, edge⟩, begins⟩, ends⟩, straddles⟩, rest⟩ := met
    constructor
    · rfl
    · exact {
        counts := ⟨member, edge⟩
        asked := asked
        begins := begins
        ends := by split at ends <;> simp_all
        straddles := by
          intro coarser allowed
          simpa [coarser, allowed, Window.Surrounds] using straddles
        uncovered := by
          intro finer
          simpa [finer] using rest
        coarse := by
          intro coarser
          simpa [coarser, Nat.lt_asymm coarser] using rest }
  · intro both
    obtain ⟨rfl, chosen⟩ := both
    have ends := chosen.ends
    have straddles : (if 60 < row.res ∧ row.res ≤ w.top then (decide (w.start ≤ row.bucketStart) &&
        decide ((row.bucketStart : Int) + row.res ≤ w.stop)) || !kept h row else true) = true := by
      split
      · rename_i between
        simpa [Window.Surrounds] using chosen.straddles between.1 between.2
      · rfl
    have rest : (if row.res < w.top then !covered h w row else if w.top < row.res then !kept h row else true) = true := by
      split
      · rename_i finer
        simpa using chosen.uncovered finer
      · split
        · rename_i coarser
          simpa using chosen.coarse coarser
        · rfl
    simp only [straddles, rest, Bool.and_true, Bool.and_eq_true, decide_eq_true_eq, and_assoc]
    refine ⟨chosen.asked, trivial, chosen.counts.2, chosen.begins, ?_⟩
    split at ends <;> simp_all

theorem mem_selected {row : Sigma fun _ : RowKey => Counters} :
    row ∈ selected h w ↔ row ∈ h.series.entries ∧ Chosen h w row.1 := by
  unfold selected
  simp only [List.mem_flatMap, List.mem_filter]
  constructor
  · intro found
    obtain ⟨res, _, member, met⟩ := found
    exact ⟨member, ((branch_iff (List.mem_keys_of_mem member)).mp met).2⟩
  · intro both
    have member := List.mem_keys_of_mem both.1
    exact ⟨row.1.res, (h.aligned _ member).known, both.1, (branch_iff member).mpr ⟨rfl, both.2⟩⟩

theorem selected_aligned {row : Sigma fun _ : RowKey => Counters} (found : row ∈ selected h w) : row.1.Aligned :=
  h.aligned _ (List.mem_keys_of_mem (mem_selected.mp found).1)

theorem kept_minute (minute : row.res = 60) : kept h row = false := by
  rw [Bool.eq_false_iff]
  intro found
  obtain ⟨x, counts, finer, _⟩ := kept_iff.mp found
  have := resolution_cases (h.aligned x counts.1).known
  omega

/-- A row that is selected leaves no finer row inside it to be selected. -/
theorem chosen_apart (chosenFine : Chosen h w fine) (chosenCoarse : Chosen h w coarse)
    (same : fine.queryKey = coarse.queryKey) (finer : fine.res < coarse.res) {time : Nat}
    (inFine : fine.Spans time) (inCoarse : coarse.Spans time) : False := by
  have alignedFine := h.aligned fine chosenFine.counts.1
  have alignedCoarse := h.aligned coarse chosenCoarse.counts.1
  have nested := inFine.nested inCoarse alignedFine alignedCoarse (Nat.le_of_lt finer)
  have begins : coarse.Spans fine.bucketStart := by
    have := resolution_pos alignedFine.known
    exact ⟨nested.1, by omega⟩
  have inner : kept h coarse = true := kept_iff.mpr ⟨fine, chosenFine.counts, finer, same, begins⟩
  by_cases allowed : coarse.res ≤ w.top
  · have wide : 60 < coarse.res := by
      have := resolution_cases alignedFine.known
      omega
    rcases chosenCoarse.straddles wide allowed with inside | bare
    · have outer : covered h w fine = true := covered_iff.mpr
        ⟨coarse, chosenCoarse.counts, finer, allowed, same.symm, (begins.start_eq alignedCoarse).symm, inside⟩
      rw [chosenFine.uncovered (by omega)] at outer
      cases outer
    · rw [bare] at inner
      cases inner
  · rw [chosenCoarse.coarse (by omega)] at inner
    cases inner

theorem selected_nodup : (selected h w).Nodup := by
  have distinct : h.series.entries.Nodup := List.NodupKeys.nodup h.series.nodupKeys
  unfold selected
  apply List.nodup_flatMap.mpr
  constructor
  · intro res _
    exact distinct.filter _
  · have known : resolutions.Nodup := by decide
    apply known.imp
    intro first second ne row inFirst inSecond
    simp only [List.mem_filter] at inFirst inSecond
    have member := List.mem_keys_of_mem inFirst.1
    have here := ((branch_iff member).mp inFirst.2).1
    have there := ((branch_iff member).mp inSecond.2).1
    exact ne (here.symm.trans there)

/-- The rows selected for one identity have no time in common. -/
theorem selected_apart : (selected h w).Pairwise fun a b => a.1.queryKey = b.1.queryKey →
    ∀ time, ¬ (a.1.Spans time ∧ b.1.Spans time) := by
  apply selected_nodup.pairwise_of_forall_ne
  intro a inA b inB ne same time both
  have chosenA := (mem_selected.mp inA).2
  have chosenB := (mem_selected.mp inB).2
  rcases Nat.lt_trichotomy a.1.res b.1.res with finer | equal | coarser
  · exact chosen_apart chosenA chosenB same finer both.1 both.2
  · have bucket : a.1.bucketStart = b.1.bucketStart := by
      rw [← both.1.start_eq (selected_aligned inA), ← both.2.start_eq (selected_aligned inB), equal]
    have key : a.1 = b.1 := by
      obtain ⟨⟨_, _, _⟩, _⟩ := a
      obtain ⟨⟨_, _, _⟩, _⟩ := b
      simp_all
    exact ne (List.NodupKeys.eq_of_fst_eq h.series.nodupKeys (mem_selected.mp inA).1 (mem_selected.mp inB).1 key)
  · exact chosen_apart chosenB chosenA same.symm coarser both.2 both.1

end Branches

/-- The table still tells where a reading of the window belongs: some row with the reading has nothing finer
inside it, or is no coarser than the step and inside the window. -/
def Reached (h : History) (w : Window) (reading : Reading) : Prop :=
  ∃ row, Counts h row ∧ row.Holds reading ∧ (kept h row = false ∨ (row.res ≤ w.top ∧ w.Surrounds row))

section Reached

variable {h : History} {w : Window} {row : RowKey} {reading : Reading}

theorem Chosen.selected (chosen : Chosen h w row) : ∃ counters, (⟨row, counters⟩ : Sigma _) ∈ selected h w := by
  obtain ⟨counters, member⟩ := List.exists_of_mem_keys chosen.counts.1
  exact ⟨counters, mem_selected.mpr ⟨member, chosen⟩⟩

theorem covered_holds (counts : Counts h row) (held : row.Holds reading) (outer : covered h w row = true) :
    ∃ x, Counts h x ∧ row.res < x.res ∧ x.res ≤ w.top ∧ w.Surrounds x ∧ x.Holds reading := by
  obtain ⟨x, outerCounts, coarser, allowed, same, parent, inside⟩ := covered_iff.mp outer
  have aligned := h.aligned x outerCounts.1
  have begins : x.Spans row.bucketStart := (mem_iff (resolution_pos aligned.known) aligned.whole).mpr parent.symm
  have spans := held.spans.widen (h.aligned row counts.1) aligned (Nat.le_of_lt coarser) begins
  exact ⟨x, outerCounts, coarser, allowed, inside, held.key.trans same.symm, spans⟩

/-- Of the rows around a reading that a window surrounds, the coarsest one is selected. -/
theorem surrounded_chosen (asked : w.asks reading.queryKey = true) (counts : Counts h row) (held : row.Holds reading)
    (allowed : row.res ≤ w.top) (inside : w.Surrounds row) : ∃ chosen, Chosen h w chosen ∧ chosen.Holds reading := by
  induction far : 86400 - row.res using Nat.strong_induction_on generalizing row with
  | _ far ih =>
    subst far
    have aligned := h.aligned row counts.1
    by_cases outer : covered h w row = true
    · obtain ⟨x, outerCounts, coarser, outerAllowed, outerInside, outerHeld⟩ := covered_holds counts held outer
      have less : 86400 - x.res < 86400 - row.res := by
        have := resolution_cases (h.aligned x outerCounts.1).known
        omega
      exact ih _ less outerCounts outerHeld outerAllowed outerInside rfl
    · have positive := resolution_pos aligned.known
      have after := inside.1
      have before := inside.2
      exact ⟨row, {
        counts := counts
        asked := held.key ▸ asked
        begins := by omega
        ends := by split <;> omega
        straddles := fun _ _ => .inl inside
        uncovered := fun _ => Bool.eq_false_iff.mpr outer
        coarse := fun coarser => absurd coarser (by omega) }, held⟩

/-- A reading of the window is in a selected row exactly where it is reached. -/
theorem held_iff (asked : w.asks reading.queryKey = true) (window : w.Inside reading) :
    (∃ row ∈ selected h w, row.1.Holds reading) ↔ Reached h w reading := by
  constructor
  · intro found
    obtain ⟨row, member, held⟩ := found
    have chosen := (mem_selected.mp member).2
    refine ⟨row.1, chosen.counts, held, ?_⟩
    by_cases minute : row.1.res = 60
    · exact .inl (kept_minute minute)
    · by_cases allowed : row.1.res ≤ w.top
      · have wide : 60 < row.1.res := by
          have := resolution_cases (selected_aligned member).known
          omega
        rcases chosen.straddles wide allowed with inside | bare
        · exact .inr ⟨allowed, inside⟩
        · exact .inl bare
      · exact .inl (chosen.coarse (by omega))
  · intro reached
    obtain ⟨row, counts, held, bare | ⟨allowed, inside⟩⟩ := reached
    · have aligned := h.aligned row counts.1
      have minute := held.spans.minute aligned
      have after := minute.1
      have before := minute.2
      have first := window.1
      have last := window.2
      by_cases outer : covered h w row = true
      · obtain ⟨x, outerCounts, _, allowed, inside, outerHeld⟩ := covered_holds counts held outer
        obtain ⟨chosen, found, holds⟩ := surrounded_chosen asked outerCounts outerHeld allowed inside
        obtain ⟨counters, member⟩ := found.selected
        exact ⟨_, member, holds⟩
      · have ends : if row.res = 60 then w.start ≤ row.bucketStart else w.start < (row.bucketStart : Int) + row.res := by
          split
          · rename_i minute
            have own : reading.minute = row.bucketStart := by
              rw [Reading.minute, ← minute]
              exact held.spans.start_eq aligned
            omega
          · omega
        have chosen : Chosen h w row := {
          counts := counts
          asked := held.key ▸ asked
          begins := by omega
          ends := ends
          straddles := fun _ _ => .inr bare
          uncovered := fun _ => Bool.eq_false_iff.mpr outer
          coarse := fun _ => bare }
        obtain ⟨counters, member⟩ := chosen.selected
        exact ⟨_, member, held⟩
    · obtain ⟨chosen, found, holds⟩ := surrounded_chosen asked counts held allowed inside
      obtain ⟨counters, member⟩ := found.selected
      exact ⟨_, member, holds⟩

end Reached

section Sums

variable {h : History} {w : Window}

/-- Where every row selected lies inside the window, a reading is in a selected row only if the window asks for it. -/
theorem held_within (within : ∀ row ∈ selected h w, w.Surrounds row.1) {row : Sigma fun _ : RowKey => Counters}
    (found : row ∈ selected h w) {reading : Reading} (held : row.1.Holds reading) :
    w.asks reading.queryKey = true ∧ w.Inside reading := by
  have minute := held.spans.minute (selected_aligned found)
  have surrounds := within row found
  have asked := (mem_selected.mp found).2.asked
  rw [← held.key] at asked
  have after := surrounds.1
  have before := surrounds.2
  have first := minute.1
  have last := minute.2
  exact ⟨asked, by omega, by omega⟩

/-- Sums of any columns of the selected rows of some identities are the sums of their readings, where no row holds a
    reading that was not asked for. -/
theorem sum_selected_of {M : Type*} [AddCommMonoid M] (columns : Counters →+ M) (test : String → Prop) [DecidablePred test]
    (inside : ∀ row ∈ selected h w, ∀ reading, row.1.Holds reading → w.asks reading.queryKey = true ∧ w.Inside reading)
    (reached : ∀ reading ∈ h.readings, w.asks reading.queryKey = true → w.Inside reading → Reached h w reading)
    (asked : ∀ queryKey, test queryKey → w.asks queryKey = true) :
    total (fun row : Sigma fun _ : RowKey => Counters => columns row.2) (fun row => test row.1.queryKey) (selected h w) =
      total (fun reading => columns reading.counters) (fun reading => test reading.queryKey ∧ w.Inside reading)
        h.readings := by
  have exact : ∀ reading ∈ h.readings, cover (fun (row : Sigma fun _ : RowKey => Counters) => row.1.Holds)
      ((selected h w).filter fun row => test row.1.queryKey) reading =
        if test reading.queryKey ∧ w.Inside reading then 1 else 0 := by
    intro reading member
    split
    · rename_i own
      have askedOwn := asked reading.queryKey own.1
      have apart : ((selected h w).filter fun row => test row.1.queryKey).Pairwise
          fun a b => ∀ r, ¬ (a.1.Holds r ∧ b.1.Holds r) := by
        apply (selected_apart.filter _).imp
        intro a b apart r both
        exact apart (both.1.key.symm.trans both.2.key) r.ts ⟨both.1.spans, both.2.spans⟩
      obtain ⟨row, found, held⟩ := (held_iff askedOwn own.2).mpr (reached reading member askedOwn own.2)
      have here : row ∈ (selected h w).filter fun row => test row.1.queryKey := by
        simpa [found, ← held.key] using own.1
      exact (cover_eq_one_iff apart).mpr ⟨row, here, held⟩
    · rename_i other
      apply cover_eq_zero
      intro row found held
      have both := List.mem_filter.mp found
      have key : test row.1.queryKey := by simpa using both.2
      exact other ⟨held.key ▸ key, (inside row both.1 reading held).2⟩
  rw [← sum_of_cover exact, ← total_filter]
  congr 1
  apply List.map_congr_left
  intro row found
  have member := (mem_selected.mp (List.mem_filter.mp found).1).1
  rw [h.summed row member]
  exact total_hom columns

/-- Sums of any columns of the selected rows of an identity are the sums of its readings in the window. -/
theorem sum_selected {M : Type*} [AddCommMonoid M] (columns : Counters →+ M)
    (within : ∀ row ∈ selected h w, w.Surrounds row.1)
    (reached : ∀ reading ∈ h.readings, w.asks reading.queryKey = true → w.Inside reading → Reached h w reading)
    {queryKey : String} (asked : w.asks queryKey = true) :
    total (fun row : Sigma fun _ : RowKey => Counters => columns row.2) (fun row => row.1.queryKey = queryKey)
        (selected h w) =
      total (fun reading => columns reading.counters) (fun reading => reading.queryKey = queryKey ∧ w.Inside reading)
        h.readings := by
  apply sum_selected_of columns (fun name => name = queryKey) (fun row found reading held => held_within within found held)
    reached
  rintro _ rfl
  exact asked

end Sums

end Rdst.Series
