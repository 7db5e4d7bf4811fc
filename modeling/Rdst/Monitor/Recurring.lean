import Mathlib.Data.List.Sort
import Mathlib.Data.Rat.Defs
import Mathlib.Algebra.Order.Ring.Rat
import Mathlib.Order.Bounds.Basic
import Mathlib.Tactic.Linarith
import Rdst.Lib.Bouts

/-! The bursts of a query's five-minute series. -/

namespace Rdst.Monitor.Recurring

open Bouts

def bucketS : ℤ := 300

structure Burst (α : Type) where
  start : ℤ
  stop : ℤ
  peak : α
deriving DecidableEq

inductive Metric
  | calls
  | latency
deriving DecidableEq

/-- The arithmetic of the values, in which a level is worked out. -/
structure Arithmetic (α : Type) where
  zero : α
  median : List α → α
  /-- `typical * CALLS_RISE`. -/
  callsRise : α → α
  plusOne : α → α
  /-- `typical * LATENCY_RISE`. -/
  latencyRise : α → α

/-- The buckets of a series in the order of time. -/
structure Series (α : Type) where
  points : List (ℤ × Option α)
  spaced : points.Pairwise fun p q => p.1 + bucketS ≤ q.1

section Bursts

variable {α : Type} [LinearOrder α] (arith : Arithmetic α)

/-- The level of a series with values enough. -/
def levelOf (metric : Metric) (points : List (ℤ × Option α)) : Option α :=
  let given := points.filterMap Prod.snd
  let values := if metric = .latency then given.filter fun value => arith.zero < value else given
  if values.length < 12 then none
  else
    let typical := arith.median values
    some (match metric with
      | .calls => max (arith.callsRise typical) (arith.plusOne typical)
      | .latency => arith.latencyRise typical)

/-- The run that has begun, if one has, with its start, end and peak. -/
structure Scan (α : Type) where
  current : Option (Burst α)
  quiet : ℕ
  found : List (Burst α)

def high (level : α) (point : ℤ × Option α) : Bool := point.2.any fun value => level < value

def scanPoint (level : α) (s : Scan α) (point : ℤ × Option α) : Scan α :=
  match point.2.filter fun value => level < value with
  | some value =>
    let run := s.current.getD ⟨point.1, point.1, arith.zero⟩
    { s with current := some ⟨run.start, point.1 + bucketS, max run.peak value⟩, quiet := 0 }
  | none =>
    match s.current with
    | none => s
    | some run =>
      if s.quiet + 1 > 1 then { current := none, quiet := s.quiet + 1, found := s.found ++ [run] }
      else { s with quiet := s.quiet + 1 }

def bursts (metric : Metric) (points : List (ℤ × Option α)) : List (Burst α) :=
  match levelOf arith metric points with
  | none => []
  | some level =>
    let s := points.foldl (scanPoint arith level) ⟨none, 0, []⟩
    s.found ++ s.current.toList

end Bursts

section Runs

variable {α : Type} [LinearOrder α] (arith : Arithmetic α) (level : α)

/-- The burst that a run of points is. -/
def burstOf (run : List (ℤ × Option α)) : Burst α :=
  ⟨(run.head?.map Prod.fst).getD 0, (run.getLast?.map fun p => p.1 + bucketS).getD 0,
    ((run.filterMap Prod.snd).filter fun value => level < value).foldl max arith.zero⟩

/-- Where the pass stands: all runs behind a long enough pause are found, and the last one is going on. -/
inductive Tracks : List (List (ℤ × Option α) × List (ℤ × Option α)) → Scan α → Prop
  | idle {bouts : List (List (ℤ × Option α) × List (ℤ × Option α))} (quiet : ℕ) (long : ∀ b ∈ bouts, 2 ≤ b.2.length) :
      Tracks bouts ⟨none, quiet, bouts.map fun b => burstOf arith level b.1⟩
  | going {bouts : List (List (ℤ × Option α) × List (ℤ × Option α))} (run pause : List (ℤ × Option α))
      (long : ∀ b ∈ bouts, 2 ≤ b.2.length) (short : pause.length ≤ 1) :
      Tracks (bouts ++ [(run, pause)])
        ⟨some (burstOf arith level run), pause.length, bouts.map fun b => burstOf arith level b.1⟩

variable {arith level}

theorem scanPoint_high {s : Scan α} {ts : ℤ} {value : α} (above : level < value) : scanPoint arith level s (ts, some value) =
    let run := s.current.getD ⟨ts, ts, arith.zero⟩
    { s with current := some ⟨run.start, ts + bucketS, max run.peak value⟩, quiet := 0 } := by
  have kept : (some value).filter (fun value => decide (level < value)) = some value := by simp [Option.filter, above]
  simp only [scanPoint, kept]

theorem scanPoint_quiet {s : Scan α} {p : ℤ × Option α} (below : high level p = false) : scanPoint arith level s p =
    match s.current with
    | none => s
    | some run =>
      if s.quiet + 1 > 1 then { current := none, quiet := s.quiet + 1, found := s.found ++ [run] }
      else { s with quiet := s.quiet + 1 } := by
  obtain ⟨ts, value⟩ := p
  cases value with
  | none => rfl
  | some value =>
    have low : ¬ level < value := by simpa [high] using below
    have dropped : (some value).filter (fun value => decide (level < value)) = none := by simp [Option.filter, low]
    simp only [scanPoint, dropped]

theorem high_value {p : ℤ × Option α} (marked : high level p = true) : ∃ value, p = (p.1, some value) ∧ level < value := by
  obtain ⟨ts, value⟩ := p
  cases value with
  | none => cases marked
  | some value => exact ⟨value, rfl, by simpa [high] using marked⟩

/-- A run that takes up another high point behind its pause. -/
theorem burstOf_extend {run pause : List (ℤ × Option α)} (some_ : run ≠ []) (quiet : ∀ p ∈ pause, high level p = false)
    {ts : ℤ} {value : α} (above : level < value) : burstOf arith level (run ++ pause ++ [(ts, some value)]) =
      ⟨(burstOf arith level run).start, ts + bucketS, max (burstOf arith level run).peak value⟩ := by
  have none_ : (pause.filterMap Prod.snd).filter (fun value => decide (level < value)) = [] := by
    rw [List.filter_eq_nil_iff]
    intro v inside
    obtain ⟨p, member, is⟩ := List.mem_filterMap.mp inside
    have low := quiet p member
    rw [high, is] at low
    simpa using low
  have front : (run ++ pause ++ [(ts, some value)]).head? = run.head? := by
    cases run with
    | nil => exact absurd rfl some_
    | cons p rest => rfl
  rw [burstOf, front]
  simp [List.filterMap_append, List.filter_append, none_, above, burstOf]

/-- One point of the pass. -/
theorem tracks_point {calm : List (ℤ × Option α)} {bouts : List (List (ℤ × Option α) × List (ℤ × Option α))} {s : Scan α}
    (parted : Parted (high level) calm bouts) (tracks : Tracks arith level bouts s) (p : ℤ × Option α) :
    ∃ calm' bouts', Parted (high level) calm' bouts' ∧ Tracks arith level bouts' (scanPoint arith level s p) ∧
      join calm' bouts' = join calm bouts ++ [p] := by
  cases marked : high level p with
  | true =>
    obtain ⟨value, is, above⟩ := high_value marked
    rw [is, scanPoint_high above]
    cases tracks with
    | idle quiet long =>
      have single : burstOf arith level [(p.1, some value)] = ⟨p.1, p.1 + bucketS, max arith.zero value⟩ := by
        simp [burstOf, above]
      refine ⟨calm, bouts ++ [([(p.1, some value)], [])], parted.begins long (by rw [← is]; exact marked), ?_, join_snoc _⟩
      have going : Tracks arith level _ _ := .going [(p.1, some value)] [] long (Nat.zero_le 1)
      rw [single] at going
      exact going
    | @going bouts run pause long short =>
      have inside : (run, pause) ∈ bouts ++ [(run, pause)] := by simp
      have within := parted.runs _ inside
      have silent := parted.pauses _ inside
      have some_ : run ≠ [] := by
        rintro rfl
        obtain ⟨x, head, -⟩ := within.first
        cases head
      have longer : Run (high level) (run ++ pause ++ [(p.1, some value)]) := within.extend short (by rw [← is]; exact marked)
      refine ⟨calm, bouts ++ [(run ++ pause ++ [(p.1, some value)], [])], parted.last longer (by simp), ?_, ?_⟩
      · have going : Tracks arith level _ _ := .going (run ++ pause ++ [(p.1, some value)]) [] long (Nat.zero_le 1)
        rw [burstOf_extend some_ silent above] at going
        exact going
      · rw [join_snoc, join_snoc]
        simp
  | false =>
    rw [scanPoint_quiet marked]
    cases tracks with
    | idle quiet long =>
      cases bouts using List.reverseRecOn with
      | nil =>
        refine ⟨calm ++ [p], [], parted.quiet marked, .idle quiet long, ?_⟩
        simp [join]
      | append_singleton bouts b =>
        obtain ⟨run, pause⟩ := b
        have inside : (run, pause) ∈ bouts ++ [(run, pause)] := by simp
        have silent : ∀ y ∈ pause ++ [p], high level y = false := by
          intro y member
          rcases List.mem_append.mp member with early | here
          · exact parted.pauses _ inside y early
          · rwa [List.mem_singleton.mp here]
        have longer : ∀ b ∈ bouts ++ [(run, pause ++ [p])], 2 ≤ b.2.length := by
          intro b member
          rcases List.mem_append.mp member with early | here
          · exact long b (List.mem_append_left _ early)
          · have before := long _ inside
            rw [List.mem_singleton.mp here, List.length_append]
            simp only at before ⊢
            omega
        refine ⟨calm, bouts ++ [(run, pause ++ [p])], parted.last (parted.runs _ inside) silent, ?_, ?_⟩
        · have idle : Tracks arith level _ _ := .idle quiet longer
          simpa using idle
        · rw [join_snoc, join_snoc]
          simp
    | @going bouts run pause long short =>
      have inside : (run, pause) ∈ bouts ++ [(run, pause)] := by simp
      have silent : ∀ y ∈ pause ++ [p], high level y = false := by
        intro y member
        rcases List.mem_append.mp member with early | here
        · exact parted.pauses _ inside y early
        · rwa [List.mem_singleton.mp here]
      refine ⟨calm, bouts ++ [(run, pause ++ [p])], parted.last (parted.runs _ inside) silent, ?_, ?_⟩
      · by_cases full : pause.length + 1 > 1
        · have longer : ∀ b ∈ bouts ++ [(run, pause ++ [p])], 2 ≤ b.2.length := by
            intro b member
            rcases List.mem_append.mp member with early | here
            · exact long b early
            · rw [List.mem_singleton.mp here, List.length_append]
              simp only [List.length_singleton]
              omega
          have idle : Tracks arith level _ _ := .idle (pause.length + 1) longer
          simp only [if_pos full]
          simpa using idle
        · have going : Tracks arith level _ _ := .going run (pause ++ [p]) long
            (by rw [List.length_append, List.length_singleton]; omega)
          simp only [if_neg full]
          simpa using going
      · rw [join_snoc, join_snoc]
        simp

/-- The whole pass. -/
theorem tracks_points (points : List (ℤ × Option α)) : ∃ calm bouts, Parted (high level) calm bouts ∧
    Tracks arith level bouts (points.foldl (scanPoint arith level) ⟨none, 0, []⟩) ∧ join calm bouts = points := by
  induction points using List.reverseRecOn with
  | nil => exact ⟨[], [], parted_nil, .idle 0 (by simp), rfl⟩
  | append_singleton points p ih =>
    obtain ⟨calm, bouts, parted, tracks, whole⟩ := ih
    rw [List.foldl_concat]
    obtain ⟨calm', bouts', parted', tracks', whole'⟩ := tracks_point parted tracks p
    exact ⟨calm', bouts', parted', tracks', by rw [whole', whole]⟩

/-- The bursts are the runs of the series. -/
theorem bursts_runs {metric : Metric} {points : List (ℤ × Option α)} (given : levelOf arith metric points = some level) :
    ∃ calm bouts, Parted (high level) calm bouts ∧ join calm bouts = points ∧
      bursts arith metric points = bouts.map fun b => burstOf arith level b.1 := by
  obtain ⟨calm, bouts, parted, tracks, whole⟩ : ∃ calm bouts, Parted (high level) calm bouts ∧
    Tracks arith level bouts (points.foldl (scanPoint arith level) ⟨none, 0, []⟩) ∧ join calm bouts = points := tracks_points points
  refine ⟨calm, bouts, parted, whole, ?_⟩
  rw [bursts, given]
  simp only
  generalize points.foldl (scanPoint arith level) ⟨none, 0, []⟩ = s at tracks ⊢
  cases tracks with
  | idle quiet long => simp
  | going run pause long short => simp

end Runs

section Partition

variable {α : Type} [LinearOrder α]

def Burst.Covers (b : Burst α) (p : ℤ × Option α) : Prop := b.start ≤ p.1 ∧ p.1 < b.stop

/-- What the bursts of a series are, at a level. -/
structure Partition (arith : Arithmetic α) (level : α) (points : List (ℤ × Option α)) (bs : List (Burst α)) : Prop where
  proper : ∀ b ∈ bs, b.start < b.stop
  ordered : bs.Pairwise fun a b => a.stop ≤ b.start
  covered : ∀ p ∈ points, high level p = true → ∃! b, b ∈ bs ∧ b.Covers p
  starts : ∀ b ∈ bs, ∃ p ∈ points, high level p = true ∧ b.start = p.1
  stops : ∀ b ∈ bs, ∃ p ∈ points, high level p = true ∧ b.stop = p.1 + bucketS
  peaks : ∀ b ∈ bs, IsGreatest ({arith.zero} ∪ {value | ∃ ts, (ts, some value) ∈ points ∧ level < value ∧ b.Covers (ts, some value)}) b.peak
  dense : ∀ front p q back, points = front ++ p :: q :: back → ∀ b ∈ bs, b.Covers p → b.Covers q →
    high level p = true ∨ high level q = true
  apart : ∀ front a b back, bs = front ++ a :: b :: back → ∃ before p q after, points = before ++ p :: q :: after ∧
    high level p = false ∧ high level q = false ∧ a.stop ≤ p.1 ∧ q.1 < b.start

variable {arith : Arithmetic α} {level : α} {points : List (ℤ × Option α)}

variable (arith) in
/-- What a run says of its burst. -/
theorem run_burst {before run after : List (ℤ × Option α)} (within : Run (high level) run)
    (spaced : (before ++ run ++ after).Pairwise fun p q => p.1 + bucketS ≤ q.1) :
    (∃ p ∈ run, high level p = true ∧ (burstOf arith level run).start = p.1 ∧ ∀ q ∈ before, q.1 + bucketS ≤ p.1) ∧
      (∃ p ∈ run, high level p = true ∧ (burstOf arith level run).stop = p.1 + bucketS ∧ ∀ q ∈ after, p.1 + bucketS ≤ q.1) ∧
      ∀ p ∈ before ++ run ++ after, (burstOf arith level run).Covers p ↔ p ∈ run := by
  obtain ⟨first, head, marked⟩ := within.first
  obtain ⟨last, tail, marked'⟩ := within.last
  have start : (burstOf arith level run).start = first.1 := by
    rw [Option.mem_def] at head
    rw [burstOf, head]
    rfl
  have stop : (burstOf arith level run).stop = last.1 + bucketS := by
    rw [Option.mem_def] at tail
    rw [burstOf, tail]
    rfl
  have inside : first ∈ run := List.mem_of_mem_head? head
  have inside' : last ∈ run := List.mem_of_getLast? tail
  obtain ⟨front, later, between⟩ := List.pairwise_append.mp spaced
  obtain ⟨-, ordered, outer⟩ := List.pairwise_append.mp front
  have early : ∀ q ∈ before, q.1 + bucketS ≤ first.1 := fun q member => outer q member first inside
  have late : ∀ q ∈ after, last.1 + bucketS ≤ q.1 := fun q member => between last (List.mem_append_right _ inside') q member
  refine ⟨⟨first, inside, marked, start, early⟩, ⟨last, inside', marked', stop, late⟩, fun p member => ?_⟩
  rw [Burst.Covers, start, stop]
  have size : (0 : ℤ) < bucketS := by decide
  constructor
  · rintro ⟨lower, upper⟩
    rcases List.mem_append.mp member with member | member
    · rcases List.mem_append.mp member with member | member
      · have := early p member
        omega
      · exact member
    · have := late p member
      omega
  · intro member
    constructor
    · obtain ⟨rest, rfl⟩ : ∃ rest, run = first :: rest := by
        cases run with
        | nil => cases head
        | cons p rest => exact ⟨rest, by rw [Option.some.inj head]⟩
      rcases List.mem_cons.mp member with rfl | member
      · exact le_refl _
      · have := (List.pairwise_cons.mp ordered).1 p member
        omega
    · obtain ⟨front, rfl⟩ : ∃ front, run = front ++ [last] := List.getLast?_eq_some_iff.mp tail
      rcases List.mem_append.mp member with member | member
      · have := (List.pairwise_append.mp ordered).2.2 p member last (by simp)
        omega
      · rw [List.mem_singleton.mp member]
        omega

theorem peak_greatest (zero : α) (run : List (ℤ × Option α)) :
    IsGreatest ({zero} ∪ {value | ∃ ts, (ts, some value) ∈ run ∧ level < value})
      (((run.filterMap Prod.snd).filter fun value => level < value).foldl max zero) := by
  have values : ∀ value, (∃ ts, (ts, some value) ∈ run ∧ level < value) ↔
      value ∈ (run.filterMap Prod.snd).filter fun value => level < value := by
    intro value
    rw [List.mem_filter, List.mem_filterMap, decide_eq_true_eq]
    constructor
    · rintro ⟨ts, inside, above⟩
      exact ⟨⟨_, inside, rfl⟩, above⟩
    · rintro ⟨⟨⟨ts, v⟩, inside, rfl⟩, above⟩
      exact ⟨ts, inside, above⟩
  have folded : ∀ (list : List α) (start : α), IsGreatest ({start} ∪ {value | value ∈ list}) (list.foldl max start) := by
    intro list
    induction list with
    | nil =>
      intro start
      exact ⟨.inl rfl, fun value inside => inside.elim (fun same => le_of_eq same) (fun none_ => absurd none_ List.not_mem_nil)⟩
    | cons a list ih =>
      intro start
      obtain ⟨member, upper⟩ := ih (max start a)
      constructor
      · rcases member with same | later
        · have same : list.foldl max (max start a) = max start a := same
          rw [List.foldl_cons, same]
          rcases max_choice start a with is | is
          · exact .inl is
          · right
            rw [is]
            exact List.mem_cons_self
        · exact .inr (List.mem_cons_of_mem _ later)
      · intro value inside
        rcases inside with same | member
        · rw [show value = start from same]
          exact (le_max_left start a).trans (upper (.inl rfl))
        · rcases List.mem_cons.mp member with rfl | member
          · exact (le_max_right start value).trans (upper (.inl rfl))
          · exact upper (.inr member)
  have same : {value | ∃ ts, (ts, some value) ∈ run ∧ level < value} =
      {value | value ∈ (run.filterMap Prod.snd).filter fun value => level < value} := Set.ext values
  rw [same]
  exact folded _ zero

theorem parted_partition {calm : List (ℤ × Option α)} {bouts : List (List (ℤ × Option α) × List (ℤ × Option α))}
    (parted : Parted (high level) calm bouts) (spaced : (join calm bouts).Pairwise fun p q => p.1 + bucketS ≤ q.1) :
    Partition arith level (join calm bouts) (bouts.map fun b => burstOf arith level b.1) := by
  have size : (0 : ℤ) < bucketS := by decide
  have nodup : (join calm bouts).Nodup := by
    refine spaced.imp fun {p q} apart same => ?_
    rw [same] at apart
    omega
  -- Each bout in its place.
  have placed : ∀ b ∈ bouts, ∃ before after, join calm bouts = before ++ b.1 ++ after := by
    intro b member
    obtain ⟨front, back, rfl⟩ := List.append_of_mem member
    exact ⟨_, _, join_split⟩
  have told : ∀ b ∈ bouts, ∃ before after, join calm bouts = before ++ b.1 ++ after ∧ Run (high level) b.1 ∧
      (before ++ b.1 ++ after).Pairwise fun p q => p.1 + bucketS ≤ q.1 := by
    intro b member
    obtain ⟨before, after, whole⟩ := placed b member
    exact ⟨before, after, whole, parted.runs b member, by rw [← whole]; exact spaced⟩
  have covers : ∀ b ∈ bouts, ∀ p ∈ join calm bouts, (burstOf arith level b.1).Covers p ↔ p ∈ b.1 := by
    intro b member p inside
    obtain ⟨before, after, whole, within, spaced'⟩ := told b member
    exact (run_burst arith within spaced').2.2 p (by rw [← whole]; exact inside)
  have part : ∀ b ∈ bouts, ∀ p ∈ b.1, p ∈ join calm bouts := by
    intro b member p inside
    obtain ⟨before, after, whole⟩ := placed b member
    rw [whole]
    simp [inside]
  have ordered : (bouts.map fun b => burstOf arith level b.1).Pairwise fun a b => a.stop ≤ b.start := by
    rw [List.pairwise_map]
    have blocks := (List.pairwise_flatMap.mp (List.pairwise_append.mp spaced).2.1).2
    refine blocks.imp_of_mem fun {a b} first second apart => ?_
    obtain ⟨before, after, -, within, spaced'⟩ := told a first
    obtain ⟨before', after', -, within', spaced''⟩ := told b second
    obtain ⟨-, ⟨p, inside, -, stop, -⟩, -⟩ := run_burst arith within spaced'
    obtain ⟨⟨q, inside', -, start, -⟩, -, -⟩ := run_burst arith within' spaced''
    rw [stop, start]
    exact apart p (List.mem_append_left _ inside) q (List.mem_append_left _ inside')
  have starts : ∀ b ∈ bouts.map fun b => burstOf arith level b.1, ∃ p ∈ join calm bouts, high level p = true ∧ b.start = p.1 ∧ b.Covers p := by
    intro b member
    obtain ⟨bout, inside, rfl⟩ := List.mem_map.mp member
    obtain ⟨before, after, -, within, spaced'⟩ := told bout inside
    obtain ⟨⟨p, here, marked, start, -⟩, -, -⟩ := run_burst arith within spaced'
    have among := part bout inside p here
    exact ⟨p, among, marked, start, (covers bout inside p among).mpr here⟩
  constructor
  · intro b member
    obtain ⟨p, -, -, -, lower, upper⟩ := starts b member
    exact lower.trans_lt upper
  · exact ordered
  · intro p inside marked
    obtain ⟨bout, member, here⟩ := parted.covered inside marked
    refine ⟨burstOf arith level bout.1, ⟨List.mem_map_of_mem member, (covers bout member p inside).mpr here⟩, ?_⟩
    rintro b ⟨member', lower, upper⟩
    by_contra other
    have symmetric : Std.Symm fun a b : Burst α => a.stop ≤ b.start ∨ b.stop ≤ a.start := ⟨fun _ _ => Or.symm⟩
    have either := (ordered.imp fun {a b} le => (Or.inl le : a.stop ≤ b.start ∨ b.stop ≤ a.start)).forall
      member' (List.mem_map_of_mem (f := fun b => burstOf arith level b.1) member) other
    obtain ⟨lower', upper'⟩ := (covers bout member p inside).mpr here
    omega
  · intro b member
    obtain ⟨p, inside, marked, start, -⟩ := starts b member
    exact ⟨p, inside, marked, start⟩
  · intro b member
    obtain ⟨bout, inside, rfl⟩ := List.mem_map.mp member
    obtain ⟨before, after, -, within, spaced'⟩ := told bout inside
    obtain ⟨-, ⟨p, here, marked, stop, -⟩, -⟩ := run_burst arith within spaced'
    exact ⟨p, part bout inside p here, marked, stop⟩
  · intro b member
    obtain ⟨bout, inside, rfl⟩ := List.mem_map.mp member
    have greatest := @peak_greatest α _ level arith.zero bout.1
    have same : {value | ∃ ts, (ts, some value) ∈ join calm bouts ∧ level < value ∧ (burstOf arith level bout.1).Covers (ts, some value)} =
        {value | ∃ ts, (ts, some value) ∈ bout.1 ∧ level < value} := by
      ext value
      constructor
      · rintro ⟨ts, among, above, here⟩
        exact ⟨ts, (covers bout inside _ among).mp here, above⟩
      · rintro ⟨ts, here, above⟩
        have among := part bout inside _ here
        exact ⟨ts, among, above, (covers bout inside _ among).mpr here⟩
    rw [same]
    exact greatest
  · intro front p q back split b member here here'
    obtain ⟨bout, inside, rfl⟩ := List.mem_map.mp member
    obtain ⟨before, after, whole, within, spaced'⟩ := told bout inside
    have first := (covers bout inside p (by rw [split]; simp)).mp here
    have second := (covers bout inside q (by rw [split]; simp)).mp here'
    obtain ⟨r, r', run_eq⟩ := List.append_of_mem first
    have cut : (before ++ r) ++ p :: (r' ++ after) = front ++ p :: (q :: back) := by
      rw [← split, whole, run_eq]
      simp
    rw [split, ← cut] at nodup
    have absent : p ∉ before ++ r := fun early => (List.nodup_append.mp nodup).2.2 p early p (by simp) rfl
    have absent' : p ∉ r' ++ after := (List.nodup_cons.mp (List.nodup_append.mp nodup).2.1).1
    obtain ⟨-, -, tails⟩ := (List.append_cons_inj_of_notMem absent absent').mp cut
    obtain ⟨-, ⟨last, among, -, stop, late⟩, -⟩ := run_burst arith within spaced'
    cases r' with
    | nil =>
      -- The next point would be behind the burst.
      have behind := late q (by rw [show after = q :: back from tails]; simp)
      have upper := here'.2
      rw [stop] at upper
      omega
    | cons x r' =>
      obtain ⟨rfl, -⟩ := List.cons.inj tails
      have dense := within.dense
      rw [run_eq] at dense
      exact (List.isChain_cons_cons.mp (List.isChain_append.mp dense).2.1).1
  · intro front a b back split
    obtain ⟨u, v, bouts_eq, front_eq, rest_eq⟩ := List.map_eq_append_iff.mp split
    obtain ⟨one, v', v_eq, one_eq, rest_eq'⟩ := List.map_eq_cons_iff.mp rest_eq
    obtain ⟨two, w, v'_eq, two_eq, -⟩ := List.map_eq_cons_iff.mp rest_eq'
    subst v'_eq v_eq
    have long := parted.apart u one two w bouts_eq
    have member : one ∈ bouts := by rw [bouts_eq]; simp
    have member' : two ∈ bouts := by rw [bouts_eq]; simp
    have silent := parted.pauses one member
    obtain ⟨run, pause⟩ := one
    match pause, long, silent with
    | p :: q :: pause, _, silent =>
      have whole : join calm bouts = (join calm u ++ run) ++ p :: q :: (pause ++ (two.1 ++ two.2) ++ w.flatMap fun b => b.1 ++ b.2) := by
        rw [bouts_eq, join_split]
        simp [List.append_assoc]
      refine ⟨join calm u ++ run, p, q, _, whole, silent p (by simp), silent q (by simp), ?_, ?_⟩
      · have split' : join calm bouts = join calm u ++ run ++ (p :: q :: (pause ++ (two.1 ++ two.2) ++ w.flatMap fun b => b.1 ++ b.2)) := whole
        obtain ⟨-, ⟨last, -, -, stop, late⟩, -⟩ := run_burst arith (parted.runs _ member) (split' ▸ spaced)
        rw [← one_eq, stop]
        exact late p (by simp)
      · have split' : join calm bouts = (join calm u ++ run ++ p :: q :: pause) ++ two.1 ++ (two.2 ++ w.flatMap fun b => b.1 ++ b.2) := by
          rw [whole]
          simp [List.append_assoc]
        obtain ⟨⟨first, -, -, start, early⟩, -, -⟩ := run_burst arith (parted.runs _ member') (split' ▸ spaced)
        rw [← two_eq, start]
        have before := early q (by simp)
        omega

/-- Where a series has values enough for a level, its bursts partition the points above it. -/
theorem bursts_partition (arith : Arithmetic α) (metric : Metric) (series : Series α) :
    match levelOf arith metric series.points with
    | none => bursts arith metric series.points = []
    | some level => Partition arith level series.points (bursts arith metric series.points) := by
  cases given : levelOf arith metric series.points with
  | none => simp only [bursts, given]
  | some level =>
    obtain ⟨calm, bouts, parted, whole, is⟩ := bursts_runs given
    simp only
    rw [is, ← whole]
    apply parted_partition parted
    rw [whole]
    exact series.spaced

end Partition

section Negative

/-- `statistics.median`. -/
def median (values : List ℚ) : ℚ :=
  let data := values.insertionSort (· ≤ ·)
  let half := data.length / 2
  if data.length % 2 = 1 then data.getD half 0 else (data.getD (half - 1) 0 + data.getD half 0) / 2

def rationals : Arithmetic ℚ := ⟨0, median, fun x => x * 2, fun x => x + 1, fun x => x * (3 / 2)⟩

/-- Twelve buckets below zero, and one nearer to it. -/
def belowZero : List (ℤ × Option ℚ) := (List.range 12).map (fun i => ((i : ℤ) * 300, some (-10))) ++ [(3600, some (-5))]

theorem peak_below_zero : levelOf rationals .calls belowZero = some (-9) ∧
    ∃ b ∈ bursts rationals .calls belowZero,
      ¬ IsGreatest {value | ∃ ts, (ts, some value) ∈ belowZero ∧ -9 < value ∧ b.Covers (ts, some value)} b.peak := by
  refine ⟨by decide +kernel, ⟨3600, 3900, 0⟩, by decide +kernel, fun greatest => ?_⟩
  obtain ⟨⟨ts, inside, -, -⟩, -⟩ := greatest
  have values : (0 : ℚ) ∈ belowZero.filterMap Prod.snd := List.mem_filterMap.mpr ⟨_, inside, rfl⟩
  revert values
  decide +kernel

end Negative

end Rdst.Monitor.Recurring
