import Rdst.Lib.Ranks
import Rdst.Lib.Run
import Rdst.Monitor.Ranking

namespace Rdst.Monitor.Ranking

open Assoc Ranks Tracking
open Series (TierPeriod)

/-- The instants of a period, as the readers of the periods take them. -/
def Covers (p : TierPeriod) (t : Nat) : Prop := p.start ≤ t ∧ ∀ stop ∈ p.stop, t < stop

def Apart (p q : TierPeriod) : Prop := ∀ t, Covers p t → ¬ Covers q t

def periodsOf (key : String) (periods : List TierPeriod) : List TierPeriod := periods.filter fun p => p.queryKey = key

def openPeriods (periods : List TierPeriod) : List TierPeriod := periods.filter fun p => p.stop = none

/-- The tier of a rank. -/
def tierOf (rank : Nat) : Nat := if rank ≤ fullDetailQueries then 1 else 2

/-- The ranks, and the periods that go with them. -/
structure Consistent (s : Store) : Prop where
  ranks : Ranked Sigma.snd s.queryTier.entries
  opened : ∀ key rank, s.queryTier.lookup key = some rank →
    (openPeriods (periodsOf key s.history.tierPeriod)).map TierPeriod.tier = [tierOf rank]
  closed : ∀ key, key ∉ s.queryTier.keys → openPeriods (periodsOf key s.history.tierPeriod) = []
  apart : ∀ key, (periodsOf key s.history.tierPeriod).Pairwise Apart

section OneQuery

variable (now : Nat) (key : String) (tier : Nat)

def closedPeriod (p : TierPeriod) : TierPeriod :=
  if p.stop = none ∧ p.tier ≠ tier then { p with stop := some now } else p

def reopened (p : TierPeriod) : TierPeriod := if p.start = now ∧ p.tier = tier then { p with stop := none } else p

/-- A period of the tier that starts now is opened among the periods of one query. -/
def openedAt (periods : List TierPeriod) : List TierPeriod :=
  if ∃ p ∈ periods, p.start = now ∧ p.tier = tier then periods.map (reopened now tier)
  else periods ++ [⟨key, now, none, tier⟩]

/-- The periods of one query after a ranking. -/
def settled (periods : List TierPeriod) : List TierPeriod :=
  let closed := periods.map (closedPeriod now tier)
  (if tier ≠ 3 ∧ openPeriods closed = [] then openedAt now key tier closed else closed).filter fun p =>
    p.stop.all fun stop => now ≤ stop + periodRetention

/-- The primary key of the periods of one query. -/
def Distinct (periods : List TierPeriod) : Prop := periods.Pairwise fun p q => ¬ (p.start = q.start ∧ p.tier = q.tier)

/-- A period ends after the ranking that opens another one. -/
def LateFor (periods : List TierPeriod) : Prop :=
  ∃ p ∈ periods, (∃ stop ∈ p.stop, p.start < stop ∧ now < stop) ∧ ¬ (p.start = now ∧ p.tier = tier)

variable {now key tier} {periods : List TierPeriod}

theorem Apart.symm {p q : TierPeriod} (apart : Apart p q) : Apart q p := fun t second first => apart t first second

instance : Std.Symm Apart := ⟨fun _ _ => Apart.symm⟩

/-- Closing takes instants away only. -/
theorem covers_closed {p : TierPeriod} {t : Nat} (covers : Covers (closedPeriod now tier p) t) : Covers p t := by
  unfold closedPeriod at covers
  split at covers
  · rename_i closing
    exact ⟨covers.1, by rw [closing.1]; exact nofun⟩
  · exact covers

theorem openPeriods_closed : openPeriods (periods.map (closedPeriod now tier)) =
    (openPeriods periods).filter fun p => p.tier = tier := by
  unfold openPeriods
  induction periods with
  | nil => rfl
  | cons p rest ih =>
    rw [List.map_cons]
    by_cases open_ : p.stop = none
    · by_cases same : p.tier = tier
      · have kept : closedPeriod now tier p = p := if_neg fun closing => closing.2 same
        simp [kept, open_, same, ih]
      · have shut : closedPeriod now tier p = { p with stop := some now } := if_pos ⟨open_, same⟩
        simp [shut, open_, same, ih]
    · have kept : closedPeriod now tier p = p := if_neg fun closing => open_ closing.1
      simp [kept, open_, ih]

theorem closed_fields (p : TierPeriod) :
    (closedPeriod now tier p).start = p.start ∧ (closedPeriod now tier p).tier = p.tier := by
  unfold closedPeriod
  split <;> exact ⟨rfl, rfl⟩

theorem reopened_fields (p : TierPeriod) :
    (reopened now tier p).start = p.start ∧ (reopened now tier p).tier = p.tier := by
  unfold reopened
  split <;> exact ⟨rfl, rfl⟩

theorem Distinct.closed (distinct : Distinct periods) : Distinct (periods.map (closedPeriod now tier)) := by
  unfold Distinct
  rw [List.pairwise_map]
  apply distinct.imp
  intro p q different
  rw [(closed_fields p).1, (closed_fields p).2, (closed_fields q).1, (closed_fields q).2]
  exact different

theorem Distinct.openedAt (distinct : Distinct periods) : Distinct (openedAt now key tier periods) := by
  unfold Ranking.openedAt
  split
  · unfold Distinct
    rw [List.pairwise_map]
    apply distinct.imp
    intro p q different
    rw [(reopened_fields p).1, (reopened_fields p).2, (reopened_fields q).1, (reopened_fields q).2]
    exact different
  · rename_i fresh
    apply List.pairwise_append.mpr
    constructor
    · exact distinct
    · constructor
      · exact List.pairwise_singleton _ _
      · intro p member q new same
        rw [List.mem_singleton] at new
        subst new
        exact fresh ⟨p, member, same⟩

theorem Distinct.settled (distinct : Distinct periods) : Distinct (settled now key tier periods) := by
  unfold Ranking.settled
  apply List.Pairwise.filter
  split
  · exact distinct.closed.openedAt
  · exact distinct.closed

/-- Without an open period, opening one opens that one. -/
theorem openPeriods_openedAt (distinct : Distinct periods) (none_ : openPeriods periods = []) :
    (openPeriods (openedAt now key tier periods)).map TierPeriod.tier = [tier] := by
  have shut : ∀ p ∈ periods, p.stop ≠ none := by
    intro p member open_
    have there : p ∈ openPeriods periods := List.mem_filter.mpr ⟨member, decide_eq_true open_⟩
    rw [none_] at there
    exact List.not_mem_nil there
  unfold openedAt
  split
  · rename_i met
    obtain ⟨p, member, match_⟩ := met
    obtain ⟨before, after, rfl⟩ := List.append_of_mem member
    unfold Distinct at distinct
    rw [List.pairwise_append, List.pairwise_cons] at distinct
    have others : ∀ q ∈ before ++ after, reopened now tier q = q := by
      intro q inside
      apply if_neg
      intro same
      rcases List.mem_append.mp inside with early | late
      · exact distinct.2.2 q early p List.mem_cons_self ⟨same.1.trans match_.1.symm, same.2.trans match_.2.symm⟩
      · exact distinct.2.1.1 q late ⟨match_.1.trans same.1.symm, match_.2.trans same.2.symm⟩
    have closed : ∀ part : List TierPeriod, (∀ q ∈ part, q ∈ before ++ after) →
        openPeriods (part.map (reopened now tier)) = [] := by
      intro part within
      apply List.filter_eq_nil_iff.mpr
      intro q inside open_
      obtain ⟨old, member, rfl⟩ := List.mem_map.mp inside
      rw [others old (within old member)] at open_
      apply shut old _ (of_decide_eq_true open_)
      rcases List.mem_append.mp (within old member) with early | late
      · exact List.mem_append_left _ early
      · exact List.mem_append_right _ (List.mem_cons_of_mem _ late)
    have one : openPeriods [reopened now tier p] = [reopened now tier p] := by
      unfold openPeriods reopened
      rw [if_pos match_]
      rfl
    have split_ : openPeriods ((before ++ p :: after).map (reopened now tier)) =
        openPeriods (before.map (reopened now tier)) ++ (openPeriods [reopened now tier p] ++
          openPeriods (after.map (reopened now tier))) := by
      unfold openPeriods
      rw [← List.filter_append, ← List.filter_append, List.map_append]
      rfl
    rw [split_, closed before fun q inside => List.mem_append_left _ inside,
      closed after fun q inside => List.mem_append_right _ inside, one]
    show [(reopened now tier p).tier] = [tier]
    rw [(reopened_fields p).2, match_.2]
  · have whole : openPeriods (periods ++ [⟨key, now, none, tier⟩]) =
        openPeriods periods ++ openPeriods [⟨key, now, none, tier⟩] := List.filter_append _ _
    rw [whole, none_]
    rfl

theorem openPeriods_young (young : TierPeriod → Bool) (keeps : ∀ p : TierPeriod, p.stop = none → young p = true) :
    openPeriods (periods.filter young) = openPeriods periods := by
  unfold openPeriods
  rw [List.filter_filter]
  apply List.filter_congr
  intro p _
  by_cases open_ : p.stop = none
  · simp [open_, keeps p open_]
  · simp [open_]

/-- After a ranking a ranked query has one open period, of its tier. -/
theorem openPeriods_settled (distinct : Distinct periods) {old : Option Nat}
    (opened : (openPeriods periods).map TierPeriod.tier = old.toList) (ranked : old ≠ some 3) :
    (openPeriods (settled now key tier periods)).map TierPeriod.tier = if tier = 3 then [] else [tier] := by
  unfold settled
  simp only
  rw [openPeriods_young _ fun p open_ => by rw [open_]; rfl]
  have kept : (openPeriods (periods.map (closedPeriod now tier))).map TierPeriod.tier =
      old.toList.filter fun t => t = tier := by
    rw [openPeriods_closed, ← opened, List.filter_map]
    rfl
  by_cases out : tier = 3
  · rw [if_neg fun both => both.1 out, if_pos out, kept]
    cases old with
    | none => rfl
    | some t =>
      have other : t ≠ tier := fun same => ranked (congrArg some (same.trans out))
      simp [other]
  · rw [if_neg out]
    by_cases empty : openPeriods (periods.map (closedPeriod now tier)) = []
    · rw [if_pos ⟨out, empty⟩]
      exact openPeriods_openedAt distinct.closed empty
    · rw [if_neg fun both => empty both.2, kept]
      rw [← List.map_eq_nil_iff (f := TierPeriod.tier), kept] at empty
      cases old with
      | none => exact absurd rfl empty
      | some t =>
        by_cases same : t = tier
        · simp [same]
        · simp [same] at empty

/-- Where no period ends late, the closed ones are over when another one is opened. -/
theorem covers_before (shut : openPeriods (periods.map (closedPeriod now tier)) = [])
    (early : ¬ LateFor now tier periods) {q : TierPeriod} (member : q ∈ periods.map (closedPeriod now tier))
    (other : ¬ (q.start = now ∧ q.tier = tier)) {t : Nat} (covers : Covers q t) : t < now := by
  have stopped : q.stop ≠ none := by
    intro open_
    have there : q ∈ openPeriods (periods.map (closedPeriod now tier)) :=
      List.mem_filter.mpr ⟨member, decide_eq_true open_⟩
    rw [shut] at there
    exact List.not_mem_nil there
  obtain ⟨stop, ends⟩ := Option.ne_none_iff_exists'.mp stopped
  have inside := covers.2 stop ends
  by_contra late
  obtain ⟨p, there, rfl⟩ := List.mem_map.mp member
  by_cases closing : p.stop = none ∧ p.tier ≠ tier
  · have ended : (closedPeriod now tier p).stop = some now := by
      unfold closedPeriod
      rw [if_pos closing]
    rw [ended] at ends
    cases ends
    exact late inside
  · have same : closedPeriod now tier p = p := if_neg closing
    rw [same] at other ends covers
    have first := covers.1
    exact early ⟨p, there, ⟨stop, ends, by omega, by omega⟩, other⟩

theorem apart_closed (apart : periods.Pairwise Apart) : (periods.map (closedPeriod now tier)).Pairwise Apart := by
  rw [List.pairwise_map]
  apply apart.imp
  intro p q between t first second
  exact between t (covers_closed first) (covers_closed second)

theorem apart_openedAt (distinct : Distinct periods) (apart : periods.Pairwise Apart)
    (over_ : ∀ q ∈ periods, ¬ (q.start = now ∧ q.tier = tier) → ∀ t, Covers q t → t < now) :
    (openedAt now key tier periods).Pairwise Apart := by
  unfold openedAt
  split
  · rw [List.pairwise_map]
    apply (apart.and distinct).imp_of_mem
    intro p q first second both
    have unchanged : ∀ other : TierPeriod, ¬ (other.start = now ∧ other.tier = tier) → reopened now tier other = other :=
      fun other differs => if_neg differs
    by_cases one : p.start = now ∧ p.tier = tier
    · have two : ¬ (q.start = now ∧ q.tier = tier) := fun same =>
        both.2 ⟨one.1.trans same.1.symm, one.2.trans same.2.symm⟩
      rw [unchanged q two]
      intro t inside covers
      have from_ := inside.1
      rw [(reopened_fields p).1, one.1] at from_
      have until_ := over_ q second two t covers
      omega
    · rw [unchanged p one]
      by_cases two : q.start = now ∧ q.tier = tier
      · intro t covers inside
        have from_ := inside.1
        rw [(reopened_fields q).1, two.1] at from_
        have until_ := over_ p first one t covers
        omega
      · rw [unchanged q two]
        exact both.1
  · rename_i fresh
    apply List.pairwise_append.mpr
    constructor
    · exact apart
    · constructor
      · exact List.pairwise_singleton _ _
      · intro p member q new t covers inside
        rw [List.mem_singleton] at new
        subst new
        have until_ := over_ p member (fun same => fresh ⟨p, member, same⟩) t covers
        have from_ : now ≤ t := inside.1
        omega

/-- The period that is opened runs from now on. -/
theorem mem_openedAt : ∃ e ∈ openedAt now key tier periods, e.start = now ∧ e.stop = none := by
  unfold openedAt
  split
  · rename_i met
    obtain ⟨p, member, match_⟩ := met
    apply Exists.intro (reopened now tier p)
    apply And.intro (List.mem_map_of_mem member)
    unfold reopened
    rw [if_pos match_]
    exact ⟨match_.1, rfl⟩
  · exact ⟨_, List.mem_append_right _ (List.mem_singleton_self _), rfl, rfl⟩

/-- The periods of a query stay apart, unless one is opened that starts before another one ends. -/
theorem apart_settled (distinct : Distinct periods) (apart : periods.Pairwise Apart) :
    (settled now key tier periods).Pairwise Apart ↔
      ¬ ((tier ≠ 3 ∧ openPeriods (periods.map (closedPeriod now tier)) = []) ∧ LateFor now tier periods) := by
  constructor
  · intro after both
    obtain ⟨opening, p, member, ⟨stop, ends, lasts, late⟩, other⟩ := both
    unfold settled at after
    simp only at after
    rw [if_pos opening] at after
    obtain ⟨e, opened, from_, open_⟩ : ∃ e ∈ openedAt now key tier (periods.map (closedPeriod now tier)),
        e.start = now ∧ e.stop = none := mem_openedAt
    have ended : p.stop = some stop := ends
    have same : closedPeriod now tier p = p := by
      apply if_neg
      intro closing
      rw [ended] at closing
      exact nomatch closing.1
    have there : p ∈ openedAt now key tier (periods.map (closedPeriod now tier)) := by
      have kept : p ∈ periods.map (closedPeriod now tier) := same ▸ List.mem_map_of_mem member
      unfold openedAt
      split
      · have unchanged : reopened now tier p = p := if_neg other
        exact unchanged ▸ List.mem_map_of_mem kept
      · exact List.mem_append_left _ kept
    have different : p ≠ e := by
      intro equal
      rw [equal, open_] at ended
      exact nomatch ended
    have between : Apart p e := by
      apply after.forall _ _ different
      · apply List.mem_filter.mpr
        rw [ended]
        exact ⟨there, decide_eq_true (by omega)⟩
      · apply List.mem_filter.mpr
        rw [open_]
        exact ⟨opened, rfl⟩
    apply between (max now p.start)
    · apply And.intro (le_max_right _ _)
      intro last_ at_
      rw [ended] at at_
      cases at_
      exact max_lt late lasts
    · apply And.intro (from_ ▸ le_max_left _ _)
      rw [open_]
      exact nofun
  · intro never
    unfold settled
    apply List.Pairwise.filter
    split
    · rename_i opening
      have early : ¬ LateFor now tier periods := fun late => never ⟨opening, late⟩
      apply apart_openedAt distinct.closed (apart_closed apart)
      intro q member other t covers
      exact covers_before opening.2 early member other covers
    · exact apart_closed apart

end OneQuery

section Ranking

variable (now : Nat) (next : List String) (key : String) {periods : List TierPeriod}

theorem mem_periodsOf {p : TierPeriod} : p ∈ periodsOf key periods ↔ p ∈ periods ∧ p.queryKey = key := by
  simp [periodsOf]

theorem periodsOf_map {f : TierPeriod → TierPeriod} (owner : ∀ p, (f p).queryKey = p.queryKey) :
    periodsOf key (periods.map f) = (periodsOf key periods).map f := by
  unfold periodsOf
  rw [List.filter_map]
  congr 1
  apply List.filter_congr
  intro p _
  simp [owner]

theorem periodsOf_close : periodsOf key (closePeriods now next periods) =
    (periodsOf key periods).map (closedPeriod now (tierIn next key)) := by
  unfold closePeriods
  rw [periodsOf_map key fun p => by split <;> rfl]
  apply List.map_congr_left
  intro p member
  obtain ⟨_, rfl⟩ := (mem_periodsOf key).mp member
  rfl

theorem periodsOf_open (other : String) : periodsOf key (openPeriod now next periods other) =
    if key = other then openedAt now key (tierIn next key) (periodsOf key periods) else periodsOf key periods := by
  unfold openPeriod
  by_cases own : key = other
  · subst own
    have met : (∃ p ∈ periods, p.queryKey = key ∧ p.start = now ∧ p.tier = tierIn next key) ↔
        ∃ p ∈ periodsOf key periods, p.start = now ∧ p.tier = tierIn next key := by
      simp [periodsOf, and_assoc]
    rw [if_pos rfl]
    unfold openedAt
    by_cases there : ∃ p ∈ periodsOf key periods, p.start = now ∧ p.tier = tierIn next key
    · rw [if_pos (met.mpr there), if_pos there, periodsOf_map key fun p => by split <;> rfl]
      apply List.map_congr_left
      intro p member
      have mine := ((mem_periodsOf key).mp member).2
      simp [mine, reopened]
    · rw [if_neg fun all => there (met.mp all), if_neg there]
      simp [periodsOf]
  · rw [if_neg own]
    split
    · rw [periodsOf_map key fun p => by split <;> rfl]
      have same : (periodsOf key periods).map (fun p =>
          if p.queryKey = other ∧ p.start = now ∧ p.tier = tierIn next other then { p with stop := none } else p) =
          (periodsOf key periods).map id := by
        apply List.map_congr_left
        intro p member
        rw [((mem_periodsOf key).mp member).2]
        exact if_neg fun all => own all.1
      rw [same, List.map_id]
    · have different : ¬ other = key := Ne.symm own
      simp [periodsOf, different]

/-- Opening periods of some queries opens one at each of them. -/
theorem periodsOf_opened {keys : List String} (distinct : keys.Nodup) :
    periodsOf key (keys.foldl (openPeriod now next) periods) =
      if key ∈ keys then openedAt now key (tierIn next key) (periodsOf key periods) else periodsOf key periods := by
  induction keys generalizing periods with
  | nil => rfl
  | cons first rest ih =>
    rw [List.nodup_cons] at distinct
    rw [List.foldl_cons, ih distinct.2, periodsOf_open]
    by_cases own : key = first
    · subst own
      simp [distinct.1]
    · simp [own]

/-- A key without a rank is in no tier. -/
theorem tierIn_eq_three : tierIn next key = 3 ↔ key ∉ next := by
  unfold tierIn
  by_cases full : key ∈ next.take fullDetailQueries
  · simp [full, List.mem_of_mem_take full]
  · by_cases tail : key ∈ next
    · simp [full, tail]
    · simp [full, tail]

theorem tierIn_ranked (ranked : key ∈ next) : tierIn next key = tierOf (1 + next.idxOf key) := by
  unfold tierIn tierOf
  have first : key ∈ next.take fullDetailQueries ↔ 1 + next.idxOf key ≤ fullDetailQueries := by
    rw [List.mem_take_iff_idxOf_lt ranked]
    omega
  by_cases full : key ∈ next.take fullDetailQueries
  · rw [if_pos full, if_pos (first.mp full)]
  · rw [if_neg full, if_pos ranked, if_neg fun rank => full (first.mpr rank)]

/-- A ranking settles the periods of each query by themselves. -/
theorem periodsOf_next (distinct : next.Nodup) :
    periodsOf key (nextPeriods now next periods) = settled now key (tierIn next key) (periodsOf key periods) := by
  unfold nextPeriods settled
  simp only
  have young : ∀ (test : TierPeriod → Bool) (all : List TierPeriod),
      periodsOf key (all.filter test) = (periodsOf key all).filter test := by
    intro test all
    unfold periodsOf
    rw [List.filter_filter, List.filter_filter]
    apply List.filter_congr
    intro p _
    exact Bool.and_comm _ _
  have opens : key ∈ (next.filter fun key => ¬ ∃ p ∈ closePeriods now next periods, p.queryKey = key ∧ p.stop = none) ↔
      tierIn next key ≠ 3 ∧
        openPeriods ((periodsOf key periods).map (closedPeriod now (tierIn next key))) = [] := by
    rw [List.mem_filter, Ne, tierIn_eq_three, not_not, ← periodsOf_close]
    unfold openPeriods
    rw [List.filter_eq_nil_iff]
    simp [periodsOf]
  rw [young, periodsOf_opened now next key (distinct.filter _), periodsOf_close]
  congr 1
  exact if_congr opens rfl rfl

/-- A ranking at this time comes too late for a query that it opens a period of. -/
def Late (s : Store) (now : Nat) : Prop :=
  ∃ key ∈ nextTier s now,
    (∀ p ∈ openPeriods (periodsOf key s.history.tierPeriod), p.tier ≠ tierIn (nextTier s now) key) ∧
      LateFor now (tierIn (nextTier s now) key) (periodsOf key s.history.tierPeriod)

/-- The tables of the tiers, as far as a ranking relies on them. -/
structure Sound (s : Store) : Prop where
  one : ∀ key, ∃ old : Option Nat,
    (openPeriods (periodsOf key s.history.tierPeriod)).map TierPeriod.tier = old.toList ∧ old ≠ some 3
  apart : ∀ key, (periodsOf key s.history.tierPeriod).Pairwise Apart
  distinct : ∀ key, Distinct (periodsOf key s.history.tierPeriod)

variable {s : Store} {now}

/-- A query has one open period or none, never one of the third tier. -/
theorem Consistent.one (consistent : Consistent s) (key : String) :
    ∃ old : Option Nat, (openPeriods (periodsOf key s.history.tierPeriod)).map TierPeriod.tier = old.toList ∧
      old ≠ some 3 := by
  cases rank : s.queryTier.lookup key with
  | none =>
    have absent : key ∉ s.queryTier.keys := fun member => (mem_keys_iff.mp member) rank
    exact ⟨none, by rw [consistent.closed key absent]; rfl, nofun⟩
  | some rank_ =>
    refine ⟨some (tierOf rank_), consistent.opened key rank_ rank, ?_⟩
    unfold tierOf
    split <;> decide

theorem nextRanks_ranked {next : List String} (distinct : next.Nodup) (tier : Dict String Nat) :
    Ranked Sigma.snd (nextRanks next tier).entries := by
  have keys : (nextRanks next tier).keys.Perm next := by
    apply (List.perm_ext_iff_of_nodup (AList.keys_nodup _) distinct).mpr
    intro key
    rw [mem_keys_iff, nextRanks_lookup distinct]
    by_cases member : key ∈ next <;> simp [member]
  have ranks : (nextRanks next tier).entries.map Sigma.snd =
      (nextRanks next tier).keys.map fun key => 1 + next.idxOf key := by
    unfold AList.keys List.keys
    rw [List.map_map]
    apply List.map_congr_left
    intro row member
    have rank := AList.mem_lookup_iff.mpr member
    rw [nextRanks_lookup distinct] at rank
    split at rank
    · exact (Option.some.inj rank).symm
    · exact nomatch rank
  have count : (nextRanks next tier).entries.length = next.length := by
    rw [← keys.length_eq]
    exact (List.length_map _).symm
  unfold Ranked
  rw [ranks, count]
  exact (keys.map _).trans (ranked_idxOf distinct)

theorem mem_rankQueries {key : String} {rank : Nat} (member : (rankQueries s now).queryTier.lookup key = some rank) :
    key ∈ nextTier s now ∧ rank = 1 + (nextTier s now).idxOf key := by
  have ranks : (nextRanks (nextTier s now) s.queryTier).lookup key = some rank := member
  rw [nextRanks_lookup (nextTier_nodup s now)] at ranks
  split at ranks
  · rename_i inside
    exact ⟨inside, (Option.some.inj ranks).symm⟩
  · exact nomatch ranks

theorem periodsOf_rankQueries (key : String) : periodsOf key (rankQueries s now).history.tierPeriod =
    settled now key (tierIn (nextTier s now) key) (periodsOf key s.history.tierPeriod) :=
  periodsOf_next now (nextTier s now) key (nextTier_nodup s now)

theorem opened_rankQueries (sound : Sound s) (key : String) :
    (openPeriods (periodsOf key (rankQueries s now).history.tierPeriod)).map TierPeriod.tier =
      if tierIn (nextTier s now) key = 3 then [] else [tierIn (nextTier s now) key] := by
  obtain ⟨old, before, ranked⟩ := sound.one key
  rw [periodsOf_rankQueries]
  exact openPeriods_settled (sound.distinct key) before ranked

/-- A ranking keeps the tiers consistent, unless it comes too late. -/
theorem rank_consistent (sound : Sound s) : Consistent (rankQueries s now) ↔ ¬ Late s now := by
  have distinct := nextTier_nodup s now
  have apart : ∀ key, (periodsOf key (rankQueries s now).history.tierPeriod).Pairwise Apart ↔
      ¬ (key ∈ nextTier s now ∧
        (∀ p ∈ openPeriods (periodsOf key s.history.tierPeriod), p.tier ≠ tierIn (nextTier s now) key) ∧
          LateFor now (tierIn (nextTier s now) key) (periodsOf key s.history.tierPeriod)) := by
    intro key
    rw [periodsOf_rankQueries, apart_settled (sound.distinct key) (sound.apart key), openPeriods_closed, Ne, tierIn_eq_three,
      not_not, List.filter_eq_nil_iff, and_assoc]
    simp only [decide_eq_true_eq]
  constructor
  · intro after late
    obtain ⟨key, ranked, opens⟩ := late
    exact (apart key).mp (after.apart key) ⟨ranked, opens⟩
  · intro early
    constructor
    · exact nextRanks_ranked distinct s.queryTier
    · intro key rank member
      obtain ⟨inside, rfl⟩ := mem_rankQueries member
      have in_ : ¬ tierIn (nextTier s now) key = 3 := fun third => (tierIn_eq_three _ _).mp third inside
      rw [opened_rankQueries sound, if_neg in_, tierIn_ranked _ _ inside]
    · intro key absent
      have out := (tierIn_eq_three (nextTier s now) key).mpr fun member => absent ((rankQueries_keys s now).mpr member)
      rw [← List.map_eq_nil_iff (f := TierPeriod.tier), opened_rankQueries sound, if_pos out]
    · intro key
      exact (apart key).mpr fun all => early ⟨key, all⟩

theorem rank_distinct (distinct : ∀ key, Distinct (periodsOf key s.history.tierPeriod)) (key : String) :
    Distinct (periodsOf key (rankQueries s now).history.tierPeriod) := by
  rw [periodsOf_rankQueries]
  exact (distinct key).settled

theorem Consistent.sound (consistent : Consistent s)
    (distinct : ∀ key, Distinct (periodsOf key s.history.tierPeriod)) : Sound s :=
  ⟨consistent.one, consistent.apart, distinct⟩

theorem nextPeriods_again (sound : Sound s) :
    nextPeriods now (nextTier s now) (rankQueries s now).history.tierPeriod = (rankQueries s now).history.tierPeriod := by
  have closed : closePeriods now (nextTier s now) (rankQueries s now).history.tierPeriod =
      (rankQueries s now).history.tierPeriod := by
    unfold closePeriods
    conv_rhs => rw [← List.map_id (rankQueries s now).history.tierPeriod]
    apply List.map_congr_left
    intro p member
    apply if_neg
    intro closing
    have inside : p.tier ∈ (openPeriods (periodsOf p.queryKey (rankQueries s now).history.tierPeriod)).map
        TierPeriod.tier := by
      apply List.mem_map_of_mem
      exact List.mem_filter.mpr ⟨(mem_periodsOf _).mpr ⟨member, rfl⟩, decide_eq_true closing.1⟩
    rw [opened_rankQueries sound] at inside
    split at inside
    · exact List.not_mem_nil inside
    · exact closing.2 (List.mem_singleton.mp inside)
  have opened : (nextTier s now).filter (fun key => ¬ ∃ p ∈ (rankQueries s now).history.tierPeriod,
      p.queryKey = key ∧ p.stop = none) = [] := by
    rw [List.filter_eq_nil_iff]
    intro key ranked new
    have in_ : ¬ tierIn (nextTier s now) key = 3 := fun third => (tierIn_eq_three _ _).mp third ranked
    have one : (openPeriods (periodsOf key (rankQueries s now).history.tierPeriod)).map TierPeriod.tier =
        [tierIn (nextTier s now) key] := by rw [opened_rankQueries sound, if_neg in_]
    obtain ⟨p, single, _⟩ := List.map_eq_singleton_iff.mp one
    have member : p ∈ openPeriods (periodsOf key (rankQueries s now).history.tierPeriod) := single ▸ List.mem_singleton_self p
    obtain ⟨there, open_⟩ := List.mem_filter.mp member
    obtain ⟨inside, own⟩ := (mem_periodsOf key).mp there
    exact of_decide_eq_true new ⟨p, inside, own, of_decide_eq_true open_⟩
  unfold nextPeriods
  simp only
  rw [closed, opened]
  show List.filter _ (rankQueries s now).history.tierPeriod = _
  rw [List.filter_eq_self]
  intro p member
  exact (List.mem_filter.mp member).2

theorem nextRanks_again {next : List String} (distinct : next.Nodup) (tier : Dict String Nat) :
    nextRanks next (nextRanks next tier) = nextRanks next tier := by
  have kept : keepKeys (fun key => next.contains key) (nextRanks next tier) = nextRanks next tier := by
    apply AList.ext
    apply List.filter_eq_self.mpr
    intro row member
    have rank := AList.mem_lookup_iff.mpr member
    rw [nextRanks_lookup distinct] at rank
    split at rank
    · rename_i inside
      exact List.contains_iff_mem.mpr inside
    · exact nomatch rank
  have still : ∀ rows : List (String × Nat), (∀ row ∈ rows, (nextRanks next tier).lookup row.1 = some row.2) →
      rows.foldl (fun tier row => if tier.lookup row.1 = some row.2 then tier else tier.insert row.1 row.2)
        (nextRanks next tier) = nextRanks next tier := by
    intro rows ranks
    induction rows with
    | nil => rfl
    | cons row rest ih =>
      rw [List.foldl_cons, if_pos (ranks row List.mem_cons_self)]
      exact ih fun other member => ranks other (List.mem_cons_of_mem _ member)
  show (next.zipIdx 1).foldl _ (keepKeys (fun key => next.contains key) (nextRanks next tier)) = _
  rw [kept]
  apply still
  intro row member
  obtain ⟨key, rank⟩ := row
  have place := List.mem_zipIdx member
  rw [nextRanks_lookup distinct, if_pos (place.2.2 ▸ List.getElem_mem _)]
  have first : next.idxOf key = rank - 1 := by
    rw [place.2.2]
    exact distinct.idxOf_getElem _ _
  have positive := place.1
  simp only [first]
  congr 1
  omega

/-- A second ranking at the same time changes nothing. -/
theorem rankQueries_again (sound : Sound s) : rankQueries (rankQueries s now) now = rankQueries s now := by
  have periods : nextPeriods now (nextTier s now) (rankQueries s now).history.tierPeriod = _ := nextPeriods_again sound
  have ranks := nextRanks_again (nextTier_nodup s now) s.queryTier
  show ({ rankQueries s now with
    queryTier := nextRanks (nextTier s now) (nextRanks (nextTier s now) s.queryTier)
    history := { s.history with
      tierPeriod := nextPeriods now (nextTier s now) (rankQueries s now).history.tierPeriod } } : Store) = _
  rw [ranks, periods]
  rfl

end Ranking

section Record

variable (isWorkload : List Char → Bool) (s : Store) (r : Reading)

/-- The queries that a reading leaves in the tables of the tiers. -/
def stays (key : String) : Bool :=
  !(r.systemKeys.filter fun key => key ∉ s.tables.systemQuery).contains key && (!displaces s r || (chosen s r).contains key)

/-- Whether the reading ranks the queries. -/
def reranks : Bool := (loaded isWorkload s r).tiersRankedAt = none || misses s r (loaded isWorkload s r)

/-- Of the ranked queries the reading takes the last ones away, or none. -/
def TakesLast : Prop :=
  ∀ row ∈ s.queryTier.entries, stays s r row.1 = true → ∀ other ∈ s.queryTier.entries, stays s r other.1 = false →
    row.2 < other.2

/-- The readings and rankings that leave the tiers consistent. -/
inductive Turn
  | record (r : Reading)
  | rank (now : Nat)

def turn (s : Store) : Turn → Store
  | .record r => record isWorkload s r
  | .rank now => rankQueries s now

def Turn.Fits (s : Store) : Turn → Prop
  | .record r => s.tables.enabled = true →
      if reranks isWorkload s r then ¬ Late (loaded isWorkload s r) r.ts else TakesLast s r
  | .rank now => ¬ Late s now

variable {isWorkload s r}

theorem loaded_ranks : (loaded isWorkload s r).queryTier = keepKeys (stays s r) s.queryTier := by
  have twice : (loaded isWorkload s r).queryTier = (trimmed s r).queryTier := rfl
  rw [twice]
  unfold trimmed
  simp only
  apply AList.ext
  by_cases some_ : displaces s r = true
  · rw [if_pos some_]
    show List.filter _ (List.filter _ s.queryTier.entries) = List.filter _ s.queryTier.entries
    rw [List.filter_filter]
    apply List.filter_congr
    intro row _
    simp [stays, some_, Bool.and_comm, Bool.or_comm]
  · rw [if_neg some_]
    show List.filter _ s.queryTier.entries = List.filter _ s.queryTier.entries
    apply List.filter_congr
    intro row _
    simp [stays, some_]

theorem loaded_periods : (loaded isWorkload s r).history.tierPeriod =
    s.history.tierPeriod.filter fun p => stays s r p.queryKey := by
  have twice : (loaded isWorkload s r).history.tierPeriod = (trimmed s r).history.tierPeriod := rfl
  rw [twice]
  unfold trimmed
  simp only
  by_cases some_ : displaces s r = true
  · rw [if_pos some_]
    show List.filter _ (List.filter _ s.history.tierPeriod) = _
    rw [List.filter_filter]
    apply List.filter_congr
    intro row _
    simp [stays, some_, Bool.and_comm, Bool.or_comm]
  · rw [if_neg some_]
    show List.filter _ s.history.tierPeriod = _
    apply List.filter_congr
    intro row _
    simp [stays, some_]

theorem periodsOf_loaded (key : String) : periodsOf key (loaded isWorkload s r).history.tierPeriod =
    if stays s r key then periodsOf key s.history.tierPeriod else [] := by
  rw [loaded_periods]
  unfold periodsOf
  rw [List.filter_filter]
  by_cases left : stays s r key = true
  · rw [if_pos left]
    apply List.filter_congr
    intro p _
    by_cases own : p.queryKey = key
    · simp [own, left]
    · simp [own]
  · rw [if_neg left, List.filter_eq_nil_iff]
    intro p _ both
    rw [Bool.and_eq_true, decide_eq_true_eq] at both
    exact left (both.1 ▸ both.2)

theorem loaded_distinct (distinct : ∀ key, Distinct (periodsOf key s.history.tierPeriod)) (key : String) :
    Distinct (periodsOf key (loaded isWorkload s r).history.tierPeriod) := by
  rw [periodsOf_loaded]
  split
  · exact distinct key
  · exact List.Pairwise.nil

theorem loaded_apart (consistent : Consistent s) (key : String) :
    (periodsOf key (loaded isWorkload s r).history.tierPeriod).Pairwise Apart := by
  rw [periodsOf_loaded]
  split
  · exact consistent.apart key
  · exact List.Pairwise.nil

theorem loaded_sound (consistent : Consistent s) (distinct : ∀ key, Distinct (periodsOf key s.history.tierPeriod)) :
    Sound (loaded isWorkload s r) where
  one key := by
    rw [periodsOf_loaded]
    split
    · exact consistent.one key
    · exact ⟨none, rfl, nofun⟩
  apart := loaded_apart consistent
  distinct := loaded_distinct distinct

/-- Without a ranking the tiers stay consistent when the ranks that are left still run from 1 on. -/
theorem loaded_consistent (consistent : Consistent s) : Consistent (loaded isWorkload s r) ↔ TakesLast s r := by
  have ranks : Ranked Sigma.snd (loaded isWorkload s r).queryTier.entries ↔ TakesLast s r := by
    rw [loaded_ranks]
    exact ranked_filter consistent.ranks fun row => stays s r row.1
  constructor
  · exact fun after => ranks.mp after.ranks
  · intro last_
    constructor
    · exact ranks.mpr last_
    · intro key rank ranked
      rw [loaded_ranks, keepKeys_lookup] at ranked
      rw [periodsOf_loaded]
      split at ranked
      · rename_i left
        rw [if_pos left]
        exact consistent.opened key rank ranked
      · exact nomatch ranked
    · intro key absent
      rw [periodsOf_loaded]
      split
      · rename_i left
        apply consistent.closed
        intro there
        apply absent
        rw [mem_keys_iff, loaded_ranks, keepKeys_lookup, if_pos left]
        exact mem_keys_iff.mp there
      · rfl
    · exact loaded_apart consistent

/-- The ranking of a reading, if it has one, is one ranking. -/
theorem tiered_eq (sound : Sound (loaded isWorkload s r)) : tiered isWorkload s r =
    if reranks isWorkload s r then rankQueries (loaded isWorkload s r) r.ts else loaded isWorkload s r := by
  unfold tiered reranks
  simp only
  by_cases first : (loaded isWorkload s r).tiersRankedAt = none
  · rw [if_pos first, rankQueries_again sound, ite_self, first]
    rfl
  · rw [if_neg first, decide_eq_false first, Bool.false_or]

theorem rollup_periods (history : Series.Store) (now preference : Nat) :
    (Series.rollup history now preference).tierPeriod = history.tierPeriod := by
  have level : ∀ history : Series.Store, ∀ src dest,
      (Series.rollupLevel history now src dest).tierPeriod = history.tierPeriod := by
    intro history src dest
    have closing : (Series.closeBuckets history now src dest).tierPeriod = history.tierPeriod := by
      unfold Series.closeBuckets
      simp only
      split <;> rfl
    unfold Series.rollupLevel
    apply List.foldlRecOn (motive := fun after : Series.Store => after.tierPeriod = history.tierPeriod)
    · exact closing
    · exact fun _ same _ _ => same
  unfold Series.rollup
  show (Series.levels.foldl _ history).tierPeriod = _
  apply List.foldlRecOn (motive := fun after : Series.Store => after.tierPeriod = history.tierPeriod)
  · rfl
  · exact fun after same next _ => (level after _ _).trans same

theorem record_tiers (enabled : s.tables.enabled = true) :
    (record isWorkload s r).queryTier = (tiered isWorkload s r).queryTier ∧
      (record isWorkload s r).history.tierPeriod = (tiered isWorkload s r).history.tierPeriod := by
  unfold record
  rw [if_neg (by rw [enabled]; exact Bool.false_ne_true)]
  exact ⟨rfl, rollup_periods _ _ _⟩

theorem consistent_congr {other : Store} (ranks : other.queryTier = s.queryTier)
    (periods : other.history.tierPeriod = s.history.tierPeriod) : Consistent other ↔ Consistent s := by
  constructor
  · intro consistent
    obtain ⟨a, b, c, d⟩ := consistent
    rw [ranks] at a b c
    rw [periods] at b c d
    exact ⟨a, b, c, d⟩
  · intro consistent
    obtain ⟨a, b, c, d⟩ := consistent
    rw [← ranks] at a b c
    rw [← periods] at b c d
    exact ⟨a, b, c, d⟩

/-- A turn leaves consistent tiers consistent just when it fits. -/
theorem turn_consistent (consistent : Consistent s) (distinct : ∀ key, Distinct (periodsOf key s.history.tierPeriod))
    (next : Turn) : Consistent (turn isWorkload s next) ↔ next.Fits isWorkload s := by
  cases next with
  | rank now => exact rank_consistent (consistent.sound distinct)
  | record r =>
    cases enabled : s.tables.enabled with
    | false =>
      have off : record isWorkload s r = s := by
        unfold record
        rw [enabled]
        rfl
      show Consistent (record isWorkload s r) ↔ (s.tables.enabled = true → _)
      rw [off, enabled]
      exact ⟨fun _ => nofun, fun _ => consistent⟩
    | true =>
      obtain ⟨ranks, periods⟩ := record_tiers enabled
      have sound : Sound (loaded isWorkload s r) := loaded_sound consistent distinct
      show Consistent (record isWorkload s r) ↔ (s.tables.enabled = true → _)
      rw [consistent_congr ranks periods, tiered_eq sound, enabled]
      simp only [forall_const]
      split
      · exact rank_consistent sound
      · exact loaded_consistent consistent

theorem turn_distinct (consistent : Consistent s) (distinct : ∀ key, Distinct (periodsOf key s.history.tierPeriod))
    (next : Turn) (key : String) : Distinct (periodsOf key (turn isWorkload s next).history.tierPeriod) := by
  cases next with
  | rank now => exact rank_distinct distinct key
  | record r =>
    show Distinct (periodsOf key (record isWorkload s r).history.tierPeriod)
    cases enabled : s.tables.enabled with
    | false =>
      unfold record
      rw [enabled]
      exact distinct key
    | true =>
      have sound : Sound (loaded isWorkload s r) := loaded_sound consistent distinct
      rw [(record_tiers enabled).2, tiered_eq sound]
      split
      · exact rank_distinct (loaded_distinct distinct) key
      · exact loaded_distinct distinct key

/-- A store without tiers yet. -/
def untiered (s : Store) : Store := { s with queryTier := ∅, history := { s.history with tierPeriod := [] } }

theorem untiered_consistent : Consistent (untiered s) where
  ranks := List.Perm.nil
  opened _ _ ranked := nomatch ranked
  closed _ _ := rfl
  apart _ := List.Pairwise.nil

end Record

open Machine in
/-- The tiers are consistent after every turn just when every turn fits the state that it finds. -/
theorem tiers_consistent_iff (isWorkload : List Char → Bool) (s : Store) (turns : List Turn) :
    Consistent (untiered s) ∧
      (EveryTurn (turn isWorkload) (fun s next => Consistent (turn isWorkload s next)) (untiered s) turns ↔
        EveryTurn (turn isWorkload) (fun s next => next.Fits isWorkload s) (untiered s) turns) := by
  apply And.intro untiered_consistent
  have run : ∀ {s : Store}, Consistent s → (∀ key, Distinct (periodsOf key s.history.tierPeriod)) →
      (EveryTurn (turn isWorkload) (fun s next => Consistent (turn isWorkload s next)) s turns ↔
        EveryTurn (turn isWorkload) (fun s next => next.Fits isWorkload s) s turns) := by
    induction turns with
    | nil => exact fun _ _ => Iff.rfl
    | cons next rest ih =>
      intro s consistent distinct
      have first : Consistent (turn isWorkload s next) ↔ next.Fits isWorkload s :=
        turn_consistent consistent distinct next
      have later : ∀ key, Distinct (periodsOf key (turn isWorkload s next).history.tierPeriod) :=
        turn_distinct consistent distinct next
      constructor
      · exact fun all => ⟨first.mp all.1, (ih all.1 later).mp all.2⟩
      · exact fun all => ⟨first.mpr all.1, (ih (first.mpr all.1) later).mpr all.2⟩
  exact run untiered_consistent fun _ => List.Pairwise.nil

/-- Two queries are read; a minute later the heavier one is recognised as a system query. -/
def recognised : List Turn :=
  let counters : ℚ → Series.Counters := fun ms => ⟨1, ms, 1, 0, 0, 0⟩
  [.record ⟨"collector", 60, [("begin", counters 2), ("orders", counters 1)], ∅, [], [], [], false, none, true, 7⟩,
    .record ⟨"collector", 120, [("orders", counters 1)], ∅, [], [], ["begin"], false, none, true, 7⟩]

/-- The query that is left keeps the second rank. -/
theorem recognised_not_consistent :
    ¬ Consistent (recognised.foldl (turn fun _ => true) (untiered ⟨Tables.empty, [], ∅, none, Series.Store.empty⟩)) := by
  intro consistent
  have ranks : ¬ ([2] : List Nat).Perm (List.range' 1 1) := by decide
  apply ranks
  have run := consistent.ranks
  have left : (recognised.foldl (turn fun _ => true)
      (untiered ⟨Tables.empty, [], ∅, none, Series.Store.empty⟩)).queryTier.entries = [⟨"orders", 2⟩] := by decide +kernel
  rw [left] at run
  exact run

end Rdst.Monitor.Ranking
