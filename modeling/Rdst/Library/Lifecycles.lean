import Mathlib.Algebra.Order.Ring.Unbundled.Rat
import Mathlib.Data.Char
import Mathlib.Data.List.Induction
import Mathlib.Data.List.Lex
import Mathlib.Data.Prod.Lex
import Rdst.Lib.Assoc
import Rdst.Lib.Extremes
import Rdst.Lib.Letters
import Rdst.Library.Identity

namespace Rdst.Library.Lifecycles

open Assoc Extremes

abbrev Text := List Char

inductive EarliestColumn
  | firstObservedAt
  | reviewedAt
  | savedAt
deriving DecidableEq

inductive LatestColumn
  | lastObservedAt
  | lastAnalyzedAt
  | lastComparedAt
deriving DecidableEq

inductive CountColumn
  | analysisCount
  | comparisonCount
deriving DecidableEq

/-- What a target has seen of a query. A stamp that is missing is empty, and a counter that is missing is zero. -/
structure Lifecycle where
  earliest : EarliestColumn → Text
  latest : LatestColumn → Text
  counts : CountColumn → Int
  sources : List Text
  extra : Dict Text Text

inductive TextColumn
  | sql
  | tag
  | originalSql
  | question
  | source
  | lastTarget
  | askTarget
  | readysetQueryId
  | readysetSupported
  | lastCacheTarget
  | readysetLastObservedAt

inductive IntColumn
  | frequency
  | observationCount

inductive RealColumn
  | maxDurationMs
  | avgDurationMs

inductive JsonColumn
  | parameters
  | mostRecentParams

structure Entry where
  texts : TextColumn → Text
  firstAnalyzed : Text
  lastAnalyzed : Text
  ints : IntColumn → Int
  reals : RealColumn → ℚ
  jsons : JsonColumn → Dict Text Text
  targetLifecycle : Dict Text Lifecycle
  extra : Dict Text Text

/-- The earliest of the timestamps that are not empty. -/
def earliest (timestamps : List Text) : Text :=
  match timestamps.filter (· ≠ []) with
  | [] => []
  | first :: rest => rest.foldl min first

def latest (timestamps : List Text) : Text :=
  match timestamps.filter (· ≠ []) with
  | [] => []
  | first :: rest => rest.foldl max first

/-- Add the entries of a mapping whose keys are missing. -/
def setDefaults (base other : Dict Text Text) : Dict Text Text :=
  forItems other base fun dict key value => if (dict.lookup key).isSome then dict else dict.insert key value

def mergeSources (base other : List Text) : List Text :=
  other.foldl (fun sources source => if source ∈ sources then sources else sources ++ [source]) base

def mergeLifecycle (base other : Lifecycle) : Lifecycle where
  earliest column := Lifecycles.earliest [base.earliest column, other.earliest column]
  latest column := Lifecycles.latest [base.latest column, other.latest column]
  counts column := max (base.counts column) (other.counts column)
  sources := mergeSources base.sources other.sources
  extra := setDefaults base.extra other.extra

/-- A target's lifecycle in two entries. -/
def unite (base other : Option Lifecycle) : Option Lifecycle :=
  match other with
  | none => base
  | some lifecycle => some (match base with
    | some base => mergeLifecycle base lifecycle
    | none => lifecycle)

/-- The lifecycles of both, those of a target of both merged. -/
def mergeLifecycles (lifecycles other : Dict Text Lifecycle) : Dict Text Lifecycle :=
  forItems other lifecycles fun merged target lifecycle =>
    match merged.lookup target with
    | some base => merged.insert target (mergeLifecycle base lifecycle)
    | none => merged.insert target lifecycle

def mergeIdentity (survivor other : Entry) : Entry where
  texts column := if survivor.texts column = [] then other.texts column else survivor.texts column
  firstAnalyzed := earliest [survivor.firstAnalyzed, other.firstAnalyzed]
  lastAnalyzed := latest [survivor.lastAnalyzed, other.lastAnalyzed]
  ints column := max (survivor.ints column) (other.ints column)
  reals column := max (survivor.reals column) (other.reals column)
  jsons column := if (survivor.jsons column).entries = [] then other.jsons column else survivor.jsons column
  targetLifecycle := mergeLifecycles survivor.targetLifecycle other.targetLifecycle
  extra := setDefaults survivor.extra other.extra

/-- How much a user has invested in an entry. -/
def curationRank (entry : Entry) : ℕ ×ₗ ℤ ×ₗ ℕ ×ₗ ℕ :=
  let lifecycles := entry.targetLifecycle.entries.map Sigma.snd
  let saved := lifecycles.any fun lifecycle => lifecycle.earliest .savedAt ≠ []
  let analyzed := (lifecycles.map fun lifecycle => lifecycle.counts .analysisCount + lifecycle.counts .comparisonCount).sum
  let hasParams := (entry.jsons .mostRecentParams).entries ≠ [] ∨ (entry.jsons .parameters).entries ≠ []
  let curatedMeta := entry.texts .tag ≠ [] ∨ entry.texts .question ≠ [] ∨ entry.texts .readysetQueryId ≠ []
  toLex (saved.toNat, toLex (analyzed, toLex ((decide hasParams).toNat, (decide curatedMeta).toNat)))

/-- How duplicates are ordered and merged; `drop` is what is done to a row that stands on the hash they move to. -/
def curation (drop : Entry → Entry) : Curation Entry (ℕ ×ₗ ℤ ×ₗ ℕ ×ₗ ℕ) := ⟨curationRank, mergeIdentity, drop⟩

/-- What the lifecycles of a target unite to, as texts: the first and the last stamps, the largest counters and all sources. -/
structure Told (lives : List Lifecycle) (united : Lifecycle) : Prop where
  earliest : ∀ column, Picks (· ≤ ·) [] (lives.map fun live => live.earliest column) (united.earliest column)
  latest : ∀ column, Picks (fun x y => y ≤ x) [] (lives.map fun live => live.latest column) (united.latest column)
  counts : ∀ column, (∃ live ∈ lives, live.counts column = united.counts column) ∧
    ∀ live ∈ lives, live.counts column ≤ united.counts column
  sources : ∀ source, source ∈ united.sources ↔ ∃ live ∈ lives, source ∈ live.sources

def Tells (lives : List Lifecycle) : Option Lifecycle → Prop
  | none => lives = []
  | some united => lives ≠ [] ∧ Told lives united

section Merging

variable {lives more : List Lifecycle} {a b : Lifecycle}

theorem earliest_picks (a b : Text) : Picks (· ≤ ·) [] [a, b] (earliest [a, b]) := by
  by_cases first : a = []
  · by_cases second : b = []
    · exact .inl ⟨by simp [earliest, first, second], by simp [first, second]⟩
    · refine .inr ?_
      simp [earliest, first, second]
  · by_cases second : b = []
    · refine .inr ?_
      simp [earliest, first, second]
    · have least : earliest [a, b] = min a b := by simp [earliest, first, second]
      rw [least]
      refine .inr ⟨?_, ?_, ?_⟩
      · rcases min_choice a b with same | same <;> rw [same] <;> assumption
      · rcases min_choice a b with same | same <;> simp [same]
      · intro x member _
        rcases List.mem_cons.mp member with rfl | member
        · exact min_le_left _ _
        · rw [List.mem_singleton.mp member]
          exact min_le_right _ _

theorem latest_picks (a b : Text) : Picks (fun x y => y ≤ x) [] [a, b] (latest [a, b]) := by
  by_cases first : a = []
  · by_cases second : b = []
    · exact .inl ⟨by simp [latest, first, second], by simp [first, second]⟩
    · refine .inr ?_
      simp [latest, first, second]
  · by_cases second : b = []
    · refine .inr ?_
      simp [latest, first, second]
    · have greatest : latest [a, b] = max a b := by simp [latest, first, second]
      rw [greatest]
      refine .inr ⟨?_, ?_, ?_⟩
      · rcases max_choice a b with same | same <;> rw [same] <;> assumption
      · rcases max_choice a b with same | same <;> simp [same]
      · intro x member _
        rcases List.mem_cons.mp member with rfl | member
        · exact le_max_left _ _
        · rw [List.mem_singleton.mp member]
          exact le_max_right _ _

theorem mem_mergeSources {base other : List Text} {source : Text} :
    source ∈ mergeSources base other ↔ source ∈ base ∨ source ∈ other := by
  unfold mergeSources
  induction other generalizing base with
  | nil => simp
  | cons first rest ih =>
    rw [List.foldl_cons, ih, List.mem_cons]
    split
    · rename_i known
      constructor
      · rintro (old | later)
        · exact .inl old
        · exact .inr (.inr later)
      · rintro (old | rfl | later)
        · exact .inl old
        · exact .inl known
        · exact .inr later
    · rw [List.mem_append, List.mem_singleton, or_assoc]

theorem mergeLifecycles_lookup (lifecycles other : Dict Text Lifecycle) (target : Text) :
    (mergeLifecycles lifecycles other).lookup target = unite (lifecycles.lookup target) (other.lookup target) := by
  have own (merged : Dict Text Lifecycle) (target : Text) (lifecycle : Lifecycle) :
      (match merged.lookup target with
        | some base => merged.insert target (mergeLifecycle base lifecycle)
        | none => merged.insert target lifecycle).lookup target =
      some (match merged.lookup target with
        | some base => mergeLifecycle base lifecycle
        | none => lifecycle) := by
    cases merged.lookup target <;> exact AList.lookup_insert merged
  unfold mergeLifecycles
  rw [forItems_lookup]
  · cases other.lookup target with
    | none => rfl
    | some lifecycle => exact own lifecycles target lifecycle
  · constructor
    · intro merged target lifecycle k differs
      cases merged.lookup target <;> exact AList.lookup_insert_ne differs
    · intro merged merged' target lifecycle same
      rw [own, own, same]

theorem Told.single (live : Lifecycle) : Told [live] live where
  earliest _ := Picks.single le_refl _
  latest _ := by
    apply Picks.single
    exact fun x => le_refl x
  counts _ := ⟨⟨live, List.mem_cons_self, rfl⟩, fun other member => by rw [List.mem_singleton.mp member]⟩
  sources source := by simp

theorem Told.join (first : Told lives a) (second : Told more b) : Told (lives ++ more) (mergeLifecycle a b) where
  earliest column := by
    rw [List.map_append]
    refine (first.earliest column).join ?_ (second.earliest column) (earliest_picks _ _)
    exact fun _ _ _ => le_trans
  latest column := by
    rw [List.map_append]
    refine (first.latest column).join ?_ (second.latest column) (latest_picks _ _)
    exact fun _ _ _ one two => le_trans two one
  counts column := by
    have greatest : (mergeLifecycle a b).counts column = max (a.counts column) (b.counts column) := rfl
    rw [greatest]
    obtain ⟨⟨live, member, same⟩, most⟩ := first.counts column
    obtain ⟨⟨live', member', same'⟩, most'⟩ := second.counts column
    constructor
    · rcases max_choice (a.counts column) (b.counts column) with left | right
      · exact ⟨live, List.mem_append_left _ member, by rw [left, same]⟩
      · exact ⟨live', List.mem_append_right _ member', by rw [right, same']⟩
    · intro other inside
      rcases List.mem_append.mp inside with early | late
      · exact (most other early).trans (le_max_left _ _)
      · exact (most' other late).trans (le_max_right _ _)
  sources source := by
    show source ∈ mergeSources a.sources b.sources ↔ _
    rw [mem_mergeSources, first.sources, second.sources]
    simp only [List.mem_append, or_and_right, exists_or]

theorem Told.congr (told : Told lives a) (same : ∀ live, live ∈ lives ↔ live ∈ more) : Told more a where
  earliest column := (told.earliest column).congr fun x => by simp only [List.mem_map, same]
  latest column := (told.latest column).congr fun x => by simp only [List.mem_map, same]
  counts column := by
    have counted := told.counts column
    simpa only [same] using counted
  sources source := by rw [told.sources]; simp only [same]

/-- The lifecycles of a target in some entries. -/
def livesOf (target : Text) (entries : List Entry) : List Lifecycle :=
  entries.filterMap fun entry => entry.targetLifecycle.lookup target

theorem tells_united {first second : Option Lifecycle} (told : Tells lives first) (also : Tells more second) :
    Tells (lives ++ more) (unite first second) := by
  cases second with
  | none =>
    obtain rfl : more = [] := also
    rw [List.append_nil]
    exact told
  | some b =>
    cases first with
    | none =>
      obtain rfl : lives = [] := told
      exact also
    | some a => exact ⟨by simp [told.1], told.2.join also.2⟩

theorem tells_folded (target : Text) (start : Entry) (rest : List Entry) :
    Tells (livesOf target (start :: rest)) ((rest.foldl mergeIdentity start).targetLifecycle.lookup target) := by
  have one (entry : Entry) : Tells (livesOf target [entry]) (entry.targetLifecycle.lookup target) := by
    unfold livesOf
    cases found : entry.targetLifecycle.lookup target with
    | none => simp [Tells, found]
    | some live => simpa [Tells, found] using Told.single live
  induction rest using List.reverseRecOn with
  | nil => exact one start
  | append_singleton rest last ih =>
    have apart : livesOf target (start :: (rest ++ [last])) = livesOf target (start :: rest) ++ livesOf target [last] := by
      rw [← List.cons_append]
      exact List.filterMap_append
    rw [apart, List.foldl_append]
    show Tells _ ((mergeLifecycles _ last.targetLifecycle).lookup target)
    rw [mergeLifecycles_lookup]
    exact tells_united ih (one last)

end Merging

/-- The first stamp by the instants that the stamps are read as, or none. -/
def First (instant : Text → ℚ) (stamps : List Text) (stamp : Text) : Prop :=
  Picks (fun a b => instant a ≤ instant b) [] stamps stamp

def Last (instant : Text → ℚ) (stamps : List Text) (stamp : Text) : Prop :=
  Picks (fun a b => instant b ≤ instant a) [] stamps stamp

/-- The lifecycle that duplicates ought to have for a target together. -/
structure Unites (instant : Text → ℚ) (lives : List Lifecycle) (united : Lifecycle) : Prop where
  earliest : ∀ column, First instant (lives.map fun live => live.earliest column) (united.earliest column)
  latest : ∀ column, Last instant (lives.map fun live => live.latest column) (united.latest column)
  counts : ∀ column, (∃ live ∈ lives, live.counts column = united.counts column) ∧
    ∀ live ∈ lives, live.counts column ≤ united.counts column
  sources : ∀ source, source ∈ united.sources ↔ ∃ live ∈ lives, source ∈ live.sources

def contents (members : List (Identity Entry)) : List Entry := members.map Identity.content

/-- The merged entry has a lifecycle for exactly the targets that a member has one for, and it is the right one. -/
def Merges (instant : Text → ℚ) (members : List (Identity Entry)) (merged : Entry) : Prop :=
  ∀ target, match merged.targetLifecycle.lookup target with
    | none => livesOf target (contents members) = []
    | some united => livesOf target (contents members) ≠ [] ∧ Unites instant (livesOf target (contents members)) united

/-- Two lifecycles that differ in the order of their sources and in other fields at most. -/
def Lifecycle.Same (a b : Lifecycle) : Prop :=
  a.earliest = b.earliest ∧ a.latest = b.latest ∧ a.counts = b.counts ∧ ∀ source, source ∈ a.sources ↔ source ∈ b.sources

def SameLifecycles (a b : Entry) : Prop :=
  ∀ target, match a.targetLifecycle.lookup target, b.targetLifecycle.lookup target with
    | none, none => True
    | some one, some two => one.Same two
    | _, _ => False

/-- In every column of every target, the stamp that comes first as a text is the first in time, and the last the last. -/
structure TextsTell (instant : Text → ℚ) (members : List (Identity Entry)) : Prop where
  earliest : ∀ target column, ∀ stamp ∈ (livesOf target (contents members)).map fun live => live.earliest column, stamp ≠ [] →
    (∀ other ∈ (livesOf target (contents members)).map fun live => live.earliest column, other ≠ [] → stamp ≤ other) →
      ∀ other ∈ (livesOf target (contents members)).map fun live => live.earliest column, other ≠ [] →
        instant stamp ≤ instant other
  latest : ∀ target column, ∀ stamp ∈ (livesOf target (contents members)).map fun live => live.latest column, stamp ≠ [] →
    (∀ other ∈ (livesOf target (contents members)).map fun live => live.latest column, other ≠ [] → other ≤ stamp) →
      ∀ other ∈ (livesOf target (contents members)).map fun live => live.latest column, other ≠ [] →
        instant other ≤ instant stamp

section Groups

variable {drop : Entry → Entry} {instant : Text → ℚ} {members order : List (Identity Entry)} {merged : Entry}

theorem survivorOf_mem {survivor : Identity Entry} (found : survivorOf (curation drop) members = some survivor) :
    survivor ∈ members := by
  cases members with
  | nil => cases found
  | cons first rest =>
    cases found
    induction rest using List.reverseRecOn with
    | nil => exact List.mem_cons_self
    | append_singleton rest last ih =>
      rw [List.foldl_append, List.foldl_cons, List.foldl_nil]
      split
      · simp
      · rcases List.mem_cons.mp ih with same | later
        · rw [same]
          exact List.mem_cons_self
        · exact List.mem_cons_of_mem _ (List.mem_append_left _ later)

/-- Whatever the order, the merged entry has what the texts tell. -/
theorem mergeMembers_tells (distinct : (order.map Identity.id).Nodup)
    (found : mergeMembers (curation drop) order = some merged) (target : Text) :
    Tells (livesOf target (contents order)) (merged.targetLifecycle.lookup target) := by
  obtain ⟨survivor, chosen, rfl⟩ := Option.map_eq_some_iff.mp found
  have member := survivorOf_mem chosen
  have folded := tells_folded target survivor.content
    ((order.filter fun member => member.id ≠ survivor.id).map Identity.content)
  have same (entry : Entry) : entry ∈ survivor.content :: (order.filter fun member => member.id ≠ survivor.id).map
      Identity.content ↔ entry ∈ contents order := by
    unfold contents
    rw [List.mem_cons, List.mem_map, List.mem_map]
    constructor
    · rintro (rfl | ⟨other, inside, rfl⟩)
      · exact ⟨survivor, member, rfl⟩
      · exact ⟨other, List.mem_of_mem_filter inside, rfl⟩
    · rintro ⟨other, inside, rfl⟩
      by_cases own : other.id = survivor.id
      · rw [eq_of_nodup_map distinct inside member own]
        exact .inl rfl
      · exact .inr ⟨other, List.mem_filter.mpr ⟨inside, by simpa using own⟩, rfl⟩
  have lives (live : Lifecycle) : live ∈ livesOf target (survivor.content :: (order.filter fun member =>
      member.id ≠ survivor.id).map Identity.content) ↔ live ∈ livesOf target (contents order) := by
    unfold livesOf
    simp only [List.mem_filterMap, same]
  rw [List.foldl_map] at folded
  show Tells _ ((List.foldl (fun merged (member : Identity Entry) => mergeIdentity merged member.content) survivor.content _).targetLifecycle.lookup
    target)
  cases united : (List.foldl (fun merged (member : Identity Entry) => mergeIdentity merged member.content) survivor.content
      (order.filter fun member => member.id ≠ survivor.id)).targetLifecycle.lookup target with
  | none =>
    rw [united] at folded
    apply List.eq_nil_iff_forall_not_mem.mpr
    intro live inside
    have empty : livesOf target (survivor.content :: _) = [] := folded
    rw [← lives live, empty] at inside
    cases inside
  | some live =>
    rw [united] at folded
    refine ⟨?_, folded.2.congr lives⟩
    obtain ⟨first, inside⟩ := List.exists_mem_of_ne_nil _ folded.1
    exact List.ne_nil_of_mem ((lives first).mp inside)

theorem tells_perm (perm : order.Perm members) {target : Text} {found : Option Lifecycle}
    (tells : Tells (livesOf target (contents order)) found) : Tells (livesOf target (contents members)) found := by
  have lives : (livesOf target (contents order)).Perm (livesOf target (contents members)) :=
    (perm.map Identity.content).filterMap _
  cases found with
  | none =>
    have empty : livesOf target (contents order) = [] := tells
    rw [empty] at lives
    exact lives.nil_eq.symm
  | some united =>
    refine ⟨fun empty => tells.1 ?_, tells.2.congr fun live => lives.mem_iff⟩
    rw [empty] at lives
    exact lives.eq_nil

theorem Told.same {lives : List Lifecycle} {a b : Lifecycle} (first : Told lives a) (second : Told lives b) : a.Same b := by
  refine ⟨?_, ?_, ?_, fun source => (first.sources source).trans (second.sources source).symm⟩
  · funext column
    apply Picks.unique _ (first.earliest column) (second.earliest column)
    exact fun _ _ => le_antisymm
  · funext column
    apply Picks.unique _ (first.latest column) (second.latest column)
    exact fun _ _ one two => le_antisymm two one
  · funext column
    obtain ⟨⟨live, member, same⟩, most⟩ := first.counts column
    obtain ⟨⟨live', member', same'⟩, most'⟩ := second.counts column
    have up := most' live member
    have down := most live' member'
    rw [same] at up
    rw [same'] at down
    exact le_antisymm up down

theorem same_lifecycles {a b : Entry} (first : ∀ target, Tells (livesOf target (contents members)) (a.targetLifecycle.lookup target))
    (second : ∀ target, Tells (livesOf target (contents members)) (b.targetLifecycle.lookup target)) : SameLifecycles a b := by
  intro target
  have one := first target
  have two := second target
  cases left : a.targetLifecycle.lookup target with
  | none =>
    rw [left] at one
    cases right : b.targetLifecycle.lookup target with
    | none => trivial
    | some live =>
      rw [right] at two
      exact absurd one two.1
  | some live =>
    rw [left] at one
    cases right : b.targetLifecycle.lookup target with
    | none =>
      rw [right] at two
      exact absurd two one.1
    | some live' =>
      rw [right] at two
      exact one.2.same two.2

/-- A stamp that is first as a text is first in time, if the texts tell. -/
theorem picks_instant {before later : Text → Text → Prop} {stamps : List Text} {stamp : Text}
    (picks : Picks before [] stamps stamp) (tell : ∀ stamp ∈ stamps, stamp ≠ [] →
      (∀ other ∈ stamps, other ≠ [] → before stamp other) → ∀ other ∈ stamps, other ≠ [] → later stamp other) :
    Picks later [] stamps stamp :=
  picks.imp_right fun found => ⟨found.1, found.2.1, tell stamp found.2.1 found.1 found.2.2⟩

theorem instant_picks {before later : Text → Text → Prop} {stamps : List Text} {chosen : Text}
    (antisymm : ∀ x y, before x y → before y x → x = y)
    (picks : Picks before [] stamps chosen) (instants : Picks later [] stamps chosen) :
    ∀ stamp ∈ stamps, stamp ≠ [] → (∀ other ∈ stamps, other ≠ [] → before stamp other) →
      ∀ other ∈ stamps, other ≠ [] → later stamp other := by
  intro stamp member some_ least
  have equal : stamp = chosen := Picks.unique antisymm (.inr ⟨some_, member, least⟩) picks
  subst equal
  exact (instants.resolve_left fun none_ => some_ none_.1).2.2

/-- The group's order is of no account, and the merged stamps are the earliest and latest where the texts tell. -/
theorem duplicate_merge_iff (drop : Entry → Entry) (instant : Text → ℚ) (members : List (Identity Entry))
    (distinct : (members.map Identity.id).Nodup) :
    (∀ order order', order.Perm members → order'.Perm members → ∀ merged merged',
      mergeMembers (curation drop) order = some merged → mergeMembers (curation drop) order' = some merged' →
        SameLifecycles merged merged') ∧
    ((∀ order, order.Perm members → ∀ merged, mergeMembers (curation drop) order = some merged →
      Merges instant members merged) ↔ TextsTell instant members) := by
  have told (order : List (Identity Entry)) (perm : order.Perm members) (merged : Entry)
      (found : mergeMembers (curation drop) order = some merged) (target : Text) :
      Tells (livesOf target (contents members)) (merged.targetLifecycle.lookup target) :=
    tells_perm perm (mergeMembers_tells ((perm.map Identity.id).nodup_iff.mpr distinct) found target)
  refine ⟨?_, ?_, ?_⟩
  · intro order order' perm perm' merged merged' found found'
    exact same_lifecycles (told order perm merged found) (told order' perm' merged' found')
  · intro merges
    cases members with
    | nil => exact ⟨fun _ _ _ member => (nomatch member), fun _ _ _ member => (nomatch member)⟩
    | cons first rest =>
      obtain ⟨merged, found⟩ := mergeMembers_isSome (curation drop) (List.cons_ne_nil first rest)
      have right := merges _ (List.Perm.refl _) merged found
      have tells := told _ (List.Perm.refl _) merged found
      constructor
      · intro target column
        have here := right target
        have there := tells target
        cases united : merged.targetLifecycle.lookup target with
        | none =>
          rw [united] at there
          have empty : livesOf target (contents (first :: rest)) = [] := there
          rw [empty]
          exact fun _ member => nomatch member
        | some live =>
          rw [united] at here there
          exact instant_picks (fun _ _ => le_antisymm) (there.2.earliest column) (here.2.earliest column)
      · intro target column
        have here := right target
        have there := tells target
        cases united : merged.targetLifecycle.lookup target with
        | none =>
          rw [united] at there
          have empty : livesOf target (contents (first :: rest)) = [] := there
          rw [empty]
          exact fun _ member => nomatch member
        | some live =>
          rw [united] at here there
          exact instant_picks (fun _ _ one two => le_antisymm two one) (there.2.latest column) (here.2.latest column)
  · intro tell order perm merged found target
    have tells := told order perm merged found target
    cases united : merged.targetLifecycle.lookup target with
    | none =>
      rw [united] at tells
      exact tells
    | some live =>
      rw [united] at tells
      exact ⟨tells.1, ⟨fun column => picks_instant (tells.2.earliest column) (tell.earliest target column),
        fun column => picks_instant (tells.2.latest column) (tell.latest target column), tells.2.counts, tells.2.sources⟩⟩

/-- An entry of which one target has seen nothing but a first observation. -/
def observedAt (stamp : Text) : Entry where
  texts _ := []
  firstAnalyzed := []
  lastAnalyzed := []
  ints _ := 0
  reals _ := 0
  jsons _ := ∅
  targetLifecycle := (∅ : Dict Text Lifecycle).insert "shop".toList
    ⟨fun column => if column = .firstObservedAt then stamp else [], fun _ => [], fun _ => 0, [], ∅⟩
  extra := ∅

def duplicates (first second : String) : List (Identity Entry) :=
  [⟨1, "a1", observedAt first.toList, []⟩, ⟨2, "b2", observedAt second.toList, []⟩]

/-- The seconds of a day in a stamp of that day, `…T00:00:01.5Z`, with a fraction where there is one. -/
def secondsOf (stamp : Text) : ℚ :=
  let digits := fun text : Text => (text.filter Char.isDigit).foldl (fun (n : Nat) c => n * 10 + (c.toNat - 48)) 0
  let fraction := (stamp.drop 20).filter Char.isDigit
  let seconds := digits ((stamp.drop 11).take 2) * 3600 + digits ((stamp.drop 14).take 2) * 60 + digits ((stamp.drop 17).take 2)
  (seconds : ℚ) + (digits fraction : ℚ) / 10 ^ fraction.length

theorem duplicate_merge_seconds :
    SameLifecycles (mergeIdentity (observedAt "2026-01-01T00:00:01Z".toList) (observedAt "2026-01-01T00:00:02Z".toList))
      (mergeIdentity (observedAt "2026-01-01T00:00:01Z".toList) (observedAt "2026-01-01T00:00:02Z".toList)) :=
  (duplicate_merge_iff id secondsOf (duplicates "2026-01-01T00:00:01Z" "2026-01-01T00:00:02Z") (by decide)).1 _ _
    (List.Perm.refl _) (List.Perm.swap _ _ _) _ _ rfl rfl

/-- A stamp without a fraction comes after all stamps of its second as a text, and before them in time. -/
theorem later_stamp_kept : ∃ merged,
    mergeMembers (curation id) (duplicates "2026-01-01T00:00:00Z" "2026-01-01T00:00:00.500000Z") = some merged ∧
      ¬ Merges secondsOf (duplicates "2026-01-01T00:00:00Z" "2026-01-01T00:00:00.500000Z") merged := by
  refine ⟨_, rfl, ?_⟩
  intro merges
  have right : _ ∧ Unites secondsOf _ _ := merges "shop".toList
  rcases right.2.earliest .firstObservedAt with ⟨empty, -⟩ | ⟨-, -, least⟩
  · exact absurd empty (by decide +kernel)
  · exact absurd (least "2026-01-01T00:00:00Z".toList (by decide +kernel) (by decide)) (by decide +kernel)

end Groups

end Rdst.Library.Lifecycles
