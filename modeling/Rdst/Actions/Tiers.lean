import Mathlib.Data.List.Flatten
import Mathlib.Data.List.Sort
import Mathlib.Data.Prod.Lex
import Mathlib.Data.String.Basic
import Rdst.Actions.Store
import Rdst.Lib.Double
import Rdst.Lib.PyText

namespace Rdst.Actions

open Assoc PyText Float64

def doFirstScore : ℚ := nearest (1 / 10)

def doFirstMax : Nat := 3

def thenMinMsPerMin : ℚ := 1

def laterShareOfTop : ℚ := nearest (1 / 5)

def writeHeavy : ℚ := 20

inductive Tier
  | first
  | next
  | later
  deriving DecidableEq

def Tier.index : Tier → Nat
  | .first => 0
  | .next => 1
  | .later => 2

/-- What applying a change risks, the lowest first. -/
inductive Risk
  | nothing
  | writes
  | locks
  | restart
  deriving DecidableEq

def Risk.index : Risk → Nat
  | .nothing => 0
  | .writes => 1
  | .locks => 2
  | .restart => 3

inductive Effort
  | copySql
  | setting
  | code
  deriving DecidableEq

def Effort.index : Effort → Nat
  | .copySql => 0
  | .setting => 1
  | .code => 2

/-- The part of a payload that `risk` reads. -/
structure Applying where
  restart : Bool
  configRestart : Bool
  writesPerS : ℚ
  peakWritesPerS : ℚ
  hotRisk : Bool
  sql : List Char

section Risk

variable (tables : Tables)

/-- `" ".join(statement.upper().split())`. -/
def normalized (statement : List Char) : List Char :=
  [' '].intercalate (((upper tables statement).splitOnP isSpace).filter fun word => !word.isEmpty)

def startsWith (openings : List String) (text : List Char) : Bool :=
  openings.any fun opening => opening.toList.isPrefixOf text

/-- `_locks`. -/
def locks (sql : List Char) : Bool :=
  (sql.splitOn ';').any fun statement =>
    let text := normalized tables statement
    (startsWith ["CREATE INDEX", "CREATE UNIQUE INDEX", "DROP INDEX", "REINDEX"] text &&
        (afterFirst "CONCURRENTLY".toList text).isNone) ||
      startsWith ["CLUSTER", "LOCK ", "OPTIMIZE TABLE"] text ||
      (startsWith ["VACUUM"] text &&
        (Regex.search (Regex.sequence [wordEdge tables, PyText.text "FULL", wordEdge tables]) text).isSome)

def risk (type : ActionType) (applying : Applying) : Risk :=
  match type with
  | .changeSetting => if applying.restart || applying.configRestart then .restart else .nothing
  | .addIndex =>
    if writeHeavy ≤ Max.max applying.writesPerS (applying.peakWritesPerS / 2) || applying.hotRisk then .writes
    else .nothing
  | .dropIndex | .runMaintenance => if locks tables applying.sql then .locks else .nothing
  | .rewriteQuery | .tryCaching => .nothing

end Risk

def effort : ActionType → Effort
  | .addIndex | .dropIndex | .runMaintenance => .copySql
  | .changeSetting => .setting
  | .rewriteQuery | .tryCaching => .code

/-- The part of a card by which it is ranked and tiered. -/
structure Card where
  key : String
  database : String
  score : ℚ
  savesMsPerMin : ℚ
  risk : Risk
  effort : Effort
  deriving DecidableEq

/-- `round(float(score) * minute_ms, 1)`. -/
def savesMsPerMin (score minuteMs : ℚ) : ℚ := nearest (roundEven (nearest (score * minuteMs) * 10) / 10)

/-- `_rank_key`. -/
def rankKey (card : Card) : ℚ ×ₗ ℚ ×ₗ Nat ×ₗ Nat ×ₗ String ×ₗ String :=
  toLex (-card.savesMsPerMin, toLex (-card.score, toLex (card.risk.index, toLex (card.effort.index,
    toLex (card.database, card.key)))))

def Before (a b : Card) : Prop := rankKey a ≤ rankKey b

instance : DecidableRel Before := fun a b => inferInstanceAs (Decidable (rankKey a ≤ rankKey b))

/-- The score that a card needs for the first tier, by how many of its database have it. -/
def bar (taken : Nat) : ℚ := if taken = 0 then doFirstScore / 2 else doFirstScore

/-- The loop of `_tiers` over the ranked cards, with the number that each database has in the first tier. -/
def tierLoop (floor : ℚ) : (String → Nat) → List Card → List (Card × Tier)
  | _, [] => []
  | taken, card :: rest =>
    if bar (taken card.database) ≤ card.score ∧ taken card.database < doFirstMax then
      (card, .first) :: tierLoop floor (Function.update taken card.database (taken card.database + 1)) rest
    else (card, if floor ≤ card.savesMsPerMin then .next else .later) :: tierLoop floor taken rest

def topSaved : List Card → ℚ
  | [] => 0
  | card :: rest => rest.foldl (fun top card => Max.max top card.savesMsPerMin) card.savesMsPerMin

/-- `_tiers`: each card with its tier, as they are ranked. -/
def tiers (cards : List Card) : List (Card × Tier) :=
  tierLoop (Max.max thenMinMsPerMin (nearest (laterShareOfTop * topSaved cards))) (fun _ => 0)
    (cards.insertionSort Before)

/-- A database with its actions, the rest of their payloads by key, and the time its queries take a minute. -/
structure Database where
  name : String
  store : Store
  keyed : store.Keyed
  applying : String → Applying
  minuteMs : ℚ
  measured : 0 ≤ minuteMs

section Pages

variable (tables : Tables)

/-- What `do_first_keys` makes of a row. -/
def bareCard (d : Database) (row : ActionRow) : Card where
  key := row.key
  database := ""
  score := row.score
  savesMsPerMin := 0
  risk := risk tables row.type (d.applying row.key)
  effort := effort row.type

/-- `plan_card`. -/
def planCard (d : Database) (row : ActionRow) : Card where
  key := row.key
  database := d.name
  score := row.score
  savesMsPerMin := savesMsPerMin row.score d.minuteMs
  risk := risk tables row.type (d.applying row.key)
  effort := effort row.type

def allStates : List ActionState := [.open, .snoozed, .dismissed, .applied, .confirmed, .noEffect, .retired, .undone]

/-- The cards of a database's open actions. -/
def openCards (d : Database) : List Card :=
  ((d.store.actions allStates).filter fun row => row.state = .open).map (planCard tables d)

/-- The open cards of `plan_cards`, with the tiers that it writes. -/
def planCards (d : Database) : List (Card × Tier) := tiers (openCards tables d)

/-- The open cards of `global_page`, by `_ranked`. -/
def globalPage (databases : List Database) : List (Card × Tier) :=
  (databases.flatMap (planCards tables)).insertionSort fun a b =>
    toLex (a.2.index, rankKey a.1) ≤ toLex (b.2.index, rankKey b.1)

/-- `_tiers` on the open cards of all databases together. -/
def mergedTiers (databases : List Database) : List (Card × Tier) := tiers (databases.flatMap (openCards tables))

/-- `do_first_keys` of a database's open action rows. -/
def doFirstKeys (d : Database) : List String :=
  let cards := (tiers ((d.store.actions [.open]).map (bareCard tables d))).filter fun card => card.2 = .first
  ((cards.map Prod.fst).insertionSort fun a b => toLex (-a.score, a.key) ≤ toLex (-b.score, b.key)).map Card.key

/-- The keys that a page shows in the first tier of a database. -/
def firstKeys (page : List (Card × Tier)) (name : String) : List String :=
  (page.filter fun card => card.1.database = name ∧ card.2 = .first).map fun card => card.1.key

end Pages

section Leading

/-- The cards of one database that come first, of its ranked cards. -/
def leading : Nat → List Card → List Card
  | _, [] => []
  | taken, card :: rest =>
    if bar taken ≤ card.score ∧ taken < doFirstMax then card :: leading (taken + 1) rest else leading taken rest

/-- The loop marks the cards of a database by their own order alone. -/
theorem tierLoop_leading (floor : ℚ) (taken : String → Nat) (cards : List Card) (name : String) :
    ((tierLoop floor taken cards).filter fun card => card.1.database = name ∧ card.2 = .first).map Prod.fst =
      leading (taken name) (cards.filter fun card => card.database = name) := by
  induction cards generalizing taken with
  | nil => rfl
  | cons card rest ih =>
    by_cases own : card.database = name
    · subst own
      simp only [tierLoop, List.filter_cons, decide_true, if_true, leading]
      split
      · have later := ih (Function.update taken card.database (taken card.database + 1))
        rw [Function.update_self] at later
        simp [← later]
      · have tier : (if floor ≤ card.savesMsPerMin then Tier.next else Tier.later) ≠ .first := by
          split <;> exact nofun
        simpa [List.filter_cons, tier] using ih taken
    · simp only [tierLoop, List.filter_cons, own, decide_false, if_false, Bool.false_eq_true]
      split
      · have later := ih (Function.update taken card.database (taken card.database + 1))
        rw [Function.update_of_ne (Ne.symm own)] at later
        simpa [List.filter_cons, own] using later
      · simpa [List.filter_cons, own] using ih taken

theorem leading_map {change : Card → Card} (same : ∀ card, (change card).score = card.score) (taken : Nat)
    (cards : List Card) : (leading taken cards).map change = leading taken (cards.map change) := by
  induction cards generalizing taken with
  | nil => rfl
  | cons card rest ih =>
    simp only [leading, List.map_cons, same]
    split
    · rw [List.map_cons, ih]
    · exact ih taken

theorem leading_length (taken : Nat) (cards : List Card) : (leading taken cards).length ≤ doFirstMax - taken := by
  induction cards generalizing taken with
  | nil => exact Nat.zero_le _
  | cons card rest ih =>
    simp only [leading]
    split
    · rename_i chosen
      have later := ih (taken + 1)
      have room := chosen.2
      rw [List.length_cons]
      omega
    · exact ih taken

/-- The first card that scores half has nothing before it. -/
theorem leading_ne_nil {cards : List Card} {card : Card} (member : card ∈ cards) (scores : bar 0 ≤ card.score) :
    leading 0 cards ≠ [] := by
  induction cards with
  | nil => cases member
  | cons head rest ih =>
    simp only [leading]
    split
    · exact List.cons_ne_nil _ _
    · rename_i low
      rcases List.mem_cons.mp member with rfl | later
      · exact absurd ⟨scores, by decide⟩ low
      · exact ih later

end Leading

section Order

instance : Std.Total Before := ⟨fun a b => le_total (rankKey a) (rankKey b)⟩

instance : IsTrans Card Before := ⟨fun _ _ _ first second => le_trans (α := _ ×ₗ _) first second⟩

def Card.name (card : Card) : String × String := (card.database, card.key)

theorem name_of_rankKey {a b : Card} (same : rankKey a = rankKey b) : a.name = b.name := by
  simp only [rankKey, EmbeddingLike.apply_eq_iff_eq, Prod.mk.injEq] at same
  exact Prod.ext same.2.2.2.2.1 same.2.2.2.2.2

/-- Cards with names of their own have one ranking. -/
theorem ranking_unique {a b : List Card} (once : (a.map Card.name).Nodup) (same : a.Perm b) (ranked : a.Pairwise Before)
    (ranked' : b.Pairwise Before) : a = b := by
  apply List.Perm.eq_of_pairwise _ ranked ranked' same
  intro x y inside inside' first second
  have member := same.mem_iff.mpr inside'
  exact List.inj_on_of_nodup_map once inside member (name_of_rankKey (le_antisymm first second))

theorem filter_ranking {cards : List Card} {test : Card → Bool} (once : ((cards.filter test).map Card.name).Nodup) :
    (cards.insertionSort Before).filter test = (cards.filter test).insertionSort Before := by
  have perm : ((cards.insertionSort Before).filter test).Perm ((cards.filter test).insertionSort Before) :=
    ((List.perm_insertionSort Before cards).filter test).trans (List.perm_insertionSort Before _).symm
  have names := (((List.perm_insertionSort Before cards).filter test).map Card.name).nodup_iff.mpr once
  exact ranking_unique names perm ((List.pairwise_insertionSort Before cards).filter test)
    (List.pairwise_insertionSort Before _)

theorem savesMsPerMin_mono {minuteMs a b : ℚ} (measured : 0 ≤ minuteMs) (ordered : a ≤ b) :
    savesMsPerMin a minuteMs ≤ savesMsPerMin b minuteMs := by
  have product := nearest_mono (mul_le_mul_of_nonneg_right ordered measured)
  have tenths := roundEven_mono (mul_le_mul_of_nonneg_right product (by norm_num : (0 : ℚ) ≤ 10))
  have cast : (roundEven (nearest (a * minuteMs) * 10) : ℚ) ≤ roundEven (nearest (b * minuteMs) * 10) := by
    exact_mod_cast tenths
  exact nearest_mono (div_le_div_of_nonneg_right cast (by norm_num))

/-- On one database time saved orders as the score does. -/
theorem before_bareCard (tables : Tables) (d : Database) (a b : ActionRow) :
    Before (planCard tables d a) (planCard tables d b) ↔ Before (bareCard tables d a) (bareCard tables d b) := by
  simp only [Before, rankKey, planCard, bareCard, Prod.Lex.le_iff, ofLex_toLex, neg_lt_neg_iff, neg_inj, lt_irrefl,
    false_or, true_and]
  rcases lt_trichotomy a.score b.score with lower | same | higher
  · have saves := savesMsPerMin_mono d.measured lower.le
    simp [not_lt.mpr saves, not_lt.mpr lower.le, lower.ne]
  · simp [same]
  · have saves := savesMsPerMin_mono d.measured higher.le
    rcases saves.lt_or_eq with less | equal
    · simp [less, higher]
    · simp [equal, higher]

end Order

section Agree

variable {tables : Tables} {d : Database}

theorem keys_nodup {s : Store} (keyed : s.Keyed) : ((s.rows.entries.map Sigma.snd).map ActionRow.key).Nodup := by
  have own : (s.rows.entries.map Sigma.snd).map ActionRow.key = s.rows.entries.map Sigma.fst := by
    rw [List.map_map]
    apply List.map_congr_left
    intro item member
    exact keyed item.1 item.2 (AList.mem_lookup_iff.mpr member)
  rw [own]
  exact s.rows.nodupKeys

theorem actions_perm (s : Store) (states : List ActionState) :
    (s.actions states).Perm ((s.rows.entries.map Sigma.snd).filter fun row => row.state ∈ states) :=
  List.perm_insertionSort _ _

theorem actions_keys_nodup (d : Database) (states : List ActionState) :
    ((d.store.actions states).map ActionRow.key).Nodup := by
  rw [((actions_perm d.store states).map ActionRow.key).nodup_iff]
  exact (keys_nodup d.keyed).sublist (List.filter_sublist.map _)

/-- The page and the summary start from the same rows. -/
theorem open_rows_perm (d : Database) :
    ((d.store.actions allStates).filter fun row => row.state = .open).Perm (d.store.actions [.open]) := by
  refine ((actions_perm d.store allStates).filter _).trans (List.Perm.trans ?_ (actions_perm d.store [.open]).symm)
  rw [List.filter_filter]
  have same : ((d.store.rows.entries.map Sigma.snd).filter fun row =>
      decide (row.state = .open) && decide (row.state ∈ allStates)) =
      (d.store.rows.entries.map Sigma.snd).filter fun row => decide (row.state ∈ [ActionState.open]) := by
    apply List.filter_congr
    intro row _
    cases row.state <;> decide
  rw [same]

theorem openCards_database {card : Card} (member : card ∈ openCards tables d) : card.database = d.name := by
  obtain ⟨row, _, rfl⟩ := List.mem_map.mp member
  rfl

theorem openCards_nodup (tables : Tables) (d : Database) : ((openCards tables d).map Card.name).Nodup := by
  have keys : ((openCards tables d).map Card.key) =
      ((d.store.actions allStates).filter fun row => row.state = .open).map ActionRow.key := by
    rw [openCards, List.map_map]
    rfl
  have once : ((openCards tables d).map Card.key).Nodup := by
    rw [keys]
    exact (actions_keys_nodup d allStates).sublist (List.filter_sublist.map _)
  apply List.Nodup.of_map Prod.snd
  rwa [List.map_map]

/-- The card of `do_first_keys` in place of the page's. -/
def bared (card : Card) : Card := { card with database := "", savesMsPerMin := 0 }

/-- The summary ranks its cards as the page ranks its own. -/
theorem ranking_bared (tables : Tables) (d : Database) :
    ((openCards tables d).insertionSort Before).map bared =
      ((d.store.actions [.open]).map (bareCard tables d)).insertionSort Before := by
  have mapped : ((openCards tables d).insertionSort Before).map bared =
      ((openCards tables d).map bared).insertionSort Before := by
    apply List.map_insertionSort
    intro a member b member'
    obtain ⟨row, _, rfl⟩ := List.mem_map.mp member
    obtain ⟨row', _, rfl⟩ := List.mem_map.mp member'
    exact before_bareCard tables d row row'
  have cards : (openCards tables d).map bared =
      ((d.store.actions allStates).filter fun row => row.state = .open).map (bareCard tables d) := by
    rw [openCards, List.map_map]
    rfl
  have same := (open_rows_perm d).map (bareCard tables d)
  rw [mapped, cards]
  apply ranking_unique
  · rw [((List.perm_insertionSort Before _).map Card.name).nodup_iff]
    apply List.Nodup.of_map Prod.snd
    rw [List.map_map, List.map_map]
    exact (actions_keys_nodup d allStates).sublist (List.filter_sublist.map _)
  · exact (List.perm_insertionSort _ _).trans (same.trans (List.perm_insertionSort _ _).symm)
  · exact List.pairwise_insertionSort _ _
  · exact List.pairwise_insertionSort _ _

/-- The first cards of one database. -/
def firstCards (tables : Tables) (d : Database) : List Card := leading 0 ((openCards tables d).insertionSort Before)

theorem tiers_first (cards : List Card) (name : String) :
    ((tiers cards).filter fun card => card.1.database = name ∧ card.2 = .first).map Prod.fst =
      leading 0 ((cards.insertionSort Before).filter fun card => card.database = name) :=
  tierLoop_leading _ _ _ _

theorem tierLoop_cards (floor : ℚ) (taken : String → Nat) (cards : List Card) :
    (tierLoop floor taken cards).map Prod.fst = cards := by
  induction cards generalizing taken with
  | nil => rfl
  | cons card rest ih =>
    rw [tierLoop]
    split
    · rw [List.map_cons, ih]
    · rw [List.map_cons, ih]

theorem mem_tiers {cards : List Card} {card : Card × Tier} (member : card ∈ tiers cards) : card.1 ∈ cards := by
  have inside := List.mem_map_of_mem (f := Prod.fst) member
  rw [tiers, tierLoop_cards] at inside
  exact (List.mem_insertionSort _).mp inside

/-- Where every card is of one database the filter by it leaves all. -/
theorem tiers_first_alone {cards : List Card} {name : String} (alone : ∀ card ∈ cards, card.database = name) :
    ((tiers cards).filter fun card => card.2 = .first).map Prod.fst = leading 0 (cards.insertionSort Before) := by
  have own : (tiers cards).filter (fun card => decide (card.2 = .first)) =
      (tiers cards).filter fun card => decide (card.1.database = name ∧ card.2 = .first) := by
    apply List.filter_congr
    intro card member
    simp [alone card.1 (mem_tiers member)]
  have whole : (cards.insertionSort Before).filter (fun card => decide (card.database = name)) =
      cards.insertionSort Before := by
    rw [List.filter_eq_self]
    intro card member
    exact decide_eq_true (alone card ((List.mem_insertionSort _).mp member))
  rw [own, tiers_first, whole]

theorem doFirstKeys_perm (tables : Tables) (d : Database) :
    (doFirstKeys tables d).Perm ((firstCards tables d).map Card.key) := by
  have bare : ∀ card ∈ (d.store.actions [.open]).map (bareCard tables d), card.database = "" := by
    intro card member
    obtain ⟨row, _, rfl⟩ := List.mem_map.mp member
    rfl
  have keys : ((firstCards tables d).map Card.key) =
      (leading 0 (((d.store.actions [.open]).map (bareCard tables d)).insertionSort Before)).map Card.key := by
    have same (card : Card) : (bared card).score = card.score := rfl
    rw [← ranking_bared, ← leading_map same, List.map_map, firstCards]
    rfl
  rw [keys, ← tiers_first_alone bare]
  exact (List.perm_insertionSort _ _).map _

theorem planCards_first (tables : Tables) (d : Database) (name : String) :
    ((planCards tables d).filter fun card => card.1.database = name ∧ card.2 = .first).map Prod.fst =
      if d.name = name then firstCards tables d else [] := by
  by_cases own : d.name = name
  · have whole : ((openCards tables d).insertionSort Before).filter (fun card => decide (card.database = name)) =
        (openCards tables d).insertionSort Before := by
      rw [List.filter_eq_self]
      intro card member
      exact decide_eq_true ((openCards_database ((List.mem_insertionSort _).mp member)).trans own)
    rw [planCards, tiers_first, whole, if_pos own, firstCards]
  · have nothing : ((planCards tables d).filter fun card => decide (card.1.database = name ∧ card.2 = .first)) = [] := by
      rw [List.filter_eq_nil_iff]
      intro card member
      have database := openCards_database (mem_tiers member)
      simp [database, own]
    rw [nothing, if_neg own]
    rfl

section Together

variable {databases : List Database}

theorem flatMap_own {α : Type} {part : Database → List α} (names : (databases.map Database.name).Nodup)
    (member : d ∈ databases) (other : ∀ e ∈ databases, e.name ≠ d.name → part e = []) :
    databases.flatMap part = part d := by
  induction databases with
  | nil => cases member
  | cons head rest ih =>
    obtain ⟨absent, tail⟩ := List.nodup_cons.mp names
    rw [List.flatMap_cons]
    rcases List.mem_cons.mp member with rfl | later
    · have nothing : rest.flatMap part = [] := by
        rw [List.flatMap_eq_nil_iff]
        intro e inside
        apply other e (List.mem_cons_of_mem _ inside)
        exact fun same => absent (same ▸ List.mem_map_of_mem inside)
      rw [nothing, List.append_nil]
    · have apart : head.name ≠ d.name := fun same => absent (same ▸ List.mem_map_of_mem later)
      rw [other head List.mem_cons_self apart, List.nil_append]
      exact ih tail later fun e inside => other e (List.mem_cons_of_mem _ inside)

theorem globalPage_first (tables : Tables) (names : (databases.map Database.name).Nodup) (member : d ∈ databases) :
    (firstKeys (globalPage tables databases) d.name).Perm ((firstCards tables d).map Card.key) := by
  have sorted : (globalPage tables databases).Perm (databases.flatMap (planCards tables)) := List.perm_insertionSort _ _
  have kept : (databases.flatMap (planCards tables)).filter
      (fun card => decide (card.1.database = d.name ∧ card.2 = .first)) =
      (planCards tables d).filter fun card => decide (card.1.database = d.name ∧ card.2 = .first) := by
    rw [List.filter_flatMap]
    apply flatMap_own names member
    intro e _ apart
    have nothing := planCards_first tables e d.name
    rw [if_neg apart, List.map_eq_nil_iff] at nothing
    exact nothing
  have own := planCards_first tables d d.name
  rw [if_pos rfl] at own
  rw [firstKeys, ← own, List.map_map, ← kept]
  exact (sorted.filter _).map _

theorem mergedTiers_first (tables : Tables) (names : (databases.map Database.name).Nodup) (member : d ∈ databases) :
    firstKeys (mergedTiers tables databases) d.name = (firstCards tables d).map Card.key := by
  have kept : (databases.flatMap (openCards tables)).filter (fun card => decide (card.database = d.name)) =
      openCards tables d := by
    rw [List.filter_flatMap, flatMap_own names member, List.filter_eq_self]
    · intro card inside
      exact decide_eq_true (openCards_database inside)
    · intro e _ apart
      rw [List.filter_eq_nil_iff]
      intro card inside
      simpa [openCards_database inside] using apart
  have once : (((databases.flatMap (openCards tables)).filter fun card => decide (card.database = d.name)).map
      Card.name).Nodup := by
    rw [kept]
    exact openCards_nodup tables d
  have first := tiers_first (databases.flatMap (openCards tables)) d.name
  rw [filter_ranking once, kept] at first
  rw [firstKeys, firstCards, ← first, List.map_map]
  rfl

/-- Whatever actions are stored and whatever each database's measured minute: `do_first_keys` returns the keys of the
cards that the page shows first, by each database's own tiers and by those of all cards together. They are three at
most, and there is one where an open action scores half of what the first tier asks. -/
theorem do_first_keys_agree (tables : Tables) (databases : List Database)
    (names : (databases.map Database.name).Nodup) (d : Database) (member : d ∈ databases) :
    (doFirstKeys tables d).Perm (firstKeys (globalPage tables databases) d.name) ∧
      (doFirstKeys tables d).Perm (firstKeys (mergedTiers tables databases) d.name) ∧
      (doFirstKeys tables d).length ≤ 3 ∧
      ∀ row ∈ d.store.actions [.open], doFirstScore / 2 ≤ row.score → doFirstKeys tables d ≠ [] := by
  have perm := doFirstKeys_perm tables d
  refine ⟨perm.trans (globalPage_first tables names member).symm, ?_, ?_, ?_⟩
  · rw [mergedTiers_first tables names member]
    exact perm
  · rw [perm.length_eq, List.length_map]
    exact leading_length 0 _
  · intro row inside scores empty
    rw [empty, List.nil_perm, List.map_eq_nil_iff] at perm
    have card : planCard tables d row ∈ (openCards tables d).insertionSort Before := by
      rw [List.mem_insertionSort]
      exact List.mem_map_of_mem ((open_rows_perm d).mem_iff.mpr inside)
    exact leading_ne_nil card scores perm

end Together

end Agree

section Tied

def action (key : String) (type : ActionType) (score : ℚ) : Write :=
  ⟨key, type, .open, score, ⟨key, "", [], "", none, [], none, none, none⟩, none, 0, none, none, none, none, []⟩

def quiet : Applying := ⟨false, false, 0, 0, false, []⟩

/-- Actions that score alike on a database without load, one of which needs a restart. -/
def idle : Database where
  name := "idle"
  store := writeActions Store.new 0 [action "a" .changeSetting (3 / 10), action "b" .changeSetting (3 / 10),
    action "c" .rewriteQuery (3 / 10), action "d" .addIndex (3 / 10), action "e" .addIndex (1 / 100)]
  keyed := by
    intro key row found
    have rows : ∀ item ∈ (writeActions Store.new 0 [action "a" .changeSetting (3 / 10),
        action "b" .changeSetting (3 / 10), action "c" .rewriteQuery (3 / 10), action "d" .addIndex (3 / 10),
        action "e" .addIndex (1 / 100)]).rows.entries, item.2.key = item.1 := by decide +kernel
    exact rows _ (AList.mem_lookup_iff.mp found)
  applying key := if key = "a" then { quiet with restart := true } else quiet
  minuteMs := 0
  measured := le_rfl

theorem do_first_keys_agree_idle :
    (doFirstKeys asciiTables idle).Perm (firstKeys (globalPage asciiTables [idle]) "idle") ∧
      doFirstKeys asciiTables idle = ["b", "c", "d"] :=
  ⟨(do_first_keys_agree asciiTables [idle] (by decide) idle List.mem_cons_self).1, by decide +kernel⟩

end Tied

end Rdst.Actions
