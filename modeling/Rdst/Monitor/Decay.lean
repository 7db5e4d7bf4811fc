import Mathlib.Tactic.Linarith
import Mathlib.Tactic.NormNum
import Rdst.Monitor.Tracking

namespace Rdst.Monitor.Tracking

open Assoc Machine

/-- The load by which `_rank_queries` orders a row of `query_load`. -/
def rankedLoad (now : Int) (load : ℚ × Int) : ℚ :=
  if load.2 < now - recentLoadSeconds then 0 else load.1 / (1 + (max 0 (now - load.2) : Int) / 86400)

/-- The row that the statement of a reading makes of the row before. -/
def added (old : Option (ℚ × Int)) (ts : Int) (load : ℚ) : ℚ × Int :=
  match old with
  | none => (load, ts)
  | some (totalMs, updated) =>
    (if ts < updated - 86400 then totalMs
      else if ts - updated ≥ 86400 then load
      else totalMs / (1 + (max 0 (ts - updated) : Int) / 86400) + load, max updated ts)

theorem addLoad_eq (load : Dict String (ℚ × Int)) (ts : Int) (row : String × ℚ) :
    addLoad load ts row = load.insert row.1 (added (load.lookup row.1) ts row.2) := by
  unfold addLoad added
  cases load.lookup row.1 <;> rfl

section Rows

variable {key : String} {ts : Int}

theorem loads_cons {row : String × ℚ} {rest : List (String × ℚ)} (once : ((row :: rest).map Prod.fst).Nodup) :
    loads (row :: rest) key = if row.1 = key then some row.2 else loads rest key := by
  have absent := (List.nodup_cons.mp once).1
  simp only [loads, List.reverse_cons, List.find?_append]
  by_cases same : row.1 = key
  · subst same
    have outside : (rest.reverse.find? fun other => decide (other.1 = row.1)) = none := by
      rw [List.find?_eq_none]
      intro other member here
      exact absent (of_decide_eq_true here ▸ List.mem_map_of_mem (List.mem_reverse.mp member))
    simp [outside]
  · simp [same]

theorem loads_filter {test : String → Bool} (passes : test key = true) (statements : List (String × ℚ)) :
    loads (statements.filter fun row => test row.1) key = loads statements key := by
  rw [loads, loads, ← List.filter_reverse, List.find?_filter]
  congr 2
  funext row
  by_cases same : row.1 = key
  · simp [same, passes]
  · simp [same]

/-- Each key of the rows is updated once, by its own row. -/
theorem foldl_addLoad {rows : List (String × ℚ)} (once : (rows.map Prod.fst).Nodup) (load : Dict String (ℚ × Int)) :
    (rows.foldl (fun load row => addLoad load ts row) load).lookup key =
      match loads rows key with
      | none => load.lookup key
      | some x => some (added (load.lookup key) ts x) := by
  induction rows generalizing load with
  | nil => rfl
  | cons row rest ih =>
    have tail := (List.nodup_cons.mp once).2
    rw [List.foldl_cons, ih tail, loads_cons once, addLoad_eq, insert_lookup]
    by_cases same : row.1 = key
    · subst same
      have absent : loads rest row.1 = none := by
        simp only [loads, Option.map_eq_none_iff, List.find?_eq_none, List.mem_reverse]
        intro other member here
        exact (List.nodup_cons.mp once).1 (of_decide_eq_true here ▸ List.mem_map_of_mem member)
      simp [absent]
    · simp [same, Ne.symm same]

end Rows

section Record

variable {t : Tables} {r : Reading} {key : String}

theorem foldl_insert_load {keys : List String} {entry : String → ℚ × Int} (load : Dict String (ℚ × Int)) :
    (keys.foldl (fun load key => load.insert key (entry key)) load).lookup key =
      if key ∈ keys then some (entry key) else load.lookup key := by
  induction keys generalizing load with
  | nil => rfl
  | cons first rest ih =>
    rw [List.foldl_cons, ih, insert_lookup]
    by_cases later : key ∈ rest
    · simp [later]
    · by_cases same : key = first
      · subst same
        simp [later]
      · simp [later, same]

theorem retain_load (t : Tables) {retained : List String} (chosen : key ∈ retained) :
    (t.retain retained).queryLoad.lookup key = t.queryLoad.lookup key := by
  rw [Tables.retain, keepKeys_lookup, if_pos (List.contains_iff_mem.mpr chosen)]

theorem retarget_load (t : Tables) {statements : List (String × ℚ)} {r : Reading}
    (chosen : key ∈ selected t statements r) :
    (retarget t statements r).queryLoad.lookup key =
      if key ∈ t.keys then t.queryLoad.lookup key
      else some (weight t r.ts statements key - (loads statements key).getD 0, r.ts) := by
  simp only [retarget]
  rw [foldl_insert_load]
  by_cases tracked : key ∈ t.keys
  · simp only [List.mem_filter, chosen, tracked, not_true_eq_false, decide_false, Bool.false_eq_true, and_false, if_false,
      if_true]
    split
    · rfl
    · exact retain_load t chosen
  · simp [List.mem_filter, chosen, tracked]

theorem insertSample_load (t : Tables) (ts : Int) (queryKey : String) (text : List Char) :
    (insertSample t ts queryKey text).queryLoad = t.queryLoad := by
  rw [insertSample]
  split
  · rfl
  split
  · rfl
  split
  · rfl
  · rfl

theorem storeSamples_load (t : Tables) (tracked : List String) (r : Reading) :
    (storeSamples t tracked r).queryLoad = t.queryLoad := by
  apply List.foldlRecOn (motive := fun s : Tables => s.queryLoad = t.queryLoad)
  · rfl
  · intro s same sample _
    rw [insertSample_load, same]

theorem record_load (enabled : t.enabled = true) :
    (record t r).queryLoad = (storeLoads (retarget (prepared t r) (rows t r) r)
      (selected (prepared t r) (rows t r) r) (rows t r) r.ts).queryLoad := by
  simp only [record, enabled, Bool.not_true, Bool.false_eq_true, if_false, rollup, storeStuck, storeSamples_load,
    storeLoads, storeTexts]

theorem selected_of_record (enabled : t.enabled = true) {load : ℚ × Int}
    (stored : (record t r).queryLoad.lookup key = some load) : key ∈ selected (prepared t r) (rows t r) r := by
  have within := (retarget_within (prepared t r) (rows t r) r).storeLoads (rows t r) r.ts
  apply within.loads key
  rw [mem_keys_iff, ← record_load enabled, stored]
  exact Option.some_ne_none load

theorem rows_once (once : (r.statements.map Prod.fst).Nodup) : ((rows t r).map Prod.fst).Nodup := by
  rw [rows]
  split
  · exact List.nodup_nil
  · exact once

/-- The row of `query_load` that a reading leaves for a key that it tracks. -/
theorem load_after (enabled : t.enabled = true) (once : (r.statements.map Prod.fst).Nodup)
    (chosen : key ∈ selected (prepared t r) (rows t r) r) :
    (record t r).queryLoad.lookup key =
      let left := prepared t r
      let before := if key ∈ left.keys then left.queryLoad.lookup key
        else some (weight left r.ts (rows t r) key - (loads (rows t r) key).getD 0, r.ts)
      match loads (rows t r) key with
      | none => before
      | some x => some (added before r.ts x) := by
  have passes : (selected (prepared t r) (rows t r) r).contains key = true := List.contains_iff_mem.mpr chosen
  have once := (rows_once (t := t) once).sublist (List.filter_sublist (p := fun row =>
    (selected (prepared t r) (rows t r) r).contains row.1) |>.map Prod.fst)
  rw [record_load enabled, storeLoads, foldl_addLoad once, loads_filter passes, retarget_load _ chosen]

end Record

section Agree

variable {t : Tables} {ts : Int} {statements : List (String × ℚ)} {key : String}

theorem weight_known {value : ℚ} {updated : Int} (found : known t key = some (value, updated)) :
    weight t ts statements key =
      if ts < updated - 86400 then value
      else (if ts - updated < 86400 then value / (1 + (max 0 (ts - updated) : Int) / 86400) else 0) +
        (loads statements key).getD 0 := by
  have young : max 0 (ts - updated) < 86400 ↔ ts - updated < 86400 := by omega
  simp only [weight, found, Option.getD_some, recentLoadSeconds, young, Int.cast_ofNat]

theorem weight_unknown (unseen : known t key = none) : weight t ts statements key = (loads statements key).getD 0 := by
  have later : ¬ ts < ts - 86400 := by omega
  simp [weight, unseen, recentLoadSeconds, later]

theorem aged_eq_zero (value : ℚ) (age : Int) : value / (1 + (max 0 age : Int) / 86400) = 0 ↔ value = 0 := by
  have least : (0 : ℚ) ≤ ((max 0 age : Int) : ℚ) := Int.cast_nonneg (le_max_left 0 age)
  have positive : (0 : ℚ) < 1 + ((max 0 age : Int) : ℚ) / 86400 := by linarith [div_nonneg least (by norm_num : (0 : ℚ) ≤ 86400)]
  rw [div_eq_zero_iff]
  exact or_iff_left positive.ne'

/-- At the time of its own update a row is ranked by all of its load. -/
theorem rankedLoad_fresh {value : ℚ} {updated now : Int} (fresh : now ≤ updated) :
    rankedLoad now (value, updated) = value := by
  have young : ¬ updated < now - 86400 := by omega
  have ageless : max 0 (now - updated) = 0 := by omega
  simp [rankedLoad, recentLoadSeconds, young, ageless]

/-- For a row that the reading adds to, the update is the weight. -/
theorem added_known {value x : ℚ} {updated : Int} (found : known t key = some (value, updated))
    (here : loads statements key = some x) :
    added (some (value, updated)) ts x = (weight t ts statements key, max updated ts) := by
  rw [weight_known found, here, added]
  by_cases late : ts < updated - 86400
  · simp [late]
  · by_cases old : ts - updated ≥ 86400
    · have expired : ¬ ts - updated < 86400 := by omega
      simp [late, old, expired]
    · have young : ts - updated < 86400 := by omega
      simp [late, old, young]

/-- The weight of a row that the reading says nothing of, and the load that it is ranked by. -/
theorem rankedLoad_known {value : ℚ} {updated : Int} (found : known t key = some (value, updated))
    (absent : loads statements key = none) :
    rankedLoad ts (value, updated) = weight t ts statements key ↔ ts - updated ≠ 86400 ∨ value = 0 := by
  rw [weight_known found, absent, rankedLoad, recentLoadSeconds]
  by_cases late : ts < updated - 86400
  · have young : ¬ updated < ts - 86400 := by omega
    have ageless : max 0 (ts - updated) = 0 := by omega
    have apart : ts - updated ≠ 86400 := by omega
    simp [late, young, ageless, apart]
  · by_cases same : ts - updated = 86400
    · have young : ¬ updated < ts - 86400 := by omega
      simp only [late, young, same, lt_irrefl, if_false]
      norm_num
    · by_cases old : updated < ts - 86400
      · have expired : ¬ ts - updated < 86400 := by omega
        simp [late, old, expired, same]
      · have young : ts - updated < 86400 := by omega
        simp [late, old, young, same]

end Agree

section Reading

variable (t : Tables) (r : Reading)

/-- Before and after a reading a load counts the same: what `weight` ranks and admits the key by is what the update
stores where the reading has the key, and what the tiers are ranked by. -/
structure DecaysAgree (key : String) (load : ℚ × Int) : Prop where
  stored : (loads (rows t r) key).isSome → load.1 = weight (prepared t r) r.ts (rows t r) key
  ranked : rankedLoad r.ts load = weight (prepared t r) r.ts (rows t r) key

/-- The key has its row in `query_load`, and if the reading says nothing of it, the row is not just a day old. Or the key
is new. Or it is tracked without such a row, and the load it is a candidate by comes to nothing. -/
def DecaysMeet (key : String) : Prop :=
  let left := prepared t r
  match left.queryLoad.lookup key, loads (rows t r) key with
  | some (value, updated), none => r.ts - updated ≠ 86400 ∨ value = 0
  | some _, some _ => True
  | none, x =>
    key ∉ left.keys ∨
      match left.candidateLoads.lookup key with
      | none => True
      | some (value, updated) =>
        if r.ts < updated - 86400 then some value = x else 86400 ≤ r.ts - updated ∨ value = 0

end Reading

section Cases

variable {t : Tables} {r : Reading} {key : String} {load : ℚ × Int}

theorem agree_absent (absent : loads (rows t r) key = none) :
    DecaysAgree t r key load ↔ rankedLoad r.ts load = weight (prepared t r) r.ts (rows t r) key := by
  constructor
  · exact fun agree => agree.ranked
  · intro ranked
    refine ⟨?_, ranked⟩
    rw [absent]
    exact fun seen => absurd seen Bool.false_ne_true

theorem agree_present {x : ℚ} (here : loads (rows t r) key = some x) (fresh : r.ts ≤ load.2) :
    DecaysAgree t r key load ↔ load.1 = weight (prepared t r) r.ts (rows t r) key := by
  have whole : rankedLoad r.ts load = load.1 := rankedLoad_fresh fresh
  constructor
  · intro agree
    exact agree.stored (here ▸ rfl)
  · intro stored
    exact ⟨fun _ => stored, whole.trans stored⟩

/-- A key that the reading makes room for comes with its weight. -/
theorem agree_new (enabled : t.enabled = true) (once : (r.statements.map Prod.fst).Nodup)
    (stored : (record t r).queryLoad.lookup key = some load) (new : key ∉ (prepared t r).keys) :
    DecaysAgree t r key load := by
  have after := load_after enabled once (selected_of_record enabled stored)
  simp only [stored, new, if_false] at after
  cases here : loads (rows t r) key with
  | none =>
    simp only [here, Option.getD_none, sub_zero, Option.some.injEq] at after
    subst after
    exact (agree_absent here).mpr (rankedLoad_fresh le_rfl)
  | some x =>
    have later : ¬ r.ts < r.ts - 86400 := by omega
    simp [here, added, later] at after
    subst after
    exact (agree_present here le_rfl).mpr rfl

/-- A key that is tracked without a row of its own. -/
theorem agree_rowless (enabled : t.enabled = true) (once : (r.statements.map Prod.fst).Nodup)
    (stored : (record t r).queryLoad.lookup key = some load) (tracked : key ∈ (prepared t r).keys)
    (rowless : (prepared t r).queryLoad.lookup key = none) :
    DecaysAgree t r key load ↔
      match (prepared t r).candidateLoads.lookup key with
      | none => True
      | some (value, updated) =>
        if r.ts < updated - 86400 then some value = loads (rows t r) key else 86400 ≤ r.ts - updated ∨ value = 0 := by
  have after := load_after enabled once (selected_of_record enabled stored)
  have known_ : known (prepared t r) key = (prepared t r).candidateLoads.lookup key := by rw [known, rowless]; rfl
  simp only [stored, tracked, rowless, if_true] at after
  cases here : loads (rows t r) key with
  | none => simp [here] at after
  | some x =>
    simp only [here, added, Option.some.injEq] at after
    subst after
    rw [agree_present here le_rfl]
    cases found : (prepared t r).candidateLoads.lookup key with
    | none =>
      rw [weight_unknown (known_.trans found), here]
      simp
    | some pending =>
      obtain ⟨value, updated⟩ := pending
      rw [weight_known (known_.trans found), here]
      by_cases late : r.ts < updated - 86400
      · simp [late, eq_comm]
      · by_cases old : 86400 ≤ r.ts - updated
        · have expired : ¬ r.ts - updated < 86400 := by omega
          simp [late, old, expired]
        · have young : r.ts - updated < 86400 := by omega
          have nothing := aged_eq_zero value (r.ts - updated)
          simp only [late, old, young, if_false, if_true, Option.getD_some, false_or, ← nothing]
          exact eq_comm.trans add_eq_right

/-- A key with a row. -/
theorem agree_row (enabled : t.enabled = true) (once : (r.statements.map Prod.fst).Nodup)
    (stored : (record t r).queryLoad.lookup key = some load) {value : ℚ} {updated : Int}
    (row : (prepared t r).queryLoad.lookup key = some (value, updated)) :
    DecaysAgree t r key load ↔ (loads (rows t r) key).isSome ∨ r.ts - updated ≠ 86400 ∨ value = 0 := by
  have tracked : key ∈ (prepared t r).keys :=
    (within_own (prepared t r)).loads key (mem_keys_iff.mpr (row ▸ Option.some_ne_none _))
  have after := load_after enabled once (selected_of_record enabled stored)
  have found : known (prepared t r) key = some (value, updated) := by rw [known, row]; rfl
  simp only [stored, tracked, row, if_true] at after
  cases here : loads (rows t r) key with
  | none =>
    simp only [here, Option.some.injEq] at after
    subst after
    rw [agree_absent here, rankedLoad_known found here]
    simp
  | some x =>
    simp only [here, Option.some.injEq] at after
    rw [added_known found here] at after
    subst after
    rw [agree_present here (le_max_right _ _)]
    simp

/-- What a load counts in a reading's ranking is what is stored of it and what the tiers are ranked by exactly where
`DecaysMeet` holds. -/
theorem decays_agree_iff (t : Tables) (r : Reading) (enabled : t.enabled = true)
    (once : (r.statements.map Prod.fst).Nodup) (key : String) (load : ℚ × Int)
    (stored : (record t r).queryLoad.lookup key = some load) :
    DecaysAgree t r key load ↔ DecaysMeet t r key := by
  cases row : (prepared t r).queryLoad.lookup key with
  | none =>
    simp only [DecaysMeet, row]
    by_cases tracked : key ∈ (prepared t r).keys
    · rw [agree_rowless enabled once stored tracked row]
      simp [tracked]
    · simp [tracked, agree_new enabled once stored tracked]
  | some before =>
    obtain ⟨value, updated⟩ := before
    rw [agree_row enabled once stored row]
    cases here : loads (rows t r) key with
    | none => simp [DecaysMeet, row, here]
    | some x => simp [DecaysMeet, row, here]

/-- A day after its last reading `a` weighs nothing; the tiers still rank it by half its load. -/
def dayOld : Tables :=
  { Tables.empty with
    queryText := (∅ : Dict String (List Char × Int)).insert "a" ("SELECT 1".toList, 0)
    queryLoad := (∅ : Dict String (ℚ × Int)).insert "a" (2, 0) }

def quietReading (ts : Int) : Reading := ⟨"p", ts, [], ∅, [], [], [], true⟩

theorem decays_agree_iff_dayOld :
    DecaysAgree dayOld (quietReading 86401) "a" (2, 0) ↔ DecaysMeet dayOld (quietReading 86401) "a" :=
  decays_agree_iff dayOld (quietReading 86401) rfl List.nodup_nil "a" (2, 0) (by decide +kernel)

theorem day_old_apart :
    (record dayOld (quietReading 86400)).queryLoad.lookup "a" = some (2, 0) ∧
      ¬ DecaysAgree dayOld (quietReading 86400) "a" (2, 0) := by
  constructor
  · decide +kernel
  · intro agree
    have compared : rankedLoad 86400 (2, 0) ≠ weight (prepared dayOld (quietReading 86400)) 86400
        (rows dayOld (quietReading 86400)) "a" := by decide +kernel
    exact compared agree.ranked

end Cases

end Rdst.Monitor.Tracking
