import Rdst.Monitor.StatementNames

namespace Rdst.Monitor.StatementNames

open PyText Assoc Roster

section Fresh

variable {details : Text → NameDetails} {name : Text} {keys used : List Text}

theorem variant_injective (chosen : Text) : Function.Injective (variant chosen) := by
  intro a b same
  have digits : ∀ n : Nat, (toString n).toList = Nat.toDigits 10 n := fun n => String.toList_ofList
  simp only [variant, List.append_cancel_left_eq, digits] at same
  have read := congrArg (fun text => Nat.ofDigitChars 10 text 0) same
  simpa only [Nat.ofDigitChars_toDigits (by decide : 1 < 10) (by decide)] using read

theorem chosenName_unused (key : Text) : chosenName details name keys used key ∉ used := by
  rw [chosenName]
  split
  · exact firstFree_unused (variant_injective _) used 2
  · assumption

end Fresh

section Groups

/-- The groups hold the keys so far, each once in its group. -/
structure Grouped (groups : List (Text × List Text)) (keys : List Text) : Prop where
  all : ∀ key ∈ keys, ∃ group ∈ groups, key ∈ group.2
  only : ∀ group ∈ groups, ∀ key ∈ group.2, key ∈ keys
  once : ∀ group ∈ groups, group.2.Nodup

variable {groups : List (Text × List Text)} {keys : List Text} {key : Text}

theorem Grouped.add (grouped : Grouped groups keys) (new : key ∉ keys) (name : Text) :
    Grouped (addToGroup groups key name) (keys ++ [key]) := by
  rw [addToGroup]
  split
  · rename_i present
    obtain ⟨held, member, same⟩ := List.any_eq_true.mp present
    have name_ : held.1 = name := of_decide_eq_true same
    have shape : ∀ group ∈ groups.map fun group => if group.1 = name then (group.1, group.2 ++ [key]) else group,
        ∃ old ∈ groups, group.2 = old.2 ∨ group.2 = old.2 ++ [key] := by
      intro group member
      obtain ⟨old, there, rfl⟩ := List.mem_map.mp member
      refine ⟨old, there, ?_⟩
      split
      · exact .inr rfl
      · exact .inl rfl
    constructor
    · intro k member'
      rcases List.mem_append.mp member' with old | last
      · obtain ⟨group, there, inside⟩ := grouped.all k old
        refine ⟨_, List.mem_map_of_mem there, ?_⟩
        split
        · exact List.mem_append_left _ inside
        · exact inside
      · refine ⟨_, List.mem_map_of_mem member, ?_⟩
        rw [if_pos name_, List.mem_singleton.mp last]
        exact List.mem_append_right _ List.mem_cons_self
    · intro group member' k inside
      obtain ⟨old, there, same | longer⟩ := shape group member'
      · rw [same] at inside
        exact List.mem_append_left _ (grouped.only old there k inside)
      · rw [longer] at inside
        rcases List.mem_append.mp inside with before | last
        · exact List.mem_append_left _ (grouped.only old there k before)
        · exact List.mem_append_right _ last
    · intro group member'
      obtain ⟨old, there, same | longer⟩ := shape group member'
      · rw [same]
        exact grouped.once old there
      · rw [longer]
        apply List.Nodup.append (grouped.once old there) (List.nodup_singleton key)
        intro k before last
        rw [List.mem_singleton.mp last] at before
        exact new (grouped.only old there key before)
  · constructor
    · intro k member
      rcases List.mem_append.mp member with old | last
      · obtain ⟨group, there, inside⟩ := grouped.all k old
        exact ⟨group, List.mem_append_left _ there, inside⟩
      · exact ⟨(name, [key]), List.mem_append_right _ List.mem_cons_self, last⟩
    · intro group member k inside
      rcases List.mem_append.mp member with old | last
      · exact List.mem_append_left _ (grouped.only group old k inside)
      · rw [List.mem_singleton.mp last] at inside
        exact List.mem_append_right _ inside
    · intro group member
      rcases List.mem_append.mp member with old | last
      · exact grouped.once group old
      · rw [List.mem_singleton.mp last]
        exact List.nodup_singleton key

theorem grouped_items {items : List (Text × Text)} (grouped : Grouped groups keys) (nodup : (keys ++ items.map Prod.fst).Nodup) :
    Grouped (items.foldl (fun groups item => addToGroup groups item.1 item.2) groups) (keys ++ items.map Prod.fst) := by
  induction items generalizing groups keys with
  | nil => simpa using grouped
  | cons item items ih =>
    have new : item.1 ∉ keys := by
      intro member
      exact List.disjoint_of_nodup_append nodup member List.mem_cons_self
    have split : keys ++ (item :: items).map Prod.fst = keys ++ [item.1] ++ items.map Prod.fst := by simp
    rw [split] at nodup ⊢
    exact ih (grouped.add new item.2) nodup

theorem bases_grouped (tables : Tables) (statements : Dict Text Text) :
    Grouped ((bases tables statements).foldl (fun groups item => addToGroup groups item.1 item.2) []) statements.keys := by
  have keys : (bases tables statements).map Prod.fst = statements.keys := by
    simp [bases, AList.keys, List.keys]
  have grouped := @grouped_items [] [] (bases tables statements) ⟨nofun, nofun, nofun⟩
    (by rw [List.nil_append, keys]; exact statements.keys_nodup)
  rwa [List.nil_append, keys] at grouped

end Groups

section Passes

variable {start : Dict Text Text} {s : State Text Text} {nameDetails : Text → NameDetails} {statements : Dict Text Text}

theorem nameSingle_fair (fair : Fair start s) (group : Text × List Text) : Fair start (nameSingle s group) := by
  rw [nameSingle]
  split
  · split
    · rename_i free
      exact fair.give free.1 free.2
    · exact fair
  · exact fair

/-- The keys that wait for a name get one each, and nobody loses one. -/
theorem given_fair (choose : State Text Text → Text → Text) (unused : ∀ s key, choose s key ∉ s.used) {pending : List Text}
    (nodup : pending.Nodup) (nameless : ∀ key ∈ pending, s.names.lookup key = none) (fair : Fair start s) :
    Fair start (pending.foldl (fun s key => s.give key (choose s key)) s) ∧
      (∀ key ∈ pending, (pending.foldl (fun s key => s.give key (choose s key)) s).names.lookup key ≠ none) ∧
      ∀ key, s.names.lookup key ≠ none →
        (pending.foldl (fun s key => s.give key (choose s key)) s).names.lookup key ≠ none := by
  induction pending generalizing s with
  | nil => exact ⟨fair, nofun, fun _ named => named⟩
  | cons key pending ih =>
    obtain ⟨apart, nodup⟩ := List.nodup_cons.mp nodup
    have given := fair.give (nameless key List.mem_cons_self) (unused s key)
    have waiting : ∀ k ∈ pending, (s.give key (choose s key)).names.lookup k = none := by
      intro k member
      rw [give_lookup, if_neg (by rintro rfl; exact apart member)]
      exact nameless k (List.mem_cons_of_mem key member)
    obtain ⟨fair, named, still⟩ := ih nodup waiting given
    refine ⟨fair, ?_, fun k had => still k (give_named s key _ had)⟩
    intro k member
    rcases List.mem_cons.mp member with rfl | later
    · apply still k
      rw [give_lookup, if_pos rfl]
      exact Option.some_ne_none _
    · exact named k later

variable (nameDetails statements) in
theorem nameFamily_fair (fair : Fair start s) {group : Text × List Text} (once : group.2.Nodup) :
    Fair start (nameFamily nameDetails statements s group) ∧
      (∀ key ∈ group.2, (nameFamily nameDetails statements s group).names.lookup key ≠ none) ∧
      ∀ key, s.names.lookup key ≠ none → (nameFamily nameDetails statements s group).names.lookup key ≠ none := by
  have pending := given_fair
    (fun s key => chosenName (fun key => nameDetails ((statements.lookup key).getD [])) group.1 group.2 s.used key)
    (fun s key => chosenName_unused key) (once.filter fun key => s.names.lookup key = none)
    (fun key member => of_decide_eq_true (List.mem_filter.mp member).2) fair
  refine ⟨pending.1, ?_, pending.2.2⟩
  intro key member
  by_cases nameless : s.names.lookup key = none
  · exact pending.2.1 key (List.mem_filter.mpr ⟨member, decide_eq_true nameless⟩)
  · exact pending.2.2 key nameless

variable (nameDetails statements) in
theorem families_fair (fair : Fair start s) {groups : List (Text × List Text)} (once : ∀ group ∈ groups, group.2.Nodup) :
    Fair start (groups.foldl (nameFamily nameDetails statements) s) ∧
      (∀ group ∈ groups, ∀ key ∈ group.2, (groups.foldl (nameFamily nameDetails statements) s).names.lookup key ≠ none) ∧
      ∀ key, s.names.lookup key ≠ none → (groups.foldl (nameFamily nameDetails statements) s).names.lookup key ≠ none := by
  induction groups generalizing s with
  | nil => exact ⟨fair, nofun, fun _ named => named⟩
  | cons group groups ih =>
    obtain ⟨fair, named, still⟩ := nameFamily_fair nameDetails statements fair
      (once group List.mem_cons_self)
    obtain ⟨fair', named', still'⟩ := ih fair fun g member => once g (List.mem_cons_of_mem group member)
    refine ⟨fair', ?_, fun key had => still' key (still key had)⟩
    intro g member key inside
    rcases List.mem_cons.mp member with rfl | later
    · exact still' key (named key inside)
    · exact named' g later key inside

end Passes

section Calls

/-- Where no two keys have one name, no name is given up. -/
theorem keptNames_lookup (statements : Dict Text Text) {names : Dict Text Text} (distinct : Distinct names) (key : Text) :
    (keptNames statements names).lookup key = names.lookup key := by
  have nodup : (names.entries.map Sigma.snd).Nodup := by
    apply List.Nodup.map_on _ names.nodupKeys.nodup
    intro a first b second same
    have keys := distinct a.1 b.1 a.2 (AList.mem_lookup_iff.mpr first) (by rw [same]; exact AList.mem_lookup_iff.mpr second)
    exact Sigma.ext keys (heq_of_eq same)
  rw [keptNames, keepKeys_lookup]
  apply if_pos
  simp only [Bool.or_eq_true, decide_eq_true_eq]
  exact .inr (List.nodup_iff_count_le_one.mp nodup _)

theorem kept_fair (statements : Dict Text Text) {names : Dict Text Text} (distinct : Distinct names) :
    Fair names ⟨keptNames statements names, (keptNames statements names).entries.map Sigma.snd⟩ where
  known k n found := List.mem_map.mpr ⟨⟨k, n⟩, AList.mem_lookup_iff.mp found, rfl⟩
  distinct k k' n found found' := by
    rw [keptNames_lookup statements distinct] at found found'
    exact distinct k k' n found found'
  kept k n found := by
    rw [keptNames_lookup statements distinct]
    exact found

variable (tables : Tables) (nameDetails : Text → NameDetails)

/-- One call: every statement has a name, and the names are fair. -/
theorem distinctNames_fair (statements : Dict Text Text) {existing : Option (Dict Text Text)} (distinct : Distinct (existing.getD ∅)) :
    (∃ s, (distinctNames tables nameDetails statements existing) = s.names ∧ Fair (existing.getD ∅) s) ∧
      ∀ key ∈ statements.keys, (distinctNames tables nameDetails statements existing).lookup key ≠ none := by
  have grouped := bases_grouped tables statements
  rw [distinctNames]
  generalize (bases tables statements).foldl (fun groups item => addToGroup groups item.1 item.2) [] = groups at grouped
  have singles : Fair (existing.getD ∅) (groups.foldl nameSingle ⟨keptNames statements (existing.getD ∅),
      (keptNames statements (existing.getD ∅)).entries.map Sigma.snd⟩) :=
    List.foldlRecOn groups nameSingle (kept_fair statements distinct) fun s fair group _ => nameSingle_fair fair group
  obtain ⟨fair, named, -⟩ := families_fair nameDetails statements singles grouped.once
  refine ⟨⟨_, rfl, fair⟩, ?_⟩
  intro key member
  obtain ⟨group, there, inside⟩ := grouped.all key member
  exact named group there key inside

/-- What a sequence of calls leaves, each given the names of the one before. -/
def calls (statements : List (Dict Text Text)) : Option (Dict Text Text) :=
  statements.foldl (fun existing texts => some (distinctNames tables nameDetails texts existing)) none

theorem calls_distinct (before : List (Dict Text Text)) : Distinct ((calls tables nameDetails before).getD ∅) := by
  apply List.foldlRecOn (motive := fun existing : Option (Dict Text Text) => Distinct (existing.getD ∅))
  · intro k k' n found
    cases found
  · intro existing distinct statements _
    obtain ⟨⟨s, same, fair⟩, -⟩ := distinctNames_fair tables nameDetails statements distinct
    rw [Option.getD_some, same]
    exact fair.distinct

theorem calls_append (before : List (Dict Text Text)) (statements : Dict Text Text) :
    calls tables nameDetails (before ++ [statements]) =
      some (distinctNames tables nameDetails statements (calls tables nameDetails before)) := by
  rw [calls, List.foldl_append]
  rfl

/-- A name that a key has after some calls it has after all later ones. -/
theorem calls_keep (before later : List (Dict Text Text)) {k n : Text}
    (held : ((calls tables nameDetails before).getD ∅).lookup k = some n) :
    ((calls tables nameDetails (before ++ later)).getD ∅).lookup k = some n := by
  induction later using List.reverseRecOn with
  | nil => rwa [List.append_nil]
  | append_singleton later statements ih =>
    obtain ⟨⟨s, same, fair⟩, -⟩ := distinctNames_fair tables nameDetails statements
      (calls_distinct tables nameDetails (before ++ later))
    rw [← List.append_assoc, calls_append, Option.getD_some, same]
    exact fair.kept k n ih

/-- After any calls: every statement of the last has a name, no two keys have one, what is newly given nobody held or
    holds, and what was held is held by the same key ever after. -/
theorem distinct_names_stand (before : List (Dict Text Text)) (statements : Dict Text Text) :
    let held := (calls tables nameDetails before).getD ∅
    let names := distinctNames tables nameDetails statements (calls tables nameDetails before)
    (∀ key ∈ statements.keys, ∃ n, names.lookup key = some n) ∧
      (∀ k k' n, names.lookup k = some n → names.lookup k' = some n → k = k') ∧
      (∀ k k' n, held.lookup k = none → names.lookup k = some n → held.lookup k' ≠ some n) ∧
      ∀ later k n, held.lookup k = some n →
        ((calls tables nameDetails (before ++ later)).getD ∅).lookup k = some n := by
  obtain ⟨⟨s, same, fair⟩, named⟩ := distinctNames_fair tables nameDetails statements (calls_distinct tables nameDetails before)
  refine ⟨fun key member => Option.ne_none_iff_exists'.mp (named key member), ?_, ?_,
    fun later k n found => calls_keep tables nameDetails before later found⟩
  · rw [same]
    exact fair.distinct
  · intro k k' n nameless found
    rw [same] at found
    exact fair.fresh nameless found

end Calls

end Rdst.Monitor.StatementNames
