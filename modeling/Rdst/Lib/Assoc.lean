import Mathlib.Data.List.AList

namespace Assoc

variable {Key Value : Type} [DecidableEq Key]

/-- A mapping with one entry a key, in the order of insertion. -/
abbrev Dict (Key Value : Type) := AList fun _ : Key => Value

/-- A loop body that writes at the key of its entry only, and reads nothing else of the result. -/
structure Local (body : Dict Key Value → Key → Value → Dict Key Value) : Prop where
  other : ∀ dict key value k, k ≠ key → (body dict key value).lookup k = dict.lookup k
  own : ∀ dict dict' key value, dict.lookup key = dict'.lookup key →
    (body dict key value).lookup key = (body dict' key value).lookup key

/-- Run a loop body over the items of a mapping. -/
def forItems (items : Dict Key Value) (start : Dict Key Value)
    (body : Dict Key Value → Key → Value → Dict Key Value) : Dict Key Value :=
  items.entries.foldl (fun dict item => body dict item.1 item.2) start

theorem foldl_lookup_absent {body : Dict Key Value → Key → Value → Dict Key Value} (isLocal : Local body)
    (items : List (Sigma fun _ : Key => Value)) (start : Dict Key Value) {k : Key}
    (absent : k ∉ items.keys) :
    (items.foldl (fun dict item => body dict item.1 item.2) start).lookup k = start.lookup k := by
  induction items generalizing start with
  | nil => rfl
  | cons item rest ih =>
    rw [List.keys_cons, List.mem_cons, not_or] at absent
    rw [List.foldl_cons, ih _ absent.2]
    exact isLocal.other start item.1 item.2 k absent.1

theorem foldl_lookup {body : Dict Key Value → Key → Value → Dict Key Value} (isLocal : Local body)
    (items : List (Sigma fun _ : Key => Value)) (distinct : items.NodupKeys) (start : Dict Key Value)
    (k : Key) :
    (items.foldl (fun dict item => body dict item.1 item.2) start).lookup k =
      match items.dlookup k with
      | none => start.lookup k
      | some value => (body start k value).lookup k := by
  induction items generalizing start with
  | nil => rfl
  | cons item rest ih =>
    obtain ⟨key, value⟩ := item
    rw [List.nodupKeys_cons] at distinct
    by_cases same : key = k
    · subst same
      rw [List.foldl_cons, foldl_lookup_absent isLocal rest _ distinct.1, List.dlookup_cons_eq]
    · rw [List.foldl_cons, ih distinct.2, List.dlookup_cons_ne _ _ (Ne.symm same)]
      have untouched := isLocal.other start key value k (Ne.symm same)
      cases rest.dlookup k with
      | none => exact untouched
      | some later => exact isLocal.own _ _ k later untouched

/-- What a loop over items leaves at a key is decided by the item of that key alone. -/
theorem forItems_lookup {body : Dict Key Value → Key → Value → Dict Key Value} (isLocal : Local body)
    (items start : Dict Key Value) (k : Key) :
    (forItems items start body).lookup k =
      match items.lookup k with
      | none => start.lookup k
      | some value => (body start k value).lookup k :=
  foldl_lookup isLocal items.entries items.nodupKeys start k

/-- Remove every key of a list. -/
def popAll (keys : List Key) (dict : Dict Key Value) : Dict Key Value :=
  keys.foldl (fun dict key => dict.erase key) dict

theorem popAll_lookup (keys : List Key) (dict : Dict Key Value) (k : Key) :
    (popAll keys dict).lookup k = if k ∈ keys then none else dict.lookup k := by
  induction keys generalizing dict with
  | nil => rfl
  | cons key rest ih =>
    show (popAll rest (dict.erase key)).lookup k = _
    rw [ih]
    by_cases later : k ∈ rest
    · simp [later]
    · by_cases same : k = key
      · subst same
        simp [later, AList.lookup_erase]
      · simp [later, same, AList.lookup_erase_ne same]

/-- The part of a mapping at some keys. -/
def restrict (keys : List Key) (dict : Dict Key Value) : Dict Key Value :=
  popAll (dict.keys.filter fun key => key ∉ keys) dict

theorem restrict_lookup (keys : List Key) (dict : Dict Key Value) (k : Key) :
    (restrict keys dict).lookup k = if k ∈ keys then dict.lookup k else none := by
  rw [restrict, popAll_lookup]
  by_cases inside : k ∈ keys
  · simp [inside]
  · by_cases present : k ∈ dict.keys
    · simp [inside, present]
    · have absent : dict.lookup k = none := AList.lookup_eq_none.mpr present
      simp [inside, present, absent]

/-- The entries of a mapping whose keys meet a test. -/
def keepKeys (test : Key → Bool) (dict : Dict Key Value) : Dict Key Value :=
  ⟨dict.entries.filter fun item => test item.1, List.NodupKeys.sublist List.filter_sublist dict.nodupKeys⟩

theorem keepKeys_lookup (test : Key → Bool) (dict : Dict Key Value) (k : Key) :
    (keepKeys test dict).lookup k = if test k = true then dict.lookup k else none := by
  apply Option.ext
  intro value
  have kept : value ∈ (keepKeys test dict).lookup k ↔ (⟨k, value⟩ : Sigma _) ∈ dict.entries ∧ test k = true := by
    rw [AList.mem_lookup_iff]
    exact List.mem_filter
  rw [← Option.mem_def, kept, ← AList.mem_lookup_iff]
  by_cases met : test k = true <;> simp [met]

/-- Change the value of every entry. -/
def mapItems {Value' : Type} (change : Key → Value → Value') (dict : Dict Key Value) : Dict Key Value' where
  entries := dict.entries.map fun item => ⟨item.1, change item.1 item.2⟩
  nodupKeys := by
    have keys : (dict.entries.map fun item => (⟨item.1, change item.1 item.2⟩ : Sigma fun _ : Key => Value')).keys =
        dict.entries.keys := by simp [List.keys]
    rw [List.NodupKeys, keys]
    exact dict.nodupKeys

theorem mapItems_lookup {Value' : Type} (change : Key → Value → Value') (dict : Dict Key Value) (k : Key) :
    (mapItems change dict).lookup k = (dict.lookup k).map (change k) := by
  apply Option.ext
  intro value
  have member : value ∈ (mapItems change dict).lookup k ↔ ∃ old, (⟨k, old⟩ : Sigma _) ∈ dict.entries ∧ change k old = value := by
    rw [AList.mem_lookup_iff]
    constructor
    · intro inside
      obtain ⟨item, there, same⟩ := List.mem_map.mp inside
      cases same
      exact ⟨item.2, there, rfl⟩
    · rintro ⟨old, there, rfl⟩
      exact List.mem_map.mpr ⟨⟨k, old⟩, there, rfl⟩
  rw [← Option.mem_def, member, Option.map_eq_some_iff]
  exact exists_congr fun old => and_congr_left fun _ => AList.mem_lookup_iff.symm

theorem insert_lookup (dict : Dict Key Value) (key : Key) (value : Value) (k : Key) :
    (dict.insert key value).lookup k = if k = key then some value else dict.lookup k := by
  by_cases same : k = key
  · subst same
    simp [AList.lookup_insert]
  · simp [same, AList.lookup_insert_ne same]

theorem erase_lookup (dict : Dict Key Value) (key k : Key) :
    (dict.erase key).lookup k = if k = key then none else dict.lookup k := by
  by_cases same : k = key
  · subst same
    simp [AList.lookup_erase]
  · simp [same, AList.lookup_erase_ne same]

/-- Put the entries of some keys at other keys, each in the place of what stands there. -/
def moveKeys (moves : Key → Bool) (target : Key → Key) (dict : Dict Key Value) : Dict Key Value :=
  (dict.entries.filter fun item => moves item.1).foldl (fun moved item => moved.insert (target item.1) item.2)
    (keepKeys (fun key => !moves key) dict)

theorem foldl_insert_absent {target : Key → Key} (items : List (Sigma fun _ : Key => Value)) (start : Dict Key Value)
    {k : Key} (absent : ∀ item ∈ items, target item.1 ≠ k) :
    (items.foldl (fun moved item => moved.insert (target item.1) item.2) start).lookup k = start.lookup k := by
  induction items generalizing start with
  | nil => rfl
  | cons item rest ih =>
    rw [List.foldl_cons, ih _ fun later member => absent later (List.mem_cons_of_mem item member), insert_lookup]
    exact if_neg fun same => absent item List.mem_cons_self same.symm

theorem moveKeys_lookup {moves : Key → Bool} {target : Key → Key} (dict : Dict Key Value)
    (apart : ∀ a b, moves a = true → moves b = true → target a = target b → a = b) {key : Key} (moved : moves key = true)
    {value : Value} (found : dict.lookup key = some value) : (moveKeys moves target dict).lookup (target key) = some value := by
  have member : (⟨key, value⟩ : Sigma fun _ : Key => Value) ∈ dict.entries.filter fun item => moves item.1 :=
    List.mem_filter.mpr ⟨AList.mem_lookup_iff.mp found, moved⟩
  have distinct := dict.nodupKeys.sublist (List.filter_sublist (p := fun item => moves item.1))
  unfold moveKeys
  generalize keepKeys (fun key => !moves key) dict = start
  have all : ∀ item ∈ dict.entries.filter fun item => moves item.1, moves item.1 = true :=
    fun item inside => (List.mem_filter.mp inside).2
  generalize dict.entries.filter (fun item => moves item.1) = items at member distinct all
  induction items generalizing start with
  | nil => cases member
  | cons item rest ih =>
    rw [List.nodupKeys_cons] at distinct
    rw [List.foldl_cons]
    rcases List.mem_cons.mp member with rfl | later
    · rw [foldl_insert_absent, insert_lookup, if_pos rfl]
      intro other inside same
      have equal := apart other.1 key (all other (List.mem_cons_of_mem _ inside)) moved same
      have again : other.1 ∈ rest.keys := List.mem_keys_of_mem inside
      exact distinct.1 (equal ▸ again)
    · exact ih _ later distinct.2 fun other inside => all other (List.mem_cons_of_mem item inside)

theorem moveKeys_lookup_other {moves : Key → Bool} {target : Key → Key} (dict : Dict Key Value) {k : Key}
    (apart : ∀ key, moves key = true → dict.lookup key ≠ none → target key ≠ k) :
    (moveKeys moves target dict).lookup k = if moves k = true then none else dict.lookup k := by
  rw [moveKeys, foldl_insert_absent, keepKeys_lookup]
  · cases moves k <;> simp
  · intro item inside
    obtain ⟨there, moved⟩ := List.mem_filter.mp inside
    apply apart item.1 moved
    rw [AList.mem_lookup_iff.mpr there]
    exact Option.some_ne_none _

theorem mem_keys_iff {dict : Dict Key Value} {k : Key} : k ∈ dict.keys ↔ dict.lookup k ≠ none := by
  rw [Ne, AList.lookup_eq_none, not_not]
  rfl

end Assoc
