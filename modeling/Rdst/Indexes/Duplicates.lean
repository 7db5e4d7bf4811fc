import Rdst.Indexes.Plan

namespace Rdst.Indexes

open Assoc PyText Weeding

variable (tables : Tables) (lower : Text → Text) (inputs : Inputs)

/-- The other can take the place of the index for every read. -/
def Serves (cover x : Index) : Prop :=
  cover.plain = true ∧ methodOf lower cover.method = methodOf lower x.method ∧
    startsWith (x.key tables lower) (cover.key tables lower) = true ∧ carries tables lower cover x = true

/-- Every duplicate that the plan drops leaves an index of its own table that takes its place, and that the plan lists
among those it keeps and does not drop. -/
def SafeDrops : Prop :=
  ∀ drop ∈ (buildPlan tables lower inputs).drop, drop.reason = .duplicate →
    ∃ cover ∈ inputs.existing, cover.schema = drop.index.schema ∧ cover.table = drop.index.table ∧
      Serves tables lower cover drop.index ∧ cover ∈ (buildPlan tables lower inputs).keep ∧
      ∀ other ∈ (buildPlan tables lower inputs).drop, other.index ≠ cover

instance (cover x : Index) : Decidable (Serves tables lower cover x) := by
  unfold Serves
  infer_instance

instance : Decidable (SafeDrops tables lower inputs) := by
  unfold SafeDrops
  infer_instance

/-- Unused or stale. -/
def Idle (x : Index) : Prop := x.removable = true ∧ (idleReason tables lower inputs x).isSome = true

/-- In use, and covered, as the names are compared, by an index that is not idle. -/
def Redundant (x : Index) : Prop :=
  x.removable = true ∧ x.plain = true ∧ idleReason tables lower inputs x = none ∧
    ∃ y ∈ inputs.existing, covers tables lower x y = true ∧ ¬ Idle tables lower inputs y

def Goes (x : Index) : Prop := Idle tables lower inputs x ∨ Redundant tables lower inputs x

/-- Every redundant index has one of its own schema and table that serves in its place and has the listing of no index
that goes. -/
def OwnTableServes : Prop :=
  ∀ x ∈ inputs.existing, Redundant tables lower inputs x →
    ∃ cover ∈ inputs.existing, cover.schema = x.schema ∧ cover.table = x.table ∧ Serves tables lower cover x ∧
      ∀ w ∈ inputs.existing, Goes tables lower inputs w → listing lower w ≠ listing lower cover

variable {tables lower inputs}

theorem startsWith_iff {short long : List Text} : startsWith short long = true ↔ short ≠ [] ∧ short <+: long := by
  simp [startsWith]

theorem carries_iff {cover x : Index} : carries tables lower cover x = true ↔
    ∀ column ∈ columnsOf tables lower x.included, column ∈ cover.held tables lower := by
  simp [carries]

theorem covers_iff {x other : Index} : covers tables lower x other = true ↔
    norm lower other.table = norm lower x.table ∧ Serves tables lower other x ∧
      ((x.key tables lower).length < (other.key tables lower).length ∨ x.reads < other.reads ∨
        other.reads = x.reads ∧ other.indexName < x.indexName) := by
  simp only [covers, Serves, Bool.and_eq_true, Bool.or_eq_true, decide_eq_true_eq]
  tauto

theorem Serves.trans {x y z : Index} (first : Serves tables lower y x) (second : Serves tables lower z y) :
    Serves tables lower z x := by
  obtain ⟨-, method, starts, holds⟩ := first
  obtain ⟨plain, method', starts', holds'⟩ := second
  rw [startsWith_iff] at starts starts'
  rw [carries_iff] at holds holds'
  refine ⟨plain, method'.trans method, startsWith_iff.mpr ⟨starts.1, starts.2.trans starts'.2⟩, carries_iff.mpr ?_⟩
  intro column read
  rcases List.mem_append.mp (holds column read) with key | more
  · exact List.mem_append_left _ (starts'.2.subset key)
  · exact holds' column more

theorem covers_strict (all : List Index) : Strict (covers tables lower) all where
  irrefl := by
    intro x _
    rw [← Bool.not_eq_true, covers_iff]
    rintro ⟨-, -, less | less | ⟨-, less⟩⟩
    · exact Nat.lt_irrefl _ less
    · exact Nat.lt_irrefl _ less
    · exact List.lt_irrefl _ less
  trans := by
    intro x _ y _ z _ first second
    rw [covers_iff] at first second ⊢
    obtain ⟨table, serves, order⟩ := first
    obtain ⟨table', serves', order'⟩ := second
    refine ⟨table'.trans table, serves.trans serves', ?_⟩
    have grows := (startsWith_iff.mp serves.2.2.1).2.length_le
    have grows' := (startsWith_iff.mp serves'.2.2.1).2.length_le
    rcases order with longer | more | ⟨same, before⟩ <;> rcases order' with longer' | more' | ⟨same', before'⟩
    case inr.inr.inr.inr =>
      right
      right
      exact ⟨same'.trans same, List.lt_trans before' before⟩
    all_goals omega

theorem mem_removables {x : Index} : x ∈ removables inputs ↔ x ∈ inputs.existing ∧ x.removable = true :=
  List.mem_filter

/-- What the first loop leaves at the identity of an index. -/
theorem lookup_idle (k : Ident) : (idle tables lower inputs).lookup k =
    (((removables inputs).reverse.filterMap fun x => (idleReason tables lower inputs x).map fun reason =>
      (ident lower x, reason)).find? fun entry => entry.1 = k).map fun entry => (entry.2, none) := by
  unfold idle
  induction removables inputs using List.reverseRecOn with
  | nil => rfl
  | append_singleton front x ih =>
    rw [List.foldl_append, List.foldl_cons, List.foldl_nil, List.reverse_append, List.reverse_singleton,
      List.singleton_append]
    cases reason : idleReason tables lower inputs x with
    | none =>
      rw [List.filterMap_cons_none (by simp [reason])]
      exact ih
    | some r =>
      rw [List.filterMap_cons_some (by simp [reason]; rfl)]
      by_cases here : k = ident lower x
      · subst here
        simp
      · rw [AList.lookup_insert_ne here, List.find?_cons_of_neg (by simpa using Ne.symm here)]
        exact ih

theorem idleReason_ne (x : Index) : idleReason tables lower inputs x ≠ some .duplicate := by
  unfold idleReason
  split
  · simp
  · split
    · simp
    · split
      · split <;> simp
      · simp

theorem lookup_idle_ne {k : Ident} {cover : Option Index} :
    (idle tables lower inputs).lookup k ≠ some (.duplicate, cover) := by
  rw [lookup_idle]
  intro found
  obtain ⟨entry, found, same⟩ := Option.map_eq_some_iff.mp found
  obtain ⟨y, -, entry'⟩ := List.mem_filterMap.mp (List.mem_of_find?_eq_some found)
  obtain ⟨reason, idle, rfl⟩ := Option.map_eq_some_iff.mp entry'
  cases same
  exact idleReason_ne y idle

theorem mem_drops {drop : Drop} : drop ∈ drops tables lower inputs ↔
    ∃ x ∈ removables inputs, ∃ choice, (chosen tables lower inputs).lookup (ident lower x) = some choice ∧
      dropOf lower inputs x choice = drop := by
  rw [drops, List.mem_insertionSort, List.mem_filterMap]
  simp only [Option.map_eq_some_iff]

theorem mem_keep {x : Index} : x ∈ (buildPlan tables lower inputs).keep ↔
    x ∈ inputs.existing ∧ ∀ drop ∈ drops tables lower inputs, listing lower drop.index ≠ listing lower x := by
  simp [buildPlan]

theorem mem_order {x : Index} : x ∈ (fewestReads inputs).filter Index.plain ↔
    (x ∈ inputs.existing ∧ x.removable = true) ∧ x.plain = true := by
  rw [List.mem_filter, fewestReads, List.mem_insertionSort, mem_removables]

variable (distinct : (inputs.existing.map (ident lower)).Nodup)
include distinct

theorem ident_inj : ∀ x ∈ inputs.existing, ∀ y ∈ inputs.existing, ident lower x = ident lower y → x = y :=
  fun _ member _ member' same => List.inj_on_of_nodup_map distinct member member' same

theorem mem_idle {x : Index} (member : x ∈ inputs.existing) :
    ident lower x ∈ idle tables lower inputs ↔ Idle tables lower inputs x := by
  rw [← AList.lookup_isSome, lookup_idle, Option.isSome_map, List.find?_isSome]
  constructor
  · rintro ⟨entry, listed, same⟩
    obtain ⟨y, inside, entry'⟩ := List.mem_filterMap.mp listed
    obtain ⟨reason, idle, rfl⟩ := Option.map_eq_some_iff.mp entry'
    rw [List.mem_reverse, mem_removables] at inside
    have equal := ident_inj distinct y inside.1 x member (by simpa using same)
    rw [← equal]
    exact ⟨inside.2, by rw [idle]; rfl⟩
  · rintro ⟨removable, idle⟩
    obtain ⟨reason, idle⟩ := Option.isSome_iff_exists.mp idle
    refine ⟨(ident lower x, reason), List.mem_filterMap.mpr ⟨x, ?_, by rw [idle]; rfl⟩, by simp⟩
    rw [List.mem_reverse, mem_removables]
    exact ⟨member, removable⟩

theorem mem_chosen {x : Index} (member : x ∈ inputs.existing) (removable : x.removable = true) :
    ident lower x ∈ chosen tables lower inputs ↔ Goes tables lower inputs x := by
  have goes : ident lower x ∈ chosen tables lower inputs ↔ ident lower x ∈ idle tables lower inputs ∨
      x ∈ (fewestReads inputs).filter Index.plain ∧
        ∃ y ∈ inputs.existing, covers tables lower x y = true ∧ ident lower y ∉ idle tables lower inputs :=
    mem_weed (covers_strict inputs.existing) (ident_inj distinct) (fun y listed => (mem_order.mp listed).1.1) member
  rw [goes, mem_idle distinct member]
  unfold Goes Redundant
  constructor
  · rintro (idle | ⟨listed, y, inside, covered, busy⟩)
    · exact .inl idle
    · rw [mem_idle distinct inside] at busy
      cases reason : idleReason tables lower inputs x with
      | none => exact .inr ⟨removable, (mem_order.mp listed).2, rfl, y, inside, covered, busy⟩
      | some r => exact .inl ⟨removable, by rw [reason]; rfl⟩
  · rintro (idle | ⟨-, plain, -, y, inside, covered, busy⟩)
    · exact .inl idle
    · right
      refine ⟨mem_order.mpr ⟨⟨member, removable⟩, plain⟩, y, inside, covered, ?_⟩
      rwa [mem_idle distinct inside]

theorem chosen_duplicate {x : Index} (member : x ∈ inputs.existing) (removable : x.removable = true) :
    (∃ cover, (chosen tables lower inputs).lookup (ident lower x) = some (.duplicate, cover)) ↔
      Redundant tables lower inputs x := by
  constructor
  · rintro ⟨cover, found⟩
    have goes := (mem_chosen distinct member removable).mp (by
      rw [← AList.lookup_isSome, found]
      rfl)
    rcases goes with idle | redundant
    · rw [← mem_idle distinct member] at idle
      rw [chosen, lookup_weed idle] at found
      exact absurd found lookup_idle_ne
    · exact redundant
  · intro redundant
    have busy : ident lower x ∉ idle tables lower inputs := by
      rw [mem_idle distinct member]
      rintro ⟨-, some⟩
      rw [redundant.2.2.1] at some
      cases some
    have goes := (mem_chosen distinct member removable).mpr (.inr redundant)
    obtain ⟨choice, found⟩ := Option.isSome_iff_exists.mp (AList.lookup_isSome.mpr goes)
    obtain ⟨x', -, -, y, -, -, -, rfl⟩ := mark_of_weed busy found
    exact ⟨some y, found⟩

/-- The indexes that the plan drops, without the order in which they were taken. -/
theorem dropped_iff {x : Index} (member : x ∈ inputs.existing) :
    (∃ drop ∈ drops tables lower inputs, drop.index = x) ↔ Goes tables lower inputs x := by
  constructor
  · rintro ⟨drop, listed, rfl⟩
    obtain ⟨x, inside, choice, found, rfl⟩ := mem_drops.mp listed
    rw [mem_removables] at inside
    apply (mem_chosen distinct inside.1 inside.2).mp
    rw [← AList.lookup_isSome, found]
    rfl
  · intro goes
    have removable : x.removable = true := by
      rcases goes with idle | redundant
      · exact idle.1
      · exact redundant.1
    have there := (mem_chosen distinct member removable).mpr goes
    obtain ⟨choice, found⟩ := Option.isSome_iff_exists.mp (AList.lookup_isSome.mpr there)
    exact ⟨_, mem_drops.mpr ⟨x, mem_removables.mpr ⟨member, removable⟩, choice, found, rfl⟩, rfl⟩

theorem duplicate_iff {x : Index} (member : x ∈ inputs.existing) :
    (∃ drop ∈ drops tables lower inputs, drop.reason = .duplicate ∧ drop.index = x) ↔
      Redundant tables lower inputs x := by
  constructor
  · rintro ⟨drop, listed, duplicate, rfl⟩
    obtain ⟨x, inside, ⟨reason, cover⟩, found, rfl⟩ := mem_drops.mp listed
    rw [mem_removables] at inside
    rw [show reason = .duplicate from duplicate] at found
    exact (chosen_duplicate distinct inside.1 inside.2).mp ⟨cover, found⟩
  · intro redundant
    obtain ⟨cover, found⟩ := (chosen_duplicate distinct member redundant.1).mpr redundant
    exact ⟨_, mem_drops.mpr ⟨x, mem_removables.mpr ⟨member, redundant.1⟩, _, found, rfl⟩, rfl, rfl⟩

theorem kept_iff {x : Index} (member : x ∈ inputs.existing) :
    x ∈ (buildPlan tables lower inputs).keep ↔
      ∀ w ∈ inputs.existing, Goes tables lower inputs w → listing lower w ≠ listing lower x := by
  rw [mem_keep]
  constructor
  · rintro ⟨-, unlisted⟩ w inside goes
    obtain ⟨drop, listed, rfl⟩ := (dropped_iff distinct inside).mpr goes
    exact unlisted drop listed
  · intro apart
    refine ⟨member, ?_⟩
    intro drop listed
    obtain ⟨w, inside, choice, -, rfl⟩ := mem_drops.mp listed
    have there := (mem_removables.mp inside).1
    exact apart w there ((dropped_iff distinct there).mp ⟨_, listed, rfl⟩)

/-- The drops are safe exactly where every redundant index has a substitute on its own table that stays. -/
theorem drops_safe_iff : SafeDrops tables lower inputs ↔ OwnTableServes tables lower inputs := by
  constructor
  · intro safe x member redundant
    obtain ⟨drop, listed, duplicate, rfl⟩ := (duplicate_iff distinct member).mpr redundant
    obtain ⟨cover, inside, schema, table, serves, kept, -⟩ := safe drop listed duplicate
    exact ⟨cover, inside, schema, table, serves, (kept_iff distinct inside).mp kept⟩
  · intro own drop listed duplicate
    obtain ⟨x, inside, choice, -, rfl⟩ := mem_drops.mp listed
    have member := (mem_removables.mp inside).1
    have redundant := (duplicate_iff distinct member).mp ⟨_, listed, duplicate, rfl⟩
    obtain ⟨cover, there, schema, table, serves, apart⟩ := own x member redundant
    have kept := (kept_iff distinct there).mpr apart
    refine ⟨cover, there, schema, table, serves, kept, ?_⟩
    rintro other listed' rfl
    exact (mem_keep.mp kept).2 other listed' rfl

omit distinct

/-- `str.lower` of an ASCII text. -/
def asciiLower (text : Text) : Text := text.map Char.toLower

def onEmail (schema name : String) (scans : Nat) : Index where
  schema := schema.toList
  table := "users".toList
  indexName := name.toList
  columns := ["email".toList]
  included := []
  method := "btree".toList
  isPartial := false
  valid := true
  unique := false
  primary := false
  scans := some scans
  windowScans := 1
  sizeBytes := 0
  lastScanAt := none
  firstSeen := none

def inputsOf (existing : List Index) : Inputs where
  now := 0
  observedSeconds := 0
  counterAgeSeconds := 0
  existing := existing
  writesPerSecond _ := 0
  filtered _ := []
  replicas := false

theorem drops_safe_one_schema :
    SafeDrops asciiTables asciiLower (inputsOf [onEmail "a" "one" 1, onEmail "a" "two" 2]) ↔
      OwnTableServes asciiTables asciiLower (inputsOf [onEmail "a" "one" 1, onEmail "a" "two" 2]) :=
  drops_safe_iff (by decide +kernel)

/-- The index of one schema's table goes as the duplicate of the other's. -/
theorem other_schema_covers :
    ¬ SafeDrops asciiTables asciiLower (inputsOf [onEmail "a" "one" 1, onEmail "b" "two" 2]) := by
  decide +kernel

end Rdst.Indexes
