import Rdst.Web.CapturedParams

namespace Rdst.Web.SqlParameters

open PyText Regex Weaving Assoc

section Slices

theorem units_cons (c : Char) (text : List Char) : units (c :: text) = units [c] + units text := by
  simp [units]

theorem units_append (first second : List Char) : units (first ++ second) = units first + units second := by
  simp [units]

theorem units_reverse (text : List Char) : units text.reverse = units text := by
  simp [units, List.map_reverse, List.sum_reverse]

theorem units_single (c : Char) : 0 < units [c] := by
  simp only [units, List.map_cons, List.map_nil, List.sum_cons, List.sum_nil]
  split <;> omega

theorem dropUnits_append (front rest : List Char) : dropUnits (units front) (front ++ rest) = rest := by
  induction front with
  | nil => cases rest <;> simp [dropUnits, units]
  | cons c front ih =>
    have first := units_single c
    have left : units (c :: front) - units [c] = units front := by
      rw [units_cons]
      omega
    have some_ : units (c :: front) ≠ 0 := by
      rw [units_cons]
      omega
    rw [List.cons_append, dropUnits, if_neg some_, left, ih]

theorem takeUnits_append (front rest : List Char) : takeUnits (units front) (front ++ rest) = front := by
  induction front with
  | nil => cases rest <;> simp [takeUnits, units]
  | cons c front ih =>
    have first := units_single c
    have left : units (c :: front) - units [c] = units front := by
      rw [units_cons]
      omega
    have some_ : units (c :: front) ≠ 0 := by
      rw [units_cons]
      omega
    rw [List.cons_append, takeUnits, if_neg some_, left, ih]

theorem slice_between (done between rest : List Char) :
    slice (done ++ (between ++ rest)) (units done) (units (done ++ between)) = between := by
  have width : units (done ++ between) - units done = units between := by
    rw [units_append]
    omega
  rw [slice, dropUnits_append, width, takeUnits_append]

end Slices

section Marks

/-- The slots of a text, each with the number of question marks up to it. -/
def numberSlots : Nat → List PlaceholderMatch → List (PlaceholderMatch × Nat)
  | _, [] => []
  | n, found :: rest =>
    let n' := if found.token = ['?'] then n + 1 else n
    (found, n') :: numberSlots n' rest

def slots (sql : List Char) : List (PlaceholderMatch × Nat) := numberSlots 0 (scanPlaceholders sql)

/-- The text with something written in the place of each slot. -/
def fillSlots (sql : List Char) (written : PlaceholderMatch × Nat → List Char) : List Char :=
  weave (slice sql) (fun place => dropUnits place sql) (fun s => s.1.start) (fun s => s.1.stop) written 0 (slots sql)

/-- A turn of the scanner takes a front of the text, which is the slot if it is one. -/
theorem scanAt_passed (before : Option Char) (c : Char) (rest : List Char) :
    ∃ taken, rest = taken ++ (scanAt before c rest).2 ∧ ∀ token, (scanAt before c rest).1 = some token →
      token = c :: taken ∧ ((c = '$' ∨ c = ':' ∨ c = '@') ∨ token = ['?']) := by
  cases region : regionAt c rest with
  | some left =>
    obtain ⟨taken, split, -⟩ := region_passes region
    rw [scanAt_region region]
    exact ⟨taken, split, nofun⟩
  | none =>
    rw [scanAt_code region, slotAt]
    split
    · rename_i begins
      have dollar : c = '$' := by simpa [numberSlot] using begins.1
      refine ⟨rest.takeWhile Char.isDigit, List.takeWhile_append_dropWhile.symm, ?_⟩
      rintro token ⟨⟩
      exact ⟨rfl, .inl (.inl dollar)⟩
    split
    · rename_i question
      refine ⟨[], rfl, ?_⟩
      rintro token ⟨⟩
      exact ⟨rfl, .inr (by rw [question])⟩
    split
    · rename_i begins
      have mark : c = ':' ∨ c = '@' := by simpa [nameSlot, or_iff_not_imp_left] using begins.1
      refine ⟨rest.takeWhile inName, List.takeWhile_append_dropWhile.symm, ?_⟩
      rintro token ⟨⟩
      exact ⟨rfl, .inl (.inr mark)⟩
    · exact ⟨[], rfl, nofun⟩

/-- The first character of a token tells its kind. -/
def Sign (token : List Char) : Prop := (token.head? = some '$' ∨ token.head? = some ':' ∨ token.head? = some '@') ∨ token = ['?']

theorem scanFrom_signs (fuel : Nat) (before rest : List Char) : ∀ found ∈ scanFrom fuel before rest, Sign found.token := by
  induction fuel generalizing before rest with
  | zero => exact nofun
  | succ fuel ih =>
    cases rest with
    | nil => exact nofun
    | cons c rest =>
      obtain ⟨taken, -, token_spec⟩ := scanAt_passed before.head? c rest
      intro found member
      rw [scanFrom] at member
      rcases List.mem_append.mp member with here | later
      · obtain ⟨token, slot, rfl⟩ := Option.map_eq_some_iff.mp (Option.mem_toList.mp here)
        obtain ⟨rfl, kind⟩ := token_spec token slot
        exact kind.imp_left fun head => by simpa using head
      · exact ih _ _ found later

theorem mem_numberSlots {n : Nat} {found : List PlaceholderMatch} {s : PlaceholderMatch × Nat} (member : s ∈ numberSlots n found) :
    s.1 ∈ found ∧ (s.1.token = ['?'] → n < s.2 ∧ s.2 ≤ n + found.countP fun m => m.token = ['?']) := by
  induction found generalizing n with
  | nil => cases member
  | cons m found ih =>
    rw [numberSlots] at member
    rcases List.mem_cons.mp member with rfl | later
    · refine ⟨List.mem_cons_self, fun question => ?_⟩
      change m.token = ['?'] at question
      rw [List.countP_cons_of_pos (by simpa using question), if_pos question]
      omega
    · obtain ⟨member, bounds⟩ := ih later
      refine ⟨List.mem_cons_of_mem m member, fun question => ?_⟩
      have bounds := bounds question
      by_cases here : m.token = ['?']
      · rw [if_pos here] at bounds
        rw [List.countP_cons_of_pos (by simpa using here)]
        omega
      · rw [if_neg here] at bounds
        rw [List.countP_cons_of_neg (by simpa using here)]
        omega

/-- Each number up to that of the question marks is that of one. -/
theorem numberSlots_covers {n k : Nat} {found : List PlaceholderMatch} (least : n < k)
    (most : k ≤ n + found.countP fun m => m.token = ['?']) : ∃ m, m.token = ['?'] ∧ (m, k) ∈ numberSlots n found := by
  induction found generalizing n with
  | nil =>
    rw [List.countP_nil] at most
    omega
  | cons m found ih =>
    rw [numberSlots]
    by_cases here : m.token = ['?']
    · rw [List.countP_cons_of_pos (by simpa using here)] at most
      rw [if_pos here]
      by_cases first : k = n + 1
      · exact ⟨m, here, by rw [first]; exact List.mem_cons_self⟩
      · obtain ⟨other, question, member⟩ := @ih (n + 1) (by omega) (by omega)
        exact ⟨other, question, List.mem_cons_of_mem _ member⟩
    · rw [List.countP_cons_of_neg (by simpa using here)] at most
      rw [if_neg here]
      obtain ⟨other, question, member⟩ := ih least most
      exact ⟨other, question, List.mem_cons_of_mem _ member⟩

theorem exists_slot {n : Nat} {found : List PlaceholderMatch} {m : PlaceholderMatch} (member : m ∈ found) :
    ∃ k, (m, k) ∈ numberSlots n found := by
  induction found generalizing n with
  | nil => cases member
  | cons other found ih =>
    rw [numberSlots]
    rcases List.mem_cons.mp member with rfl | later
    · exact ⟨_, List.mem_cons_self⟩
    · obtain ⟨k, there⟩ := @ih (if other.token = ['?'] then n + 1 else n) later
      exact ⟨k, List.mem_cons_of_mem _ there⟩

/-- With its own token in the place of each slot the text is as it was. -/
theorem weave_tokens (fuel n : Nat) (sql done between rest : List Char) (split : sql = done ++ (between ++ rest))
    (enough : rest.length < fuel) :
    weave (slice sql) (fun place => dropUnits place sql) (fun s => s.1.start) (fun s => s.1.stop) (fun s => s.1.token)
      (units done) (numberSlots n (scanFrom fuel (done ++ between).reverse rest)) = between ++ rest := by
  induction fuel generalizing n done between rest with
  | zero => omega
  | succ fuel ih =>
    cases rest with
    | nil =>
      rw [scanFrom, numberSlots, weave, split, dropUnits_append]
    | cons c rest =>
      obtain ⟨taken, parts, token_spec⟩ := scanAt_passed (done ++ between).reverse.head? c rest
      rw [scanFrom]
      generalize scanAt (done ++ between).reverse.head? c rest = turn at parts token_spec
      obtain ⟨slot, left⟩ := turn
      change rest = taken ++ left at parts
      subst parts
      rw [List.length_cons, List.length_append] at enough
      simp only [passed_taken]
      cases slot with
      | none =>
        have later := ih n done (between ++ c :: taken) left (by rw [split]; simp) (by omega)
        have same : (c :: taken).reverse ++ (done ++ between).reverse = (done ++ (between ++ c :: taken)).reverse := by simp
        rw [same]
        simpa using later
      | some token =>
        obtain ⟨rfl, -⟩ := token_spec token rfl
        have whole : sql = done ++ between ++ (c :: taken) ++ ([] ++ left) := by rw [split]; simp
        have from_ : units (done ++ between).reverse = units (done ++ between) := units_reverse _
        have to_ : units (done ++ between) + units (c :: taken) = units (done ++ between ++ c :: taken) := (units_append _ _).symm
        have later := fun n' => ih n' (done ++ between ++ c :: taken) [] left whole (by omega)
        have same : (c :: taken).reverse ++ (done ++ between).reverse = (done ++ between ++ c :: taken ++ []).reverse := by simp
        simp only [Option.map_some, Option.toList_some, List.singleton_append, numberSlots, weave, from_, to_, same, later]
        have here : slice sql (units done) (units (done ++ between)) = between := by
          rw [split]
          exact slice_between done between _
        rw [here]
        simp

theorem fillSlots_tokens (sql : List Char) : fillSlots sql (fun s => s.1.token) = sql :=
  weave_tokens _ 0 sql [] [] sql rfl (Nat.lt_succ_self _)

theorem fillSlots_congr {sql : List Char} {written written' : PlaceholderMatch × Nat → List Char}
    (same : ∀ s ∈ slots sql, written s = written' s) : fillSlots sql written = fillSlots sql written' :=
  weave_congr same 0

end Marks

section Loop

variable (tables : Tables)

/-- The key that the values of the dialog have for a slot. -/
def valueKey (s : PlaceholderMatch × Nat) : List Char := if s.1.token = ['?'] then questionKey s.2 else s.1.token

/-- The loop leaves what the slots from its place on are filled with. -/
theorem substitution_run (sql : List Char) (params : List Parameter) (values : Dict (List Char) (List Char))
    (found : List PlaceholderMatch) (s : Substitution) :
    (found.foldl (Substitution.next tables sql params values) s).result ++
        dropUnits (found.foldl (Substitution.next tables sql params values) s).cursor sql =
      s.result ++ weave (slice sql) (fun place => dropUnits place sql) (fun m => m.1.start) (fun m => m.1.stop)
        (fun m => substituted tables params values m.1.token (valueKey m)) s.cursor (numberSlots s.questionIndex found) := by
  induction found generalizing s with
  | nil => rfl
  | cons m found ih =>
    rw [List.foldl_cons, ih, Substitution.next, numberSlots]
    by_cases question : m.token = ['?']
    · simp [question, weave, valueKey]
    · simp [question, weave, valueKey]

theorem substituteParameters_slots (sql : List Char) (params : List Parameter) (values : Dict (List Char) (List Char)) :
    substituteParameters tables sql params values =
      fillSlots sql fun s => substituted tables params values s.1.token (valueKey s) :=
  substitution_run tables sql params values (scanPlaceholders sql) ⟨[], 0, 0⟩

end Loop

section Listed

/-- What the detection lists is a token, typed by its first character. -/
structure Typed (sql : List Char) (p : Parameter) : Prop where
  found : ∃ m ∈ scanPlaceholders sql, m.token = p.placeholder
  named : p.type = .named ↔ p.placeholder.head? = some ':' ∨ p.placeholder.head? = some '@'

theorem typed_add {sql : List Char} {params : List Parameter} {q : Parameter} (typed : ∀ p ∈ params, Typed sql p)
    (new : Typed sql q) : ∀ p ∈ params ++ [q], Typed sql p := by
  intro p member
  rcases List.mem_append.mp member with old | last
  · exact typed p old
  · rw [List.mem_singleton.mp last]
    exact new

theorem detect_typed {sql : List Char} {p : Parameter} (member : p ∈ detectParameters sql) : Typed sql p := by
  have dollars : ∀ p ∈ ((scanPlaceholders sql).foldl Detected.dollar ⟨[], []⟩).params, Typed sql p := by
    apply List.foldlRecOn (motive := fun s : Detected => ∀ p ∈ s.params, Typed sql p)
    · exact nofun
    · intro s typed m found
      rw [Detected.dollar]
      split
      · exact typed
      · rename_i taken
        have dollar := not_not.mp (not_or.mp taken).1
        exact typed_add typed ⟨⟨m, found, rfl⟩, by simp [dollar]⟩
  have questions : ∀ p ∈ ((scanPlaceholders sql).foldl numberQuestion
      (1, ((scanPlaceholders sql).foldl Detected.dollar ⟨[], []⟩).params)).2, Typed sql p := by
    apply List.foldlRecOn (motive := fun s : Nat × List Parameter => ∀ p ∈ s.2, Typed sql p)
    · exact dollars
    · intro s typed m found
      rw [numberQuestion]
      split
      · exact typed
      · rename_i question
        exact typed_add typed ⟨⟨m, found, not_not.mp question⟩, by simp⟩
  rw [detectParameters, List.mem_insertionSort] at member
  revert p
  apply List.foldlRecOn (motive := fun s : Detected => ∀ p ∈ s.params, Typed sql p)
  · exact questions
  · intro s typed m found
    rw [Detected.name]
    split
    · exact typed
    · rename_i taken
      have mark := not_not.mp (not_or.mp taken).1
      exact typed_add typed ⟨⟨m, found, rfl⟩, fun _ => mark, fun _ => rfl⟩

theorem number_key {a b : Nat} (same : questionKey a = questionKey b) : a = b := by
  have digits : ∀ n : Nat, (toString n).toList = Nat.toDigits 10 n := fun n => String.toList_ofList
  simp only [questionKey, List.cons.injEq, true_and, digits] at same
  have read := congrArg (fun text => Nat.ofDigitChars 10 text 0) same
  simpa only [Nat.ofDigitChars_toDigits (by decide : 1 < 10) (by decide)] using read

/-- How many question marks are slots. -/
def questions (sql : List Char) : Nat := (scanPlaceholders sql).countP fun m => m.token = ['?']

theorem key_kinds (sql k : List Char) : k ∈ (detectParameters sql).map parameterValueKey ↔
    (∃ m ∈ scanPlaceholders sql, m.token = k ∧ (k.head? = some '$' ∨ k.head? = some ':' ∨ k.head? = some '@')) ∨
      ∃ n, 1 ≤ n ∧ n ≤ questions sql ∧ k = questionKey n := by
  rw [listed_keys, List.countP_map]
  simp only [List.mem_filter, List.mem_map, decide_eq_true_eq]
  constructor
  · rintro (⟨⟨m, member, rfl⟩, dollar⟩ | numbered | ⟨⟨m, member, rfl⟩, mark⟩)
    · exact .inl ⟨m, member, rfl, .inl dollar⟩
    · exact .inr numbered
    · exact .inl ⟨m, member, rfl, .inr mark⟩
  · rintro (⟨m, member, rfl, dollar | mark⟩ | numbered)
    · exact .inl ⟨⟨m, member, rfl⟩, dollar⟩
    · exact .inr (.inr ⟨⟨m, member, rfl⟩, mark⟩)
    · exact .inr (.inl numbered)

theorem detect_question {sql : List Char} {p : Parameter} (member : p ∈ detectParameters sql) (question : p.placeholder = ['?']) :
    1 ≤ p.index ∧ p.index ≤ questions sql := by
  have key := (key_kinds sql (parameterValueKey p)).mp (List.mem_map_of_mem member)
  rw [parameterValueKey, if_pos question] at key
  rcases key with ⟨m, -, -, head⟩ | ⟨n, least, most, same⟩
  · simp [questionKey] at head
  · rw [number_key same]
    exact ⟨least, most⟩

theorem question_listed {sql : List Char} {n : Nat} (least : 1 ≤ n) (most : n ≤ questions sql) :
    ∃ p ∈ detectParameters sql, p.placeholder = ['?'] ∧ p.index = n := by
  obtain ⟨p, member, key⟩ := List.mem_map.mp ((key_kinds sql (questionKey n)).mpr (.inr ⟨n, least, most, rfl⟩))
  rw [parameterValueKey] at key
  split at key
  · rename_i question
    exact ⟨p, member, question, number_key key⟩
  · rename_i other
    obtain ⟨m, found, token⟩ := (detect_typed member).found
    rcases scanFrom_signs _ _ _ m found with sign | question
    · rw [token, key] at sign
      simp [questionKey] at sign
    · exact absurd (token.symm.trans question) other

theorem token_listed {sql : List Char} {m : PlaceholderMatch} (found : m ∈ scanPlaceholders sql) (other : m.token ≠ ['?']) :
    ∃ p ∈ detectParameters sql, p.placeholder = m.token := by
  have sign := (scanFrom_signs _ _ _ m found).resolve_right other
  obtain ⟨p, member, key⟩ := List.mem_map.mp ((key_kinds sql m.token).mpr (.inl ⟨m, found, rfl, sign⟩))
  rw [parameterValueKey] at key
  split at key
  · rw [← key] at sign
    simp [questionKey] at sign
  · exact ⟨p, member, key⟩

/-- The name under which a value of a slot is stored. -/
def slotKey (s : PlaceholderMatch × Nat) : List Char :=
  match s.1.token with
  | [] => []
  | c :: name => if c = '?' then 'p' :: (toString s.2).toList else if c = '$' then 'p' :: name else name

theorem backendKey_slot {sql : List Char} {p : Parameter} {s : PlaceholderMatch × Nat} (member : p ∈ detectParameters sql)
    (slot : s ∈ slots sql) (same : p.placeholder = s.1.token) (number : s.1.token = ['?'] → p.index = s.2) :
    toBackendParamKey p = slotKey s := by
  have typed := (detect_typed member).named
  have sign : Sign p.placeholder := by
    rw [same]
    exact scanFrom_signs _ _ _ s.1 (mem_numberSlots slot).1
  rw [← same] at number
  rw [toBackendParamKey, slotKey, ← same]
  cases shape : p.placeholder with
  | nil => simp [shape, Sign] at sign
  | cons c name =>
    rw [shape, List.head?_cons, Option.some_inj, Option.some_inj] at typed
    rcases sign with (dollar | colon | at_) | question
    · have first : c = '$' := by simpa [shape] using dollar
      subst first
      have positional : p.type ≠ .named := fun named => absurd (typed.mp named) (by decide)
      simp [positional, dollarToP]
    · have first : c = ':' := by simpa [shape] using colon
      simp [typed.mpr (.inl first), withoutSign, first]
    · have first : c = '@' := by simpa [shape] using at_
      simp [typed.mpr (.inr first), withoutSign, first]
    · have whole : c = '?' ∧ name = [] := by simpa [shape] using question
      have positional : p.type ≠ .named := by
        intro named
        rw [whole.1] at typed
        exact absurd (typed.mp named) (by decide)
      simp [positional, whole.1, number question]

end Listed

section Assigned

variable {Item : Type*} {items : List Item} {key : Item → List Char} {value : Item → Option (List Char)} {k x : List Char}

/-- Where all that is assigned at a key is one value, it has that value. -/
theorem assigned_lookup (plain : k ≠ protoKey) (agree : ∀ i ∈ items, key i = k → ∀ y ∈ value i, y = x)
    (record : Dict (List Char) (List Char)) :
    (items.foldl (fun record i =>
      match value i with
      | some v => assign record (key i) v
      | none => record) record).lookup k =
      if ∃ i ∈ items, key i = k ∧ value i ≠ none then some x else record.lookup k := by
  induction items generalizing record with
  | nil => simp
  | cons i items ih =>
    have later := fun record => ih (fun j member => agree j (List.mem_cons_of_mem i member)) record
    rw [List.foldl_cons, later]
    by_cases rest : ∃ j ∈ items, key j = k ∧ value j ≠ none
    · obtain ⟨j, member, assigned⟩ := rest
      rw [if_pos ⟨j, member, assigned⟩, if_pos ⟨j, List.mem_cons_of_mem i member, assigned⟩]
    · rw [if_neg rest]
      cases here : value i with
      | none =>
        have none_ : ¬ ∃ j ∈ i :: items, key j = k ∧ value j ≠ none := by
          rintro ⟨j, member, same, some_⟩
          rcases List.mem_cons.mp member with rfl | later
          · exact some_ here
          · exact rest ⟨j, later, same, some_⟩
        rw [if_neg none_]
      | some v =>
        by_cases same : key i = k
        · have equal := agree i List.mem_cons_self same v here
          rw [if_pos ⟨i, List.mem_cons_self, same, by simp [here]⟩]
          simp only [assign, same, if_neg plain, insert_lookup, if_true, equal]
        · have none_ : ¬ ∃ j ∈ i :: items, key j = k ∧ value j ≠ none := by
            rintro ⟨j, member, found, some_⟩
            rcases List.mem_cons.mp member with rfl | later
            · exact same found
            · exact rest ⟨j, later, found, some_⟩
          rw [if_neg none_]
          by_cases proto : key i = protoKey
          · simp only [assign, if_pos proto]
          · simp only [assign, if_neg proto, insert_lookup, if_neg (Ne.symm same)]

theorem assigned_proto (record : Dict (List Char) (List Char)) :
    (items.foldl (fun record i =>
      match value i with
      | some v => assign record (key i) v
      | none => record) record).lookup protoKey = record.lookup protoKey := by
  induction items generalizing record with
  | nil => rfl
  | cons i items ih =>
    rw [List.foldl_cons, ih]
    cases value i with
    | none => rfl
    | some v =>
      by_cases proto : key i = protoKey
      · simp only [assign, if_pos proto]
      · simp only [assign, if_neg proto, insert_lookup, if_neg (Ne.symm proto)]

end Assigned

section Filled

variable (tables : Tables) {Value : Type} (text : Value → Option (List Char)) (stored : Option (Dict (List Char) Value))

/-- What the record of stored values shows for a key. -/
def shown (key : List Char) : List Char :=
  match stored with
  | none => []
  | some record => (property text record key).getD []

theorem resolve_shown (p : Parameter) : resolveInitialValue text p stored = shown text stored (toBackendParamKey p) := by
  cases stored <;> rfl

/-- The parameters that are filled, and the values for them. -/
def filledParams (sql : List Char) : List Parameter :=
  (detectParameters sql).filter fun p => resolveInitialValue text p stored ≠ []

def filledValues (sql : List Char) : Dict (List Char) (List Char) :=
  (filledParams text stored sql).foldl
    (fun values p => assign values p.placeholder (resolveInitialValue text p stored)) ∅

def filling (sql : List Char) (s : PlaceholderMatch × Nat) : List Char :=
  substituted tables (filledParams text stored sql) (filledValues text stored sql) s.1.token (valueKey s)

theorem fill_slots (sql : List Char) :
    fillCapturedParams tables text sql stored = fillSlots sql (filling tables text stored sql) := by
  rw [fillCapturedParams]
  have unfilled : filledParams text stored sql = [] → sql = fillSlots sql (filling tables text stored sql) := by
    intro none_
    have tokens : fillSlots sql (filling tables text stored sql) = fillSlots sql fun s => s.1.token :=
      fillSlots_congr fun s _ => by simp [filling, substituted, none_]
    rw [tokens, fillSlots_tokens]
  by_cases undetected : detectParameters sql = []
  · rw [if_pos undetected]
    exact unfilled (by simp [filledParams, undetected])
  rw [if_neg undetected]
  by_cases none_ : filledParams text stored sql = []
  · exact (if_pos none_).trans (unfilled none_)
  · exact (if_neg none_).trans (substituteParameters_slots tables sql _ _)

variable {tables text stored} {sql : List Char} {s : PlaceholderMatch × Nat}

theorem inherited_question (n : Nat) : inherited (questionKey n) = none := by
  have apart : ∀ key ∈ protoKey :: "constructor".toList :: objectMethods, key.head? ≠ some '?' := by decide
  have other : questionKey n ∉ protoKey :: "constructor".toList :: objectMethods := fun member => apart _ member rfl
  simp only [List.mem_cons, not_or] at other
  rw [inherited, if_neg other.1, if_neg other.2.1, if_neg other.2.2]

/-- A slot with a name of its own is filled with what the record shows. -/
theorem filling_named (slot : s ∈ slots sql) (other : s.1.token ≠ ['?']) : filling tables text stored sql s =
    if shown text stored (slotKey s) = [] then s.1.token else formatValue tables (shown text stored (slotKey s)) := by
  have same : ∀ p ∈ detectParameters sql, p.placeholder = s.1.token →
      resolveInitialValue text p stored = shown text stored (slotKey s) := by
    intro p member token
    rw [resolve_shown, backendKey_slot member slot token fun question => absurd question other]
  obtain ⟨p, member, token⟩ := token_listed (mem_numberSlots slot).1 other
  rw [filling, substituted, valueKey, if_neg other]
  by_cases none_ : shown text stored (slotKey s) = []
  · have unfilled : ¬ ∃ p ∈ filledParams text stored sql, p.placeholder = s.1.token := by
      rintro ⟨p, filled, token⟩
      obtain ⟨member, some_⟩ := List.mem_filter.mp filled
      exact of_decide_eq_true some_ ((same p member token).trans none_)
    rw [if_neg unfilled, if_pos none_]
  · have filled : p ∈ filledParams text stored sql :=
      List.mem_filter.mpr ⟨member, decide_eq_true (by rw [same p member token]; exact none_)⟩
    have plain : s.1.token ≠ protoKey := by
      intro proto
      have sign := (scanFrom_signs _ _ _ s.1 (mem_numberSlots slot).1).resolve_right other
      rw [proto] at sign
      exact absurd sign (by decide)
    have value : (filledValues text stored sql).lookup s.1.token = some (shown text stored (slotKey s)) := by
      have looked := @assigned_lookup _ (filledParams text stored sql) Parameter.placeholder
        (fun p => some (resolveInitialValue text p stored)) s.1.token (shown text stored (slotKey s)) plain
        (by
          intro q filled token y shows
          rw [← Option.some_inj.mp shows]
          exact same q (List.mem_filter.mp filled).1 token) ∅
      rw [if_pos ⟨p, filled, token, by simp⟩] at looked
      exact looked
    rw [if_pos ⟨p, filled, token⟩, if_neg none_, property, value]
    rfl

theorem filledValues_question (n : Nat) : (filledValues text stored sql).lookup (questionKey n) = none := by
  have unplaced : ∀ p ∈ filledParams text stored sql, p.placeholder ≠ questionKey n := by
    intro p filled key
    obtain ⟨m, found, token⟩ := (detect_typed (List.mem_filter.mp filled).1).found
    rw [key] at token
    rcases scanFrom_signs _ _ _ m found with sign | question
    · simp [token, questionKey] at sign
    · rw [token] at question
      simp [questionKey] at question
  have plain : questionKey n ≠ protoKey := by
    intro proto
    have heads : some '?' = protoKey.head? := congrArg List.head? proto
    exact absurd heads (by decide)
  have looked := @assigned_lookup _ (filledParams text stored sql) Parameter.placeholder
    (fun p => some (resolveInitialValue text p stored)) (questionKey n) [] plain
    (fun p filled key => absurd key (unplaced p filled)) ∅
  have none_ : ¬ ∃ p ∈ filledParams text stored sql,
      p.placeholder = questionKey n ∧ some (resolveInitialValue text p stored) ≠ none := by
    rintro ⟨p, filled, key, -⟩
    exact unplaced p filled key
  rw [if_neg none_] at looked
  exact looked

/-- The question marks are all filled with nothing as soon as the record shows something for one. -/
theorem filling_question (question : s.1.token = ['?']) {n : Nat} (least : 1 ≤ n) (most : n ≤ questions sql)
    (shows : shown text stored ('p' :: (toString n).toList) ≠ []) :
    filling tables text stored sql s = formatValue tables [] := by
  obtain ⟨p, member, placeholder, index⟩ := question_listed least most
  have typed := (detect_typed member).named
  have positional : p.type ≠ .named := by
    intro named
    rw [placeholder] at typed
    exact absurd (typed.mp named) (by decide)
  have key : toBackendParamKey p = 'p' :: (toString n).toList := by
    rw [toBackendParamKey, if_neg positional, placeholder, index, if_neg (by decide)]
  have filled : p ∈ filledParams text stored sql :=
    List.mem_filter.mpr ⟨member, decide_eq_true (by rw [resolve_shown, key]; exact shows)⟩
  rw [filling, substituted, if_pos ⟨p, filled, placeholder.trans question.symm⟩, valueKey, if_pos question, property,
    filledValues_question]
  simp only [inherited_question, Option.getD_none]

theorem filling_question_none (question : s.1.token = ['?'])
    (none_ : ∀ n, 1 ≤ n → n ≤ questions sql → shown text stored ('p' :: (toString n).toList) = []) :
    filling tables text stored sql s = ['?'] := by
  have unfilled : ¬ ∃ p ∈ filledParams text stored sql, p.placeholder = s.1.token := by
    rintro ⟨p, filled, token⟩
    obtain ⟨member, some_⟩ := List.mem_filter.mp filled
    rw [question] at token
    obtain ⟨least, most⟩ := detect_question member token
    have typed := (detect_typed member).named
    have positional : p.type ≠ .named := by
      intro named
      rw [token] at typed
      exact absurd (typed.mp named) (by decide)
    apply of_decide_eq_true some_
    rw [resolve_shown, toBackendParamKey, if_neg positional, token, if_neg (by decide)]
    exact none_ p.index least most
  rw [filling, substituted, if_neg unfilled, question]

end Filled

end Rdst.Web.SqlParameters
