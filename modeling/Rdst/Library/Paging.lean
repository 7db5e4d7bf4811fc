import Rdst.Library.Agreement

namespace Rdst.Library.Listing

open Float64 Keyset

/-- The JSON value of a cursor, its numbers as they are written. -/
inductive Payload
  | null
  | bool (value : Bool)
  | number (value : Decimal)
  | notANumber
  | text (value : Text)
  | array (items : List Payload)
  | object (fields : List (Text × Payload))

/-- What a cursor's base64 says, nothing where it is not that of a JSON text. -/
abbrev Opaque := Option Payload

def encodeCursor (position : Position) (spec : Text) : Opaque :=
  some (.object [(['v'], .number position.value.repr), (['h'], .text position.hash), (['s'], .text spec)])

/-- The value of a field; of a repeated one the last. -/
def getField (fields : List (Text × Payload)) (name : Text) : Option Payload := fields.reverse.lookup name

def malformed : Text := "Malformed cursor".toList

def mismatched : Text := "Cursor does not match the requested sort/filter spec".toList

def decodeCursor (cursor : Opaque) (expectedSpec : Text) : Except Text Position :=
  match cursor with
  | some (.object fields) =>
    match getField fields ['v'], getField fields ['h'], getField fields ['s'] with
    | some (.number value), some (.text hash), some (.text spec) =>
      match Double.round value.value with
      | none => .error malformed
      | some value => if spec = expectedSpec then .ok ⟨value, hash⟩ else .error mismatched
    | _, _, _ => .error malformed
  | _ => .error malformed

structure Response where
  entries : List Entry
  nextCursor : Option Opaque
  total : Nat

section Requests

variable (p : Platform) (library : LibraryTable p) (specHash : Filters → Text) (filters : Filters) (nowMs : Double)
  (limit : Nat)

def cursorPosition (cursor : Option Opaque) : Except Text (Option Position) :=
  match cursor with
  | none => .ok none
  | some cursor => (decodeCursor cursor (specHash filters)).map some

/-- A request that the database answers. -/
def databasePage (cursor : Option Opaque) : Except Text Response :=
  (cursorPosition specHash filters cursor).map fun position =>
    let page := queryLibrary p library.rows filters position limit nowMs
    ⟨page.entries, page.next.map fun next => encodeCursor next (specHash filters), page.total⟩

/-- A request that the selectors answer. -/
def memoryPage (cursor : Option Opaque) : Except Text Response :=
  (cursorPosition specHash filters cursor).map fun position =>
    let selected := (selectLibrary p nowMs filters (library.entriesOf p filters.target)).1
    let (page, next) := paginate p filters selected position limit
    ⟨page, next.map fun next => encodeCursor next (specHash filters), selected.length⟩

/-- The entries that a request matches. -/
def matching : List Entry :=
  (candidates p filters (library.entriesOf p filters.target)).filter (meetsAll p nowMs filters)

/-- Follow the cursors from the first page on. -/
def followCursors (fetch : Option Opaque → Except Text Response) (fuel : Nat) : Option (List (List Entry)) :=
  follow (fun cursor => (fetch cursor).toOption.map fun response => (response.entries, response.nextCursor)) fuel none

/-- The cursors end after every matching entry came once, in order, on pages of at most `limit` entries. -/
structure Pages (fetch : Option Opaque → Except Text Response) (pages : List (List Entry)) : Prop where
  followed : followCursors fetch ((matching p library filters nowMs).length + 1) = some pages
  once : pages.flatten.Perm (matching p library filters nowMs)
  ordered : pages.flatten.Pairwise fun a b => (a.position p filters).Before (b.position p filters)
  small : ∀ page ∈ pages, page.length ≤ limit
  total : ∀ cursor response, fetch cursor = .ok response → response.total = pages.flatten.length

end Requests

theorem decode_encode (position : Position) (spec : Text) : decodeCursor (encodeCursor position spec) spec = .ok position := by
  have value : Double.round position.value.repr.value = some position.value := Double.round_eq position.value.repr_read
  simp [decodeCursor, encodeCursor, getField, List.lookup_cons, value]

variable {p : Platform} {nowMs : Double} {filters : Filters}

theorem remaining_after (entries : List Entry) (cursor : Option Position) :
    remaining p filters entries cursor = after Position.Before (Entry.position p filters) cursor entries := by
  cases cursor with
  | none => rfl
  | some cursor =>
    apply List.filter_congr
    intro entry _
    rw [Bool.eq_iff_iff]
    simp only [Bool.or_eq_true, Bool.and_eq_true, decide_eq_true_eq]
    unfold Position.Before Entry.position
    constructor
    · rintro (lower | ⟨equal, hash⟩)
      · exact .inl lower
      · exact .inr ⟨equal.symm, hash⟩
    · rintro (lower | ⟨equal, hash⟩)
      · exact .inl lower
      · exact .inr ⟨equal.symm, hash⟩

theorem paginate_page (entries : List Entry) (cursor : Option Position) (limit : Nat) :
    paginate p filters entries cursor limit =
      page (Entry.position p filters) limit (after Position.Before (Entry.position p filters) cursor entries) := by
  rw [paginate_eq, remaining_after]
  unfold page
  cases last : ((after Position.Before (Entry.position p filters) cursor entries).take limit).getLast? with
  | none => simp
  | some entry => rfl

theorem selectLibrary_sorted (filters : Filters) (nowMs : Double) (library : LibraryTable p) :
    (selectLibrary p nowMs filters (library.entriesOf p filters.target)).1.Pairwise fun a b =>
      (a.position p filters).Before (b.position p filters) := by
  rw [selectLibrary_eq, List.pairwise_map]
  apply (selectedRows_sorted library).imp_of_mem
  intro a b inA inB sorted
  rwa [← position_eq library inA, ← position_eq library inB]

theorem selectLibrary_perm (library : LibraryTable p) :
    (selectLibrary p nowMs filters (library.entriesOf p filters.target)).1.Perm (matching p library filters nowMs) := by
  unfold selectLibrary
  simp only [select_fold, List.nil_append]
  exact List.perm_insertionSort _ _

/-- Both paths answer every request alike. -/
theorem databasePage_eq (library : LibraryTable p) (specHash : Filters → Text) (limit : Nat) :
    databasePage p library specHash filters nowMs limit = memoryPage p library specHash filters nowMs limit := by
  funext cursor
  unfold databasePage memoryPage
  congr 1
  funext position
  simp only [← page_eq library position limit, total_eq library position limit]

/-- A cursor goes on where the page before it ended. -/
theorem memoryPage_written (library : LibraryTable p) (specHash : Filters → Text) (limit : Nat) (cursor : Option Position) :
    memoryPage p library specHash filters nowMs limit (cursor.map fun next => encodeCursor next (specHash filters)) =
      .ok ⟨(paginate p filters (selectLibrary p nowMs filters (library.entriesOf p filters.target)).1 cursor limit).1,
        (paginate p filters (selectLibrary p nowMs filters (library.entriesOf p filters.target)).1 cursor limit).2.map
          fun next => encodeCursor next (specHash filters),
        (selectLibrary p nowMs filters (library.entriesOf p filters.target)).1.length⟩ := by
  cases cursor with
  | none => rfl
  | some position =>
    unfold memoryPage cursorPosition
    simp only [Option.map_some, decode_encode, Except.map]

theorem memoryPage_total {library : LibraryTable p} {specHash : Filters → Text} {limit : Nat} {cursor : Option Opaque}
    {response : Response} (answered : memoryPage p library specHash filters nowMs limit cursor = .ok response) :
    response.total = (matching p library filters nowMs).length := by
  unfold memoryPage at answered
  cases position : cursorPosition specHash filters cursor with
  | error message =>
    rw [position] at answered
    cases answered
  | ok position =>
    rw [position] at answered
    cases answered
    exact (selectLibrary_perm library).length_eq

theorem memory_pages (library : LibraryTable p) (specHash : Filters → Text) {limit : Nat} (positive : 0 < limit) :
    ∃ pages, Pages p library filters nowMs limit (memoryPage p library specHash filters nowMs limit) pages := by
  have perm : List.Perm _ (matching p library filters nowMs) := selectLibrary_perm library
  have sorted := selectLibrary_sorted filters nowMs library
  obtain ⟨pages, followed, flat, small⟩ := follow_all before_strict sorted positive
  refine ⟨pages, ?_, ?_, ?_, small, ?_⟩
  · rw [← perm.length_eq, ← followed]
    refine follow_written (fun next => encodeCursor next (specHash filters)) (fun cursor =>
      page (Entry.position p filters) limit (after Position.Before (Entry.position p filters) cursor
        (selectLibrary p nowMs filters (library.entriesOf p filters.target)).1)) ?_ _ none
    intro cursor
    rw [memoryPage_written, paginate_page]
    rfl
  · rw [flat]
    exact perm
  · rw [flat]
    exact sorted
  · intro cursor response answered
    rw [flat, perm.length_eq]
    exact memoryPage_total answered

theorem a1_hex : ∀ c ∈ "a1".toList, isHexDigit c = true := List.all_eq_true.mp rfl

/-- Two queries that only their hashes order. -/
def twoSaved : LibraryTable asciiPlatform where
  rows := [storedOf asciiPlatform ['t'] (savedEntry ⟨"b2".toList, List.all_eq_true.mp rfl⟩),
    storedOf asciiPlatform ['t'] (savedEntry ⟨"a1".toList, a1_hex⟩)]
  derived := by
    intro stored member
    rcases List.mem_cons.mp member with rfl | member
    · rfl
    · exact List.mem_singleton.mp member ▸ rfl
  distinct := by decide

end Rdst.Library.Listing
