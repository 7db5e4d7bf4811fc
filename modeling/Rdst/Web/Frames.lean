import Mathlib.Algebra.Order.Ring.Unbundled.Rat

namespace Rdst.Web

/-- A value that `JSON.parse` returns. -/
inductive Json
  | null
  | bool (value : Bool)
  | number (value : ℚ)
  | string (text : String)
  | array (items : List Json)
  | object (fields : List (String × Json))

namespace Json

/-- `typeof value === 'object'` of a value that is not null. -/
def isObject : Json → Bool
  | .array _ => true
  | .object _ => true
  | _ => false

def isNull : Json → Bool
  | .null => true
  | _ => false

def field (value : Json) (name : String) : Option Json :=
  match value with
  | .object fields => (fields.find? fun entry => entry.1 = name).map Prod.snd
  | _ => none

/-- `value?.name`, which is undefined of an undefined or null value. -/
def fieldOf (value : Option Json) (name : String) : Option Json := value.bind fun value => value.field name

/-- `{ ...value, name: given }`. -/
def withField (value : Json) (name : String) (given : Json) : Json :=
  match value with
  | .object fields =>
    if (fields.any fun entry => entry.1 = name) = true then
      .object (fields.map fun entry => if entry.1 = name then (name, given) else entry)
    else .object (fields ++ [(name, given)])
  | _ => .object [(name, given)]

theorem field_withField (fields : List (String × Json)) (name : String) (given : Json) :
    ((Json.object fields).withField name given).field name = some given := by
  unfold withField
  simp only
  split
  · rename_i known
    simp only [field, Option.map_eq_some_iff]
    induction fields with
    | nil => simp at known
    | cons entry rest ih =>
      simp only [List.map_cons, List.find?_cons]
      by_cases here : entry.1 = name
      · rw [if_pos here]
        exact ⟨(name, given), by simp, rfl⟩
      · have later : (rest.any fun entry => entry.1 = name) = true := by
          simpa [here] using known
        obtain ⟨found, there, same⟩ := ih later
        refine ⟨found, ?_, same⟩
        rw [if_neg here]
        simpa [here] using there
  · rename_i unknown
    have absent : (fields.find? fun entry => decide (entry.1 = name)) = none := by
      rw [List.find?_eq_none]
      intro entry member here
      exact unknown (List.any_eq_true.mpr ⟨entry, member, here⟩)
    simp [field, List.find?_append, absent]

theorem withField_isNull (fields : List (String × Json)) (name : String) (given : Json) :
    ((Json.object fields).withField name given).isNull = false := by
  unfold withField
  simp only
  split <;> rfl

/-- Boolean(value). -/
def truthy : Option Json → Bool
  | none => false
  | some .null => false
  | some (.bool value) => value
  | some (.number value) => decide (value ≠ 0)
  | some (.string text) => decide (text ≠ "")
  | some (.array _) => true
  | some (.object _) => true

def isTrue : Option Json → Bool
  | some (.bool true) => true
  | _ => false

def isFalse : Option Json → Bool
  | some (.bool false) => true
  | _ => false

def text? : Option Json → Option String
  | some (.string text) => some text
  | _ => none

/-- `a ?? b`, which takes null for undefined. -/
def orElse : Option Json → Option Json → Option Json
  | none, other => other
  | some .null, other => other
  | some value, _ => some value

end Json

/-- The white space that `String.prototype.trim` takes off. -/
def isSpace (c : Char) : Bool :=
  let n := c.toNat
  (9 ≤ n && n ≤ 13) || n = 32 || n = 160 || n = 0x1680 || (0x2000 ≤ n && n ≤ 0x200a) || n = 0x2028 || n = 0x2029 ||
    n = 0x202f || n = 0x205f || n = 0x3000 || n = 0xfeff

def trim (text : List Char) : List Char := ((text.dropWhile isSpace).reverse.dropWhile isSpace).reverse

def trimmed (text : String) : String := String.ofList (trim text.toList)

/-- `text.split('\n')`, the last piece apart. -/
def splitLines : List Char → List (List Char) × List Char
  | [] => ([], [])
  | c :: rest =>
    let (lines, last) := splitLines rest
    if c = '\n' then ([] :: lines, last)
    else
      match lines with
      | [] => ([], c :: last)
      | line :: more => ((c :: line) :: more, last)

/-- What a line of an event stream is to its reader. -/
inductive Line
  | blank
  | event (name : List Char)
  | data (text : List Char)
  | other
deriving DecidableEq

def readLine (line : List Char) : Line :=
  let text := trim line
  if text = [] then .blank
  else if "event:".toList.isPrefixOf text = true then .event (trim (text.drop 6))
  else if "data:".toList.isPrefixOf text = true then .data (trim (text.drop 5))
  else .other

/-- What the web client shows of an error. -/
structure ApiErrorEnvelope where
  code : String
  message : String
  detail : Option String := none
  category : Option String := none
  target : Option String := none
deriving DecidableEq

/-- A string that has something but white space. -/
def nonblank (value : Option Json) : Option String :=
  (Json.text? value).filter fun text => decide (trim text.toList ≠ [])

/-- What the client's normalizers rest on. -/
structure Readers where
  /-- `JSON.parse`, nothing where it throws. -/
  parse : List Char → Option Json
  /-- `JSON.stringify`. -/
  stringify : Json → String
  /-- The code and the message that `normalizeExplainError` finds for a text. -/
  classify : String → String × String

section Normalizers

variable (readers : Readers)

def detailOf (value : Option Json) : Option String :=
  match value with
  | some (.string text) => some text
  | some .null => none
  | some other => some (readers.stringify other)
  | none => none

def couldNotComplete : String := "The operation could not be completed."

def normalizeSseError (data : Json) : ApiErrorEnvelope :=
  if data.isObject = true then
    { code := (nonblank (data.field "code")).getD "error"
      message := ((nonblank (data.field "message")).map trimmed).getD couldNotComplete
      detail := detailOf readers (data.field "detail")
      category := nonblank (data.field "category")
      target := (nonblank (data.field "target")).or (nonblank (data.field "target_name")) }
  else { code := "error", message := (nonblank (some data)).getD couldNotComplete }

def httpCode (status : Nat) : String := "http_" ++ toString status

def httpDefault (status : Nat) : ApiErrorEnvelope :=
  { code := httpCode status, message := "The server returned an error (" ++ toString status ++ ")." }

def normalizeHttpError (status : Nat) (body : Option Json) : ApiErrorEnvelope :=
  match body with
  | some body =>
    if body.isObject = true then
      match nonblank (body.field "message") with
      | some message =>
        { code := ((Json.text? (body.field "code")).filter fun code => decide (code ≠ "")).getD (httpCode status)
          message := trimmed message
          category := nonblank (body.field "category")
          target := (nonblank (body.field "target")).or (nonblank (body.field "target_name"))
          detail := detailOf readers (body.field "detail") }
      | none =>
        match body.field "detail" with
        | some detail =>
          if detail.isObject = true then
            let nested := normalizeSseError readers detail
            { nested with code := if nested.code = "error" then httpCode status else nested.code }
          else
            match nonblank (some detail) with
            | some text => { code := httpCode status, message := trimmed text }
            | none => httpDefault status
        | none => httpDefault status
    else httpDefault status
  | none => httpDefault status

/-- Nothing where the text is no string, of which `trim` throws. -/
def normalizeExplainError (raw : Option Json) : Option ApiErrorEnvelope :=
  let envelope := fun text =>
    let (code, message) := readers.classify text
    { code := code, message := message, detail := if text = "" then none else some text }
  match raw with
  | none => some (envelope "")
  | some .null => some (envelope "")
  | some (.string text) => some (envelope (trimmed text))
  | some _ => none

end Normalizers

def normalizeRewriteTesting (candidate : Option Json) : Option Json :=
  match candidate with
  | none => none
  | some testing =>
    if testing.isObject = false then none
    else
      match testing.field "tested" with
      | some (.bool _) => some testing
      | _ =>
        if (Json.truthy (testing.field "skipped_reason") || Json.isFalse (testing.field "success")) = true then
          some (testing.withField "tested" (.bool false))
        else if Json.isTrue (testing.field "success") = true then
          let rewriteResults :=
            match testing.field "rewrite_results" with
            | some (.array items) => items
            | _ => []
          let tested := decide (0 < rewriteResults.length) || Json.truthy (testing.field "best_rewrite")
          some ((testing.withField "tested" (.bool tested)).withField "rewrite_results" (.array rewriteResults))
        else none

end Rdst.Web
