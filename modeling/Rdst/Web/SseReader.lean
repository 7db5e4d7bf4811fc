import Rdst.Lib.Spacing

namespace Rdst.Web.SseReader

/-- What JavaScript's `trim` takes for white space. -/
def jsSpace (c : Char) : Bool :=
  ['\t', '\n', '\x0b', '\x0c', '\r', ' ', '\u00a0', '\u1680', '\u2028', '\u2029', '\u202f', '\u205f', '\u3000',
    '\ufeff'].contains c ||
    (decide ('\u2000' ≤ c) && decide (c ≤ '\u200a'))

def trim (text : List Char) : List Char := Spacing.trimEnd jsSpace (text.dropWhile jsSpace)

def message : List Char := "message".toList

def eventField : List Char := "event:".toList

def dataField : List Char := "data:".toList

/-- `seen` is all that the handler's calls change, also where a call throws. -/
structure Reader (σ : Type*) where
  buffer : List Char
  currentEvent : List Char
  seen : σ

variable {J σ : Type*}

/-- `catch {}`: the loop goes on with what the call left behind. -/
def caught : Except σ σ → σ
  | .ok seen => seen
  | .error seen => seen

variable (parse : List Char → Option J) (onEvent : List Char → J → σ → Except σ σ)

/-- One turn of the loop over the lines. `parse` is `JSON.parse`, with none where it throws. -/
def onLine (reader : Reader σ) (line : List Char) : Reader σ :=
  let trimmed := trim line
  if trimmed = [] then { reader with currentEvent := message }
  else if eventField.isPrefixOf trimmed = true then { reader with currentEvent := trim (trimmed.drop 6) }
  else if dataField.isPrefixOf trimmed = true then
    match parse (trim (trimmed.drop 5)) with
    | some data => { reader with seen := caught (onEvent reader.currentEvent data reader.seen) }
    | none => reader
  else reader

/-- One turn of the loop over the chunks. -/
def onChunk (reader : Reader σ) (chunk : List Char) : Reader σ :=
  let lines := (reader.buffer ++ chunk).splitOn '\n'
  lines.dropLast.foldl (onLine parse onEvent) { reader with buffer := lines.getLastD [] }

def consumeSseResponse (chunks : List (List Char)) (seen : σ) : σ :=
  (chunks.foldl (onChunk parse onEvent) ⟨[], message, seen⟩).seen

section Lines

theorem trim_trimEnd (text : List Char) : trim (Spacing.trimEnd jsSpace text) = trim text := by
  rw [trim, Spacing.trimEnd_dropWhile, Spacing.trimEnd_twice, trim]

theorem trim_cons {c : Char} (blank : jsSpace c = true) (text : List Char) : trim (c :: text) = trim text := by
  rw [trim, List.dropWhile_cons_of_pos blank, trim]

/-- A line of a field, with what is left of its line ending. -/
theorem trim_field {c : Char} {name rest : List Char} (solids : (c :: name).any jsSpace = false)
    (blanks : ∀ d ∈ rest, jsSpace d = true) (text : List Char) :
    trim (c :: name ++ ' ' :: text ++ rest) = c :: name ++ Spacing.trimEnd jsSpace (' ' :: text) := by
  have solid : ∀ d ∈ c :: name, jsSpace d = false := fun d inside => by simpa using List.any_eq_false.mp solids d inside
  have starts : ¬ jsSpace c = true := by rw [solid c List.mem_cons_self]; simp
  rw [trim, List.cons_append, List.cons_append, List.dropWhile_cons_of_neg starts, ← List.cons_append,
    ← List.cons_append, Spacing.trimEnd_blanks blanks, Spacing.trimEnd_append solid]

/-- The lines of a text that comes in two parts: the last line of the first part goes on in the second. -/
theorem splitOn_append (first second : List Char) :
    (first ++ second).splitOn '\n' =
      (first.splitOn '\n').dropLast ++ ((first.splitOn '\n').getLastD [] ++ second).splitOn '\n' := by
  induction first with
  | nil => simp
  | cons c first ih =>
    obtain ⟨line, lines, parts⟩ := List.exists_cons_of_ne_nil (List.splitOn_ne_nil '\n' first)
    rw [List.cons_append, List.splitOn_cons_eq_if_modifyHead, List.splitOn_cons_eq_if_modifyHead, ih, parts]
    by_cases newline : (c == '\n') = true
    · rw [if_pos newline, if_pos newline]
      rfl
    · rw [if_neg newline, if_neg newline]
      cases lines with
      | nil =>
        simp only [List.dropLast_singleton, List.nil_append, List.getLastD_cons, List.getLastD_nil,
          List.modifyHead_cons, List.cons_append]
        rw [List.splitOn_cons_eq_if_modifyHead, if_neg newline]
      | cons next lines => rfl

end Lines

section Chunks

variable {parse} {onEvent}

theorem foldl_buffer (lines : List (List Char)) (reader : Reader σ) (buffer : List Char) :
    lines.foldl (onLine parse onEvent) { reader with buffer := buffer } =
      { lines.foldl (onLine parse onEvent) reader with buffer := buffer } := by
  induction lines generalizing reader with
  | nil => rfl
  | cons line lines ih =>
    have one : onLine parse onEvent { reader with buffer := buffer } line =
        { onLine parse onEvent reader line with buffer := buffer } := by
      unfold onLine
      dsimp only
      split
      · rfl
      · split
        · rfl
        · split
          · cases parse (trim ((trim line).drop 5)) <;> rfl
          · rfl
    rw [List.foldl_cons, List.foldl_cons, one, ih]

/-- Where the text is cut makes no difference. -/
theorem onChunk_append (reader : Reader σ) (first second : List Char) :
    onChunk parse onEvent (onChunk parse onEvent reader first) second =
      onChunk parse onEvent reader (first ++ second) := by
  have lines : (reader.buffer ++ (first ++ second)).splitOn '\n' =
      ((reader.buffer ++ first).splitOn '\n').dropLast ++
        (((reader.buffer ++ first).splitOn '\n').getLastD [] ++ second).splitOn '\n' := by
    rw [← List.append_assoc, splitOn_append]
  have some_ := List.splitOn_ne_nil '\n' (((reader.buffer ++ first).splitOn '\n').getLastD [] ++ second)
  simp only [onChunk, lines, foldl_buffer, List.dropLast_append_of_ne_nil some_, List.foldl_append]
  congr 1
  rw [List.getLastD_eq_getLast?, @List.getLastD_eq_getLast? _ _ (_ ++ _), List.getLast?_append_of_ne_nil _ some_]

theorem foldl_onChunk (reader : Reader σ) (chunk : List Char) (chunks : List (List Char)) :
    (chunk :: chunks).foldl (onChunk parse onEvent) reader = onChunk parse onEvent reader (chunk :: chunks).flatten := by
  induction chunks generalizing reader chunk with
  | nil => simp
  | cons next chunks ih =>
    rw [List.foldl_cons, ih, List.flatten_cons, onChunk_append]
    rfl

end Chunks

/-- The line ending that the writer was made with. -/
inductive LineEnd
  | lf
  | crlf

def LineEnd.text : LineEnd → List Char
  | .lf => ['\n']
  | .crlf => ['\r', '\n']

/-- What of a line ending a line still has when it was split at its `'\n'`. -/
def LineEnd.left : LineEnd → List Char
  | .lf => []
  | .crlf => ['\r']

/-- A record of the server: an event's name and the JSON text of a value. Both stand on one line, and the name has no
white space around it. -/
structure Record (parse : List Char → Option J) where
  name : List Char
  body : List Char
  value : J
  ending : LineEnd
  oneName : '\n' ∉ name
  oneBody : '\n' ∉ body
  bare : trim name = name
  parsed : parse (trim body) = some value

variable {parse}

def Record.frame (record : Record parse) : List Char :=
  eventField ++ ' ' :: record.name ++ record.ending.text ++
    (dataField ++ ' ' :: record.body ++ record.ending.text) ++ record.ending.text

def Record.lines (record : Record parse) : List (List Char) :=
  [eventField ++ ' ' :: record.name ++ record.ending.left, dataField ++ ' ' :: record.body ++ record.ending.left,
    record.ending.left]

section Frames

variable {onEvent}

theorem text_left (ending : LineEnd) : ending.text = ending.left ++ ['\n'] := by cases ending <;> rfl

theorem left_blank (ending : LineEnd) : ∀ c ∈ ending.left, jsSpace c = true := by
  cases ending <;> simp [LineEnd.left, jsSpace]

theorem left_one (ending : LineEnd) : '\n' ∉ ending.left := by cases ending <;> simp [LineEnd.left]

theorem splitOn_line {line : List Char} (one : '\n' ∉ line) (text : List Char) :
    (line ++ '\n' :: text).splitOn '\n' = line :: text.splitOn '\n' := List.splitOn_append_cons_self_of_not_mem one _

theorem splitOn_frame (record : Record parse) (text : List Char) :
    (record.frame ++ text).splitOn '\n' = record.lines ++ text.splitOn '\n' := by
  have first : '\n' ∉ eventField ++ ' ' :: record.name ++ record.ending.left := by
    simp [eventField, record.oneName, left_one]
  have second : '\n' ∉ dataField ++ ' ' :: record.body ++ record.ending.left := by
    simp [dataField, record.oneBody, left_one]
  have cut : record.frame ++ text = (eventField ++ ' ' :: record.name ++ record.ending.left) ++ '\n' ::
      ((dataField ++ ' ' :: record.body ++ record.ending.left) ++ '\n' :: (record.ending.left ++ '\n' :: text)) := by
    simp [Record.frame, text_left]
  rw [cut, splitOn_line first, splitOn_line second, splitOn_line (left_one _)]
  rfl

theorem splitOn_frames (records : List (Record parse)) :
    (records.flatMap Record.frame).splitOn '\n' = records.flatMap Record.lines ++ [[]] := by
  induction records with
  | nil => simp
  | cons record records ih => rw [List.flatMap_cons, splitOn_frame, ih, List.flatMap_cons, List.append_assoc]

/-- The name is known after the first line of a frame. -/
theorem onLine_event (reader : Reader σ) (record : Record parse) :
    onLine parse onEvent reader (eventField ++ ' ' :: record.name ++ record.ending.left) =
      { reader with currentEvent := record.name } := by
  have trimmed : trim (eventField ++ ' ' :: record.name ++ record.ending.left) =
      eventField ++ Spacing.trimEnd jsSpace (' ' :: record.name) :=
    trim_field rfl (left_blank _) _
  have rest : trim ((eventField ++ Spacing.trimEnd jsSpace (' ' :: record.name)).drop 6) = record.name := by
    rw [List.drop_left' (by decide), trim_trimEnd, trim_cons rfl, record.bare]
  have event : eventField.isPrefixOf (eventField ++ Spacing.trimEnd jsSpace (' ' :: record.name)) = true := by
    rw [List.isPrefixOf_iff_prefix]
    exact List.prefix_append _ _
  rw [onLine, trimmed, if_neg (by simp [eventField]), if_pos event, rest]

/-- The second line of a frame is one call. -/
theorem onLine_data (reader : Reader σ) (record : Record parse) :
    onLine parse onEvent reader (dataField ++ ' ' :: record.body ++ record.ending.left) =
      { reader with seen := caught (onEvent reader.currentEvent record.value reader.seen) } := by
  have trimmed : trim (dataField ++ ' ' :: record.body ++ record.ending.left) =
      dataField ++ Spacing.trimEnd jsSpace (' ' :: record.body) :=
    trim_field rfl (left_blank _) _
  have rest : trim ((dataField ++ Spacing.trimEnd jsSpace (' ' :: record.body)).drop 5) = trim record.body := by
    rw [List.drop_left' (by decide), trim_trimEnd, trim_cons rfl]
  have data : dataField.isPrefixOf (dataField ++ Spacing.trimEnd jsSpace (' ' :: record.body)) = true := by
    rw [List.isPrefixOf_iff_prefix]
    exact List.prefix_append _ _
  have other : ¬ eventField.isPrefixOf (dataField ++ Spacing.trimEnd jsSpace (' ' :: record.body)) = true := by
    simp [eventField, dataField]
  rw [onLine, trimmed, if_neg (by simp [dataField]), if_neg other, if_pos data, rest, record.parsed]

theorem onLine_blank (reader : Reader σ) (ending : LineEnd) :
    onLine parse onEvent reader ending.left = { reader with currentEvent := message } := by
  have nothing : trim ending.left = [] := by cases ending <;> decide
  rw [onLine, nothing, if_pos rfl]

theorem foldl_frame (reader : Reader σ) (record : Record parse) :
    record.lines.foldl (onLine parse onEvent) reader =
      { reader with currentEvent := message, seen := caught (onEvent record.name record.value reader.seen) } := by
  simp only [Record.lines, List.foldl_cons, List.foldl_nil, onLine_event, onLine_data, onLine_blank]

theorem foldl_frames (reader : Reader σ) (records : List (Record parse)) :
    ((records.flatMap Record.lines).foldl (onLine parse onEvent) reader).seen =
      records.foldl (fun seen record => caught (onEvent record.name record.value seen)) reader.seen := by
  induction records generalizing reader with
  | nil => rfl
  | cons record records ih => rw [List.flatMap_cons, List.foldl_append, foldl_frame, ih, List.foldl_cons]

end Frames

/-- However the text of the frames is cut, the handler is called once for each record, in their order, with its name and
its value. -/
theorem consume_frames (records : List (Record parse)) (chunks : List (List Char)) (seen : σ)
    (whole : chunks.flatten = records.flatMap Record.frame) :
    consumeSseResponse parse onEvent chunks seen =
      records.foldl (fun seen record => caught (onEvent record.name record.value seen)) seen := by
  have one : chunks.foldl (onChunk parse onEvent) ⟨[], message, seen⟩ =
      onChunk parse onEvent ⟨[], message, seen⟩ (records.flatMap Record.frame) := by
    cases chunks with
    | nil => rw [← whole]; rfl
    | cons chunk chunks => rw [foldl_onChunk, whole]
  rw [consumeSseResponse, one, onChunk]
  simp only [List.nil_append, splitOn_frames, List.dropLast_concat, foldl_frames]

def parseOne (text : List Char) : Option Nat := if text = ['1'] then some 1 else none

def ready : Record parseOne := ⟨"ready".toList, ['1'], 1, .crlf, by decide, by decide, by decide, by decide⟩

theorem consume_ready :
    consumeSseResponse parseOne (fun name data calls => .error (calls ++ [(name, data)]))
      ["event: re".toList, "ady\r".toList, "\ndata: 1\r\n\r".toList, ['\n']] [] = [("ready".toList, 1)] :=
  @consume_frames _ _ parseOne _ [ready] _ [] (by decide)

end Rdst.Web.SseReader
