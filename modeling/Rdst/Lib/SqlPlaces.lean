import Rdst.Lib.SqlPieces

/-! A statement with places in it, and what stands there as tokens of their own. -/

namespace SqlLexer

variable {σ : Type*} (d : Dialect)

/-- What has been read, with nothing of the next token. -/
def State.closed (s : State) : State := ⟨finish s, .code [], s.executable⟩

/-- The text begins with a token of its own. -/
def fresh (s : State) (text : List Char) : Bool := text.head?.all fun c => decide (feed d s c = feed d s.closed c)

/-- The text reads as the tokens, and leaves the comments around it as they are. -/
def Reads (text : List Char) (tokens : List Token) : Prop :=
  text ≠ [] ∧ ∀ (front : List Token) (executable : Bool),
    (scan d ⟨front, .code [], executable⟩ text).closed = ⟨front ++ tokens, .code [], executable⟩

/-- The tokens of the cells, with the places between them. -/
def weft : State → List (Char ⊕ σ) → List (Token ⊕ σ)
  | s, [] => (finish s).map .inl
  | s, .inl c :: rest => weft (feed d s c) rest
  | s, .inr place :: rest => (finish s).map .inl ++ .inr place :: weft ⟨[], .code [], s.executable⟩ rest

/-- The cells as a text, with something written in the places. -/
def written (text : σ → List Char) (cells : List (Char ⊕ σ)) : List Char := cells.flatMap (Sum.elim (fun c => [c]) text)

/-- What is written in each place neither goes on with what stands before it, nor does what follows go on with it. -/
def apart (text : σ → List Char) : State → List (Char ⊕ σ) → Bool
  | _, [] => true
  | s, .inl c :: rest => apart text (feed d s c) rest
  | s, .inr place :: rest =>
    fresh d s (text place) && fresh d (scan d s.closed (text place)) (written text rest) &&
      apart text (scan d s.closed (text place)).closed rest

variable {d}

section Behind

/-- The state with tokens in front of those that it has read. -/
def State.behind (front : List Token) (s : State) : State := { s with tokens := front ++ s.tokens }

theorem closeRun_behind (front : List Token) (s : State) (run : List Char) :
    (s.behind front).closeRun run = (s.closeRun run).behind front := by
  unfold State.closeRun
  split
  · rfl
  · simp [State.behind, State.emit]

theorem emit_behind (front : List Token) (s : State) (token : Token) :
    (s.behind front).emit token = (s.emit token).behind front := by simp [State.behind, State.emit]

theorem feedCode_behind (front : List Token) (s : State) (run : List Char) (c : Char) :
    feedCode d (s.behind front) run c = (feedCode d s run c).behind front := by
  have outside : (s.behind front).executable = s.executable := rfl
  unfold feedCode
  simp only [closeRun_behind, emit_behind, outside]
  repeat' split
  all_goals rfl

/-- What has been read before does not change how a character is read. -/
theorem feed_behind (front : List Token) (s : State) (c : Char) : feed d (s.behind front) c = (feed d s c).behind front := by
  have same : (s.behind front).mode = s.mode := rfl
  unfold feed
  rw [same]
  split
  all_goals try simp only [emit_behind, feedCode_behind]
  all_goals repeat' split
  all_goals rfl

theorem finish_behind (front : List Token) (s : State) : finish (s.behind front) = front ++ finish s := by
  have same : (s.behind front).mode = s.mode := rfl
  unfold finish
  rw [same]
  split
  all_goals try simp only [emit_behind, closeRun_behind]
  all_goals simp [State.behind]

theorem weft_behind (front : List Token) (s : State) (cells : List (Char ⊕ σ)) :
    weft d (s.behind front) cells = front.map .inl ++ weft d s cells := by
  induction cells generalizing s with
  | nil => rw [weft, weft, finish_behind, List.map_append]
  | cons cell rest ih =>
    cases cell with
    | inl c => rw [weft, weft, feed_behind, ih]
    | inr place =>
      rw [weft, weft, finish_behind, List.map_append, List.append_assoc]
      rfl

theorem weft_places (s : State) (cells : List (Char ⊕ σ)) :
    (weft d s cells).filterMap Sum.getRight? = cells.filterMap Sum.getRight? := by
  induction cells generalizing s with
  | nil => simp [weft]
  | cons cell rest ih =>
    cases cell with
    | inl c =>
      rw [weft, ih]
      rfl
    | inr place => simp [weft, ih, List.filterMap_append]

end Behind

section Apart

theorem fresh_cons {s : State} {c : Char} {rest : List Char} (begins : fresh d s (c :: rest) = true) :
    scan d s (c :: rest) = scan d s.closed (c :: rest) := by
  have same : feed d s c = feed d s.closed c := of_decide_eq_true begins
  rw [scan_cons, scan_cons, same]

theorem finish_closed (s : State) : finish s.closed = finish s := by simp [State.closed, finish, State.closeRun]

theorem fresh_finish {s : State} {text : List Char} (begins : fresh d s text = true) :
    finish (scan d s text) = finish (scan d s.closed text) := by
  cases text with
  | nil => exact (finish_closed s).symm
  | cons c rest => rw [fresh_cons begins]

theorem Reads.lex {text : List Char} {tokens : List Token} (reads : Reads d text tokens) : lex d text = tokens :=
  (congrArg State.tokens (reads.2 [] false)).trans (List.nil_append tokens)

/-- A statement reads as its tokens with those of the places between them. -/
theorem apart_reads {text : σ → List Char} {tokens : σ → List Token} {cells : List (Char ⊕ σ)}
    (reads : ∀ place, .inr place ∈ cells → Reads d (text place) (tokens place)) {s : State} (stands : apart d text s cells = true) :
    finish (scan d s (written text cells)) = (weft d s cells).flatMap (Sum.elim (fun token => [token]) tokens) := by
  have each : ∀ front : List Token, (front.map Sum.inl).flatMap (Sum.elim (fun token => [token]) tokens) = front := by
    intro front
    simp [List.flatMap_map]
  induction cells generalizing s with
  | nil => exact (each (finish s)).symm
  | cons cell rest ih =>
    have later := fun s' => @ih (fun place member => reads place (List.mem_cons_of_mem _ member)) s'
    cases cell with
    | inl c => exact later _ stands
    | inr place =>
      rw [apart, Bool.and_eq_true, Bool.and_eq_true] at stands
      obtain ⟨⟨before, after⟩, others⟩ := stands
      obtain ⟨some_, read⟩ := reads place List.mem_cons_self
      obtain ⟨x, more, shape⟩ := List.exists_cons_of_ne_nil some_
      have here : (scan d s.closed (text place)).closed = State.behind (finish s ++ tokens place) ⟨[], .code [], s.executable⟩ := by
        have open_ := read (finish s) s.executable
        rwa [State.behind, List.append_nil]
      have whole : written text (.inr place :: rest) = text place ++ written text rest := rfl
      rw [whole, scan_append, shape, fresh_cons (shape ▸ before), ← shape, fresh_finish after, later _ others, here, weft_behind,
        weft, List.flatMap_append, List.flatMap_append, List.flatMap_cons, each, each, List.append_assoc]
      rfl

end Apart

end SqlLexer
