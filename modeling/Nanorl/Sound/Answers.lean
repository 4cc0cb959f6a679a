import Nanorl.Sound.Cursor

/-!
# Nanorl.Sound.Answers

What `nrl_manip_eval_custom` makes of the answer of a handler.

Both data formats send the cursors to the beginning of the line and then put the
answer there (`nrlManipEvalCustom_called`). Handlers that compute the same on code
points are told apart by nothing (`handlers_agree`).
-/

namespace Nanorl

/-- `utf8_decode` reads a text back from its encoding. -/
def Platform.TextLaw (P : Platform) : Prop :=
  ∀ text : List Char, P.utf8Decode (text.flatMap String.utf8EncodeChar) = (text.map Char.val, false)

theorem referencePlatform_text : referencePlatform.TextLaw := Utf8.decode_encode

/-! ### The call -/

section Called

variable {P : Platform} {t : Terminfo} {table : EscapeTable} {escape : Nat} {handler : EscapeHandler}
  {e e₁ : Editor}

/-- The line an answer leaves behind; the render cursor is where the synchronisation
has put it. -/
def Editor.answered (e : Editor) (answer : List Uchar × Nat) : Editor :=
  { e with line := { e.line with buffer := answer.1, cursor := answer.2, dirty := true } }

/-- The cursors are synchronised at the beginning of the line before the handler sees
the text and the cursor there were. -/
theorem nrlManipEvalCustom_called (htable : table escape = some handler)
    (hsync : nrlRenderSyncCursors P t { e with line := { e.line with cursor := 0 } } = .ok e₁) :
    nrlManipEvalCustom P t table escape e =
      (callHandler P handler e.line.buffer e.line.cursor).map fun answer => (true, e₁.answered answer) := by
  have hbuffer : e₁.line.buffer = e.line.buffer := (nrlRenderSyncCursors_ok P t hsync).text.buffer
  rw [nrlManipEvalCustom, htable]
  dsimp only
  rw [hsync, Run.ok_bind, hbuffer]
  cases callHandler P handler e.line.buffer e.line.cursor <;> rfl

theorem nrlManipEvalCustom_ok_iff (htable : table escape = some handler)
    (hsync : nrlRenderSyncCursors P t { e with line := { e.line with cursor := 0 } } = .ok e₁)
    {e' : Editor} :
    nrlManipEvalCustom P t table escape e = .ok (true, e') ↔
      ∃ answer, callHandler P handler e.line.buffer e.line.cursor = .ok answer ∧ e₁.answered answer = e' := by
  rw [nrlManipEvalCustom_called htable hsync, Run.map_eq_ok]
  simp

theorem nrlManipEvalCustom_unsynced (htable : table escape = some handler) {fault : Fault}
    (hsync : nrlRenderSyncCursors P t { e with line := { e.line with cursor := 0 } } = .error fault) :
    nrlManipEvalCustom P t table escape e = .error fault := by
  rw [nrlManipEvalCustom, htable]
  dsimp only
  rw [hsync]
  rfl

end Called

/-! ### Two formats -/

/-- The encoding of a text. -/
def encoded (text : List Char) : List Byte := text.flatMap String.utf8EncodeChar

/-- Where a cursor is in the encoding of its text. -/
def byteCursor (text : List Char) (cursor : Nat) : Nat := (encoded (text.take cursor)).length

/-- A function of code points that returns no terminator and a cursor within the line
it returns. -/
def EditsPoints (f : List Char → Nat → List Char × Nat) : Prop :=
  ∀ text cursor, Char.ofNat 0 ∉ text → cursor ≤ text.length →
    Char.ofNat 0 ∉ (f text cursor).1 ∧ (f text cursor).2 ≤ (f text cursor).1.length

/-- The handler computes `f`: on code points, or on the encoding with the cursor in
bytes. -/
def EscapeHandler.Computes (handler : EscapeHandler) (f : List Char → Nat → List Char × Nat) : Prop :=
  match handler.func with
  | .utf32 func => ∀ text cursor, Char.ofNat 0 ∉ text → cursor ≤ text.length →
      func (text.map Char.val) cursor handler.id = ((f text cursor).1.map Char.val, (f text cursor).2)
  | .utf8 func => ∀ text cursor, Char.ofNat 0 ∉ text → cursor ≤ text.length →
      func (encoded text) (byteCursor text cursor) handler.id =
        (encoded (f text cursor).1, byteCursor (f text cursor).1 (f text cursor).2)

/-- The handler returns what it is given. -/
def EscapeHandler.Identity (handler : EscapeHandler) : Prop :=
  match handler.func with
  | .utf32 func => ∀ line cursor id, func line cursor id = (line, cursor)
  | .utf8 func => ∀ line cursor id, func line cursor id = (line, cursor)

theorem EscapeHandler.Identity.computes {handler : EscapeHandler} (h : handler.Identity) :
    handler.Computes fun text cursor => (text, cursor) := by
  obtain ⟨id, func | func⟩ := handler
  · exact fun text cursor _ _ => h _ _ _
  · exact fun text cursor _ _ => h _ _ _

section Texts

variable {text : List Char}

theorem zero_notMem_vals (h : Char.ofNat 0 ∉ text) : 0 ∉ text.map Char.val := by
  intro hmem
  obtain ⟨c, hc, hval⟩ := List.mem_map.mp hmem
  obtain rfl : c = Char.ofNat 0 := Char.ext hval
  exact h hc

theorem zero_notMem_encoded (h : Char.ofNat 0 ∉ text) : 0 ∉ encoded text := by
  intro hmem
  obtain ⟨c, hc, hbyte⟩ := List.mem_flatMap.mp hmem
  exact Utf8.zero_notMem_encode (fun heq => h (heq ▸ hc)) hbyte

theorem notMem_take {c : Char} (h : c ∉ text) (n : Nat) : c ∉ text.take n :=
  fun hmem => h (List.mem_of_mem_take hmem)

theorem encoded_split (text : List Char) (n : Nat) :
    encoded text = encoded (text.take n) ++ encoded (text.drop n) := by
  rw [encoded, encoded, encoded, ← List.flatMap_append, List.take_append_drop]

/-- The bytes before a cursor are the encoding of the characters before it. -/
theorem take_byteCursor (text : List Char) (n : Nat) :
    (encoded text).take (byteCursor text n) = encoded (text.take n) := by
  rw [encoded_split text n, byteCursor, List.take_left]

theorem byteCursor_le (text : List Char) (n : Nat) : byteCursor text n ≤ (encoded text).length := by
  rw [encoded_split text n, byteCursor, List.length_append]
  exact Nat.le_add_right _ _

end Texts

section Agree

variable {P : Platform} {f : List Char → Nat → List Char × Nat} {text : List Char}

/-- What is exported to an UTF-8 handler is taken back at the same place. -/
theorem importUtf8_encoded (htext : P.TextLaw) (hnul : Char.ofNat 0 ∉ text) {cursor : Nat}
    (hcursor : cursor ≤ text.length) :
    importUtf8 P (encoded text) (byteCursor text cursor) = .ok (text.map Char.val, cursor) := by
  have hdecode : P.utf8Decode (encoded text) = _ := htext text
  have hdecode' : P.utf8Decode (encoded (text.take cursor)) = _ := htext (text.take cursor)
  simp only [importUtf8, cstr_eq_self (zero_notMem_encoded hnul), take_byteCursor, hdecode, hdecode',
    if_neg (Nat.not_lt.mpr (byteCursor_le text cursor)), Bool.false_eq_true, if_false, List.length_map,
    List.length_take_of_le hcursor]
  rfl

theorem callHandler_computes (hutf8 : P.Utf8Laws) (htext : P.TextLaw) (hf : EditsPoints f)
    {handler : EscapeHandler} (h : handler.Computes f) (hnul : Char.ofNat 0 ∉ text) {cursor : Nat}
    (hcursor : cursor ≤ text.length) :
    callHandler P handler (text.map Char.val) cursor =
      .ok ((f text cursor).1.map Char.val, (f text cursor).2) := by
  obtain ⟨hnul', hcursor'⟩ := hf text cursor hnul hcursor
  have hline := cstr_eq_self (zero_notMem_vals hnul)
  have hbefore := cstr_eq_self (zero_notMem_vals (notMem_take hnul cursor))
  obtain ⟨id, func | func⟩ := handler
  · have hfunc : func _ _ id = _ := h text cursor hnul hcursor
    have hencode : P.utf8Encode (text.map Char.val) = encoded text := hutf8.encode text
    have hencode' : P.utf8Encode ((text.take cursor).map Char.val) = encoded (text.take cursor) :=
      hutf8.encode (text.take cursor)
    rw [callHandler]
    dsimp only
    rw [if_neg (by rw [List.length_map]; exact Nat.not_lt.mpr hcursor), ← List.map_take, hline, hbefore,
      hencode, hencode', ← byteCursor, hfunc]
    exact importUtf8_encoded htext hnul' hcursor'
  · have hfunc : func _ _ id = _ := h text cursor hnul hcursor
    simp only [callHandler, hline, hfunc, cstr_eq_self (zero_notMem_vals hnul')]

/-- The outcome of a key whose handler answers with `text` and `cursor`. -/
def answerOf (P : Platform) (t : Terminfo) (e : Editor) (answer : List Char × Nat) :
    Except Fault (Bool × Editor) :=
  (nrlRenderSyncCursors P t { e with line := { e.line with cursor := 0 } }).map fun e =>
    (true, e.answered (answer.1.map Char.val, answer.2))

theorem nrlManipEvalCustom_computes (hutf8 : P.Utf8Laws) (htext : P.TextLaw) (hf : EditsPoints f)
    {handler : EscapeHandler} (h : handler.Computes f) {t : Terminfo} {table : EscapeTable}
    {escape : Nat} (htable : table escape = some handler) {e : Editor}
    (hline : e.line.buffer = text.map Char.val) (hnul : Char.ofNat 0 ∉ text)
    (hcursor : e.line.cursor ≤ text.length) :
    nrlManipEvalCustom P t table escape e = answerOf P t e (f text e.line.cursor) := by
  rw [answerOf]
  cases hsync : nrlRenderSyncCursors P t { e with line := { e.line with cursor := 0 } } with
  | error fault => exact nrlManipEvalCustom_unsynced htable hsync
  | ok e₁ =>
    rw [nrlManipEvalCustom_called htable hsync, hline,
      callHandler_computes hutf8 htext hf h hnul hcursor]
    rfl

end Agree

/-- **UTF-8 and UTF-32 handlers agree.** On a line of scalar values handlers of either
format that compute the same function leave the same state: its line and its cursor.
An identity handler changes neither. -/
theorem handlers_agree {P : Platform} (hutf8 : P.Utf8Laws) (htext : P.TextLaw) (t : Terminfo)
    {f : List Char → Nat → List Char × Nat} (hf : EditsPoints f) {table₈ table₃₂ : EscapeTable}
    {escape₈ escape₃₂ : Nat} {handler₈ handler₃₂ : EscapeHandler}
    (htable₈ : table₈ escape₈ = some handler₈) (htable₃₂ : table₃₂ escape₃₂ = some handler₃₂)
    (h₈ : handler₈.Computes f) (h₃₂ : handler₃₂.Computes f) {e : Editor} {text : List Char}
    (hline : e.line.buffer = text.map Char.val) (hnul : Char.ofNat 0 ∉ text)
    (hcursor : e.line.cursor ≤ text.length) :
    nrlManipEvalCustom P t table₈ escape₈ e = answerOf P t e (f text e.line.cursor) ∧
      nrlManipEvalCustom P t table₃₂ escape₃₂ e = answerOf P t e (f text e.line.cursor) ∧
      ∀ (table : EscapeTable) (escape : Nat) (handler : EscapeHandler),
        table escape = some handler → handler.Identity →
        nrlManipEvalCustom P t table escape e = answerOf P t e (text, e.line.cursor) := by
  refine ⟨nrlManipEvalCustom_computes hutf8 htext hf h₈ htable₈ hline hnul hcursor,
    nrlManipEvalCustom_computes hutf8 htext hf h₃₂ htable₃₂ hline hnul hcursor, ?_⟩
  intro table escape handler htable hidentity
  exact nrlManipEvalCustom_computes hutf8 htext (fun _ _ h h' => ⟨h, h'⟩) hidentity.computes htable
    hline hnul hcursor

/-- A line `aé` with the cursor on its second character, on a smart terminal. -/
def accentEditor : Editor where
  line := { buffer := [97, 0xe9], cursor := 1, renderCursor := 0, dirty := false }
  screen :=
    { render := { staticRender with echoMode := .on, termSmart := true, termSize := ⟨24, 80⟩ }
      io := xtermScreen.io }

/-- Handlers that put `é` in front of the line. -/
def prependUtf8 : EscapeHandler :=
  { id := 0, func := .utf8 fun line cursor _ => ([0xc3, 0xa9] ++ line, cursor + 2) }

def prependUtf32 : EscapeHandler :=
  { id := 1, func := .utf32 fun line cursor _ => (0xe9 :: line, cursor + 1) }

def prependTable : EscapeTable := fun k => some (if k = 0 then prependUtf8 else prependUtf32)

theorem handlers_agree_accent :
    nrlManipEvalCustom referencePlatform xtermTerminfo prependTable 0 accentEditor =
        answerOf referencePlatform xtermTerminfo accentEditor (['é', 'a', 'é'], 2) ∧
      nrlManipEvalCustom referencePlatform xtermTerminfo prependTable 1 accentEditor =
        answerOf referencePlatform xtermTerminfo accentEditor (['é', 'a', 'é'], 2) ∧
      (answerOf referencePlatform xtermTerminfo accentEditor (['é', 'a', 'é'], 2)).map
        (fun r => r.2.line) = .ok
          { buffer := [0xe9, 97, 0xe9], cursor := 2, renderCursor := 0, dirty := true } := by
  have hf : EditsPoints fun text cursor => ('é' :: text, cursor + 1) := by
    intro text cursor hnul hcursor
    exact ⟨fun h => (List.mem_cons.mp h).elim (by decide) hnul, Nat.succ_le_succ hcursor⟩
  have hline : ∀ text, encoded ('é' :: text) = [0xc3, 0xa9] ++ encoded text := fun _ => rfl
  have hcursor : ∀ text cursor, byteCursor ('é' :: text) (cursor + 1) = byteCursor text cursor + 2 := by
    intro text cursor
    rw [byteCursor, List.take_succ_cons, hline, List.length_append, Nat.add_comm]
    rfl
  have h₈ : prependUtf8.Computes fun text cursor => ('é' :: text, cursor + 1) := by
    intro text cursor _ _
    dsimp only
    rw [hline, hcursor]
  obtain ⟨hutf8, hutf32, -⟩ := handlers_agree referencePlatform_utf8 referencePlatform_text
    xtermTerminfo hf (show prependTable 0 = some prependUtf8 from rfl)
    (show prependTable 1 = some prependUtf32 from rfl) h₈ (fun _ _ _ _ => rfl)
    (show accentEditor.line.buffer = ['a', 'é'].map Char.val from rfl) (by decide) (by decide)
  exact ⟨hutf8, hutf32, by decide +kernel⟩

end Nanorl
