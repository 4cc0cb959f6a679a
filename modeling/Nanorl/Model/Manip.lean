import Nanorl.Model.Render

/-!
# Nanorl.Model.Manip

`manip.c`: edits of the line, by text, by the six standard keys and by the
caller's handlers.

A handler returns a line and a cursor. The line it returns is the text before
the first zero, in an allocation that ends behind that zero.
-/

namespace Nanorl

/-- The handler's function, by the data format it was registered with. The
arguments are the line, the cursor and the escape code. -/
inductive HandlerFunc
  | utf8 (func : List Byte → Nat → Int → List Byte × Nat)
  | utf32 (func : List Uchar → Nat → Int → List Uchar × Nat)

/-- `nrl_escape_handler` -/
structure EscapeHandler where
  id : Int
  func : HandlerFunc

/-- `escape_table` -/
abbrev EscapeTable := Nat → Option EscapeHandler

/-- The statuses of the c-utils vector the sources look at. -/
inductive VectorStatus
  | ok
  | failed
  deriving Repr, DecidableEq

/-- `vec_bulk_insert` -/
def vecBulkInsert {α : Type} (v : List α) (pos : Nat) (data : List α) : VectorStatus × List α :=
  if pos ≤ v.length then (.ok, v.take pos ++ data ++ v.drop pos) else (.failed, v)

/-- `vec_erase` -/
def vecErase {α : Type} (v : List α) (pos : Nat) : VectorStatus × List α :=
  if pos < v.length then (.ok, v.eraseIdx pos) else (.failed, v)

section Manip

variable (P : Platform) (t : Terminfo)

/-- `nrl_manip_insert_text` -/
def nrlManipInsertText (data : List Uchar) (e : Editor) : Except Fault Editor := do
  let (res, buffer) := vecBulkInsert e.line.buffer e.line.cursor data
  P.assert .vectorStatus (res = .ok)
  pure { e with line := { e.line with buffer, cursor := e.line.cursor + data.length, dirty := true } }

/-! ### Standard keys -/

/-- `escape_left` -/
def escapeLeft (e : Editor) : Except Fault Editor :=
  if e.line.cursor > 0 then
    nrlRenderSyncCursors P t { e with line := { e.line with cursor := e.line.cursor - 1 } }
  else .ok e

/-- `escape_right` -/
def escapeRight (e : Editor) : Except Fault Editor :=
  if e.line.cursor < e.line.buffer.length then
    nrlRenderSyncCursors P t { e with line := { e.line with cursor := e.line.cursor + 1 } }
  else .ok e

/-- `escape_delete` -/
def escapeDelete (e : Editor) : Except Fault Editor :=
  if e.line.cursor < e.line.buffer.length then do
    let (res, buffer) := vecErase e.line.buffer e.line.cursor
    P.assert .vectorStatus (res = .ok)
    pure { e with line := { e.line with buffer, dirty := true } }
  else .ok e

/-- `escape_backspace` -/
def escapeBackspace (e : Editor) : Except Fault Editor :=
  if e.line.cursor > 0 then do
    let e ← escapeLeft P t e
    escapeDelete P e
  else .ok e

/-- `escape_home` -/
def escapeHome (e : Editor) : Except Fault Editor :=
  nrlRenderSyncCursors P t { e with line := { e.line with cursor := 0 } }

/-- `escape_end` -/
def escapeEnd (e : Editor) : Except Fault Editor :=
  nrlRenderSyncCursors P t { e with line := { e.line with cursor := e.line.buffer.length } }

/-- `esc_manips` -/
def escManips : List (TerminfoInput × (Editor → Except Fault Editor)) :=
  [(.keyBackspace, escapeBackspace P t),
    (.keyLeft, escapeLeft P t),
    (.keyRight, escapeRight P t),
    (.keyDelete, escapeDelete P),
    (.keyHome, escapeHome P t),
    (.keyEnd, escapeEnd P t)]

/-- `nrl_manip_eval_escape`, on the integer stored in the acceptor. -/
def nrlManipEvalEscape (escape : Nat) (e : Editor) : Except Fault Editor :=
  match (escManips P t).find? fun manip => manip.1.id = escape with
  | some manip => manip.2 e
  | none => .ok e

/-! ### Custom keys -/

/-- `nrl_manip_make_custom_table`, over the table that is there. -/
def nrlManipMakeCustomTable (handlers : Option (List EscapeHandler)) (table : EscapeTable) :
    EscapeTable :=
  (handlers.getD []).foldl
    (fun table item =>
      if 0 ≤ item.id ∧ item.id < (ticCount : Int) then
        fun k => if (k : Int) = item.id then some item else table k
      else table)
    table

/-- `nrl_manip_clear_custom_table` -/
def nrlManipClearCustomTable : EscapeTable := fun _ => none

/-- An entry of a zero-terminated array. -/
def entryAt (line : List Uchar) (k : Nat) : Except Fault Uchar :=
  match (line ++ [0])[k]? with
  | some c => .ok c
  | none => .error .outOfBounds

/-- The loop that backtracks to the last common point; going below index 0 leaves
both arrays. -/
def adjustCursor (ucLine ucBeforeCursor : List Uchar) : Nat → Except Fault Nat
  | 0 => do
      let c ← entryAt ucLine 0
      let d ← entryAt ucBeforeCursor 0
      if c ≠ d then throw .outOfBounds else pure 0
  | adjust + 1 => do
      let c ← entryAt ucLine (adjust + 1)
      let d ← entryAt ucBeforeCursor (adjust + 1)
      if c ≠ d then adjustCursor ucLine ucBeforeCursor adjust else pure (adjust + 1)

/-- The line and the cursor `nrl_manip_eval_custom` makes of what an UTF-8
handler returns. -/
def importUtf8 (line : List Byte) (cursor : Nat) : Except Fault (List Uchar × Nat) :=
  let utf8Line := cstr line
  let (ucLine, _) := P.utf8Decode utf8Line
  if cursor > utf8Line.length then .error .outOfBounds
  else do
    let (ucBeforeCursor, errorFlag) := P.utf8Decode (utf8Line.take cursor)
    if errorFlag then
      let adjust ← adjustCursor ucLine ucBeforeCursor ucBeforeCursor.length
      pure (ucLine, adjust + 1)
    else pure (ucLine, ucBeforeCursor.length)

/-- The line and the cursor the handler's answer is turned into, for the text
`ucLine` and the cursor before the key. -/
def callHandler (handler : EscapeHandler) (ucLine : List Uchar) (savedCursor : Nat) :
    Except Fault (List Uchar × Nat) :=
  match handler.func with
  | .utf32 func =>
    let (line, cursor) := func (cstr ucLine) savedCursor handler.id
    .ok (cstr line, cursor)
  | .utf8 func =>
    -- the selected character is replaced by a terminator, or the terminator is
    if savedCursor > ucLine.length then .error .outOfBounds
    else
      let exported := P.utf8Encode (cstr ucLine)
      let utf8BeforeCursor := P.utf8Encode (cstr (ucLine.take savedCursor))
      let (line, cursor) := func exported utf8BeforeCursor.length handler.id
      importUtf8 P line cursor

/-- `nrl_manip_eval_custom` -/
def nrlManipEvalCustom (table : EscapeTable) (escape : Nat) (e : Editor) :
    Except Fault (Bool × Editor) :=
  match table escape with
  | none => .ok (false, e)
  | some handler => do
      let savedCursor := e.line.cursor
      let e ← nrlRenderSyncCursors P t { e with line := { e.line with cursor := 0 } }
      -- collecting the vector leaves it empty
      let (buffer, cursor) ← callHandler P handler e.line.buffer savedCursor
      pure (true, { e with line := { e.line with buffer, cursor, dirty := true } })

end Manip

end Nanorl
