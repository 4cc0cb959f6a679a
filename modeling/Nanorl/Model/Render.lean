import Nanorl.Model.Format
import Nanorl.Model.Io

/-!
# Nanorl.Model.Render

`render.c`: drawing the line and keeping track of the terminal's cursor.

`Screen` is the static data of `render.c` over that of `io.c`, which every
drawing step writes to; `Editor` adds the line being edited. Row and column are
`uint32_t` and a linear position is `int32_t`; where the source mixes them the
model converts. Of the field `scrolled` the program knows nothing: it adds up the
rows `handle_scroll` subtracts.
-/

namespace Nanorl

/-- `nrl_echo_mode` -/
inductive EchoMode
  | off
  | on
  | obscured
  deriving Repr, DecidableEq

/-- `pos_2d` -/
structure Pos2d where
  row : Nat
  col : Nat
  deriving Repr, DecidableEq

/-- `line_data`, for lines whose cursors fit into its `uint32_t`. -/
structure LineData where
  buffer : List Uchar
  cursor : Nat
  renderCursor : Nat
  dirty : Bool
  deriving Repr, DecidableEq

/-- The static data of `render.c`. -/
structure Render where
  echoMode : EchoMode
  lastRenderedWidth : Nat
  termSmart : Bool
  echoFd : Int
  resizeFlag : Bool
  termSize : Pos2d
  cursorPos : Pos2d
  scrolled : Nat
  deriving Repr, DecidableEq

structure Screen where
  render : Render
  io : Io

structure Editor where
  line : LineData
  screen : Screen

/-- `CPR_RES_BUF_SIZE` -/
def cprResBufSize : Nat := 512

/-- Conversion to `uint32_t`. -/
def uint32 (x : Int) : Nat := (x % 2 ^ 32).toNat

section Render

variable (P : Platform) (t : Terminfo)

/-! ### Output through a screen -/

/-- `nrl_io_write`, its result ignored. -/
def Screen.write (data : List Byte) (s : Screen) : Except Fault Screen := do
  let (_, io) ← nrlIoWrite P data s.io
  pure { s with io }

/-- `nrl_io_flush`, its result ignored. -/
def Screen.flush (s : Screen) : Except Fault Screen := do
  let (_, io) ← nrlIoFlush P s.io
  pure { s with io }

/-- `count` writes of one character. -/
def Screen.writeTimes (c : Byte) : Nat → Screen → Except Fault Screen
  | 0, s => .ok s
  | count + 1, s => do
      let s ← s.write P [c]
      writeTimes c count s

/-! ### Coordinates -/

/-- `linear_offset_to_2d` -/
def linearOffsetTo2d (termSize origin : Pos2d) (pos : Int) : Except Fault Pos2d :=
  let linearOrigin := int32 (origin.row * termSize.col + origin.col)
  let linearP := int32 (linearOrigin + pos)
  -- row overflow
  if linearP < 0 then .ok { row := 0, col := 0 }
  else if termSize.col = 0 then .error .divByZero
  else .ok { row := linearP.toNat / termSize.col, col := linearP.toNat % termSize.col }

/-- `move_cursor_2d` -/
def moveCursor2d (location : Pos2d) (s : Screen) : Except Fault (Bool × Screen) :=
  match nrlLookupSpecial t TerminfoSpecial.cursorAddress.id with
  | none => .error .nullDeref
  | some format => do
      match ← nrlTerminfoStringFormat format [int32 location.row, int32 location.col] with
      | none => throw .nullDeref
      | some moveCmd =>
        let (written, io) ← nrlIoWrite P moveCmd s.io
        if written then
          let (flushed, io) ← nrlIoFlush P io
          if flushed then
            pure (true, { s with io, render := { s.render with cursorPos := location } })
          else pure (false, { s with io })
        else pure (false, { s with io })

/-- The line feed that makes the terminal scroll at the end of a line. -/
def forceScroll (s : Screen) : Except Fault Screen :=
  if s.render.cursorPos.col = 0 then do
    let s ← s.write P [10]
    s.flush P
  else .ok s

/-- `handle_scroll` -/
def handleScroll (s : Screen) : Except Fault Screen :=
  let rowsScrolled := int32 (s.render.cursorPos.row - s.render.termSize.row + 1)
  if rowsScrolled ≤ 0 then .ok s
  else do
    let s ← forceScroll P s
    let row := uint32 (s.render.cursorPos.row - rowsScrolled)
    pure { s with render := { s.render with
      cursorPos := { s.render.cursorPos with row }
      scrolled := s.render.scrolled + rowsScrolled.toNat } }

/-! ### Queries -/

/-- How many reads can still deliver something before end of file. -/
def World.pendingReads (w : World) : Nat :=
  (w.reads.map fun r => match r with
    | .data bytes => bytes.length + 1
    | .failed _ => 1).sum

/-- The loop of `query_cursor`: the response, or nothing on a read error. Each
read asks for a whole buffer's worth behind what is already there. -/
def readResponse (lastChar : Byte) : Nat → List Byte → Io →
    Except Fault (Option (List Byte) × Io)
  | 0, _, _ => .error .outOfFuel
  | fuel + 1, resBuf, io => do
      match ← nrlIoRawRead P cprResBufSize io with
      | (none, io) => pure (none, io)
      | (some bytes, io) =>
        let resBuf := resBuf ++ bytes
        if resBuf.length > cprResBufSize then throw .outOfBounds
        else
          match resBuf.getLast? with
          | none => throw .outOfBounds
          | some last =>
            if last = lastChar then pure (some resBuf, io)
            else readResponse lastChar fuel resBuf io

/-- The value of a variable that is set or not. -/
def readTarget : Option Int → Except Fault Int
  | some n => .ok n
  | none => .error .uninitialised

/-- What `query_cursor` makes of a response. The result of the parse is not looked at, and
the targets are looked at one after the other. -/
def positionOf (cprRes resBuf : List Byte) : Except Fault Pos2d := do
  P.assert .reportSize (resBuf.length ≠ cprResBufSize)
  if resBuf.length = cprResBufSize then throw .outOfBounds
  else
    let (_, rowTarget, colTarget) ← nrlTerminfoStringParse2 cprRes (cstr resBuf) none none
    let rowBuf ← readTarget rowTarget
    P.assert .reportRow (rowBuf ≥ 0)
    let colBuf ← readTarget colTarget
    P.assert .reportCol (colBuf ≥ 0)
    pure { row := uint32 rowBuf, col := uint32 colBuf }

/-- The part of `query_cursor` behind the request. -/
def receiveReport (io : Io) : Except Fault (Option Pos2d × Io) :=
  match nrlLookupSpecial t TerminfoSpecial.user6.id with
  | none => .error .nullDeref
  | some cprRes =>
    match cprRes.getLast? with
    | none => .error .outOfBounds
    | some lastChar => do
        match ← readResponse P lastChar (io.world.pendingReads + 2) [] io with
        | (none, io) => pure (none, io)
        | (some resBuf, io) =>
          let position ← positionOf P cprRes resBuf
          pure (some position, io)

/-- `query_cursor`: the position, or nothing if the request failed. -/
def queryCursor (io : Io) : Except Fault (Option Pos2d × Io) :=
  match nrlLookupSpecial t TerminfoSpecial.user7.id with
  | none => .error .nullDeref
  | some cprReq => do
      let (written, io) ← nrlIoWrite P cprReq io
      if !written then pure (none, io)
      else
        let (flushed, io) ← nrlIoFlush P io
        if !flushed then pure (none, io) else receiveReport P t io

/-- `query_size(buf)`: whether a method succeeded, and `buf`, which also changes
when the last move fails. -/
def querySize (buf : Pos2d) (s : Screen) : Except Fault (Bool × Pos2d × Screen) := do
  let (size, world) := s.io.world.winsize
  let s := { s with io := { s.io with world } }
  match size with
  | some (rows, cols) => pure (true, { row := rows.toNat, col := cols.toNat }, s)
  | none =>
    match ← queryCursor P t s.io with
    | (none, io) => pure (false, buf, { s with io })
    | (some savedPos, io) =>
      let (moved, s) ← moveCursor2d P t { row := 9999, col := 9999 } { s with io }
      if !moved then pure (false, buf, s)
      else
        match ← queryCursor P t s.io with
        | (none, io) => pure (false, buf, { s with io })
        | (some buf, io) =>
          let (moved, s) ← moveCursor2d P t savedPos { s with io }
          if !moved then pure (false, buf, s)
          else pure (true, { row := uint32 (buf.row + 1), col := uint32 (buf.col + 1) }, s)

/-! ### Moving the cursor -/

/-- The loop of `move_to_pos_normal`, which steps over the characters between
the two cursors: the new render cursor and the width moved. `vec_at` returns a
null pointer outside the vector. -/
def stepCursor (buffer : List Uchar) (pos : Nat) (dirFwd : Bool) :
    Nat → Nat → Int → Except Fault (Nat × Int)
  | 0, _, _ => .error .outOfFuel
  | fuel + 1, renderCursor, moveWidth =>
    if renderCursor = pos then .ok (renderCursor, moveWidth)
    else
      let stepIdx := if dirFwd then renderCursor else uint32 (renderCursor - 1)
      match buffer[stepIdx]? with
      | none => .error .nullDeref
      | some step => do
          let width := P.ucwidth step
          P.assert .charWidth (width ≠ -1)
          if dirFwd then
            stepCursor buffer pos dirFwd fuel (renderCursor + 1) (int32 (moveWidth + width))
          else
            stepCursor buffer pos dirFwd fuel (renderCursor - 1) (int32 (moveWidth - width))

/-- `move_to_pos_normal`. The loop ends within as many rounds as the vector has
entries, since each round uses another one. -/
def moveToPosNormal (pos : Nat) (e : Editor) : Except Fault Editor := do
  let dirFwd := decide (int32 (int32 pos - int32 e.line.renderCursor) > 0)
  let (renderCursor, moveWidth) ← stepCursor P e.line.buffer pos dirFwd
    (e.line.buffer.length + 1) e.line.renderCursor 0
  let location ← linearOffsetTo2d e.screen.render.termSize e.screen.render.cursorPos moveWidth
  let (_, screen) ← moveCursor2d P t location e.screen
  pure { line := { e.line with renderCursor }, screen }

/-- `move_to_pos_obscured` -/
def moveToPosObscured (pos : Nat) (e : Editor) : Except Fault Editor := do
  let offset := int32 (int32 pos - int32 e.line.renderCursor)
  let renderCursor := uint32 (int32 e.line.renderCursor + offset)
  let location ← linearOffsetTo2d e.screen.render.termSize e.screen.render.cursorPos offset
  let (_, screen) ← moveCursor2d P t location e.screen
  pure { line := { e.line with renderCursor }, screen }

/-! ### Drawing -/

/-- Blanks over what the last redraw left behind the new text. -/
def eraseRest (count : Nat) (s : Screen) : Except Fault Screen :=
  let toErase := int32 (int32 s.render.lastRenderedWidth - count)
  s.writeTimes P 32 toErase.toNat

/-- The end of both redraws: account for the width just drawn, scroll, blank out
the rest. -/
def afterDrawing (width : Int) (count : Nat) (s : Screen) : Except Fault Screen := do
  let cursorPos ← linearOffsetTo2d s.render.termSize s.render.cursorPos width
  let s ← handleScroll P { s with render := { s.render with cursorPos } }
  let s ← eraseRest P count s
  pure { s with render := { s.render with lastRenderedWidth := uint32 width } }

/-- `redraw_normal`, on a buffer that ends in the pushed terminator. -/
def redrawNormal (e : Editor) : Except Fault Editor :=
  if !e.screen.render.termSmart then
    if e.line.buffer.length ≤ e.line.renderCursor then .error .outOfBounds
    else do
      let screen ← e.screen.write P (P.utf8Encode (cstr (e.line.buffer.drop e.line.renderCursor)))
      pure { e with screen }
  else do
    let data := P.utf8Encode (cstr e.line.buffer)
    let e ← moveToPosNormal P t 0 e
    let screen ← e.screen.write P data
    let count := e.line.buffer.length - 1
    let wrWidth := P.ucswidth (e.line.buffer.take count)
    P.assert .lineWidth (wrWidth ≠ -1)
    let screen ← afterDrawing P wrWidth count screen
    moveToPosNormal P t e.line.cursor
      { line := { e.line with renderCursor := count }, screen }

/-- `redraw_obscured`, on a buffer that ends in the pushed terminator. -/
def redrawObscured (e : Editor) : Except Fault Editor :=
  let count := e.line.buffer.length - 1
  if !e.screen.render.termSmart then do
    let screen ← e.screen.writeTimes P 42 (uint32 (count - e.line.renderCursor))
    pure { e with screen }
  else do
    let e ← moveToPosObscured P t 0 e
    let screen ← e.screen.writeTimes P 42 count
    let screen ← afterDrawing P count count screen
    moveToPosObscured P t e.line.cursor
      { line := { e.line with renderCursor := count }, screen }

/-- The new position and dimensions after a resize; the results of the queries
are not looked at. -/
def requery (s : Screen) : Except Fault Screen :=
  if s.render.resizeFlag && s.render.termSmart && s.render.echoMode ≠ .off then do
    let (cursorPos, io) ← queryCursor P t s.io
    let s := { render := { s.render with cursorPos := cursorPos.getD s.render.cursorPos }, io }
    let (_, termSize, s) ← querySize P t s.render.termSize s
    pure { s with render := { s.render with termSize } }
  else .ok s

/-- The drawing of `nrl_render_redraw`, by echo mode. -/
def redrawByMode (e : Editor) : Except Fault Editor :=
  match e.screen.render.echoMode with
  | .on => redrawNormal P t e
  | .obscured => redrawObscured P t e
  | .off => .ok e

/-- `nrl_render_redraw` -/
def nrlRenderRedraw (e : Editor) : Except Fault Editor := do
  let screen ← requery P t e.screen
  let e ← redrawByMode P t
    { line := { e.line with buffer := e.line.buffer ++ [0] }, screen }
  let line := { e.line with buffer := e.line.buffer.eraseIdx (e.line.buffer.length - 1), dirty := false }
  let screen := { e.screen with render := { e.screen.render with resizeFlag := false } }
  let screen ← screen.flush P
  pure { line, screen }

/-- `move_to_pos_normal` or `move_to_pos_obscured`, by echo mode. -/
def moveByMode (pos : Nat) (e : Editor) : Except Fault Editor :=
  match e.screen.render.echoMode with
  | .on => moveToPosNormal P t pos e
  | .obscured => moveToPosObscured P t pos e
  | .off => .ok e

/-- `nrl_render_sync_cursors` -/
def nrlRenderSyncCursors (e : Editor) : Except Fault Editor := do
  P.assert .termSmart e.screen.render.termSmart
  let e ← moveByMode P t e.line.cursor e
  let screen ← e.screen.flush P
  pure { e with screen }

/-- `nrl_render_notify_resize` -/
def nrlRenderNotifyResize (s : Screen) : Screen :=
  { s with render := { s.render with resizeFlag := true } }

/-- `nrl_render_init` -/
def nrlRenderInit (mode : EchoMode) (echoFile : Int) (s : Screen) :
    Except Fault (Bool × Screen) := do
  let s := { s with render := { s.render with
    echoMode := mode
    lastRenderedWidth := 0
    termSmart := nrlTermIsSmart t
    echoFd := echoFile
    scrolled := 0 } }
  if s.render.termSmart && s.render.echoMode ≠ .off then
    match ← queryCursor P t s.io with
    | (none, io) => pure (false, { s with io })
    | (some cursorPos, io) =>
      let (queried, termSize, s) ← querySize P t s.render.termSize
        { render := { s.render with cursorPos }, io }
      pure (queried, { s with render := { s.render with termSize } })
  else pure (true, s)

end Render

end Nanorl
