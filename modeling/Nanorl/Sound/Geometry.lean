import Nanorl.Sound.Loop

/-!
# Nanorl.Sound.Geometry

The dimensions coordinates are computed with.

`linear_offset_to_2d` is entered from two places: `nrl_render_sync_cursors` uses the
books as it finds them, and `nrl_render_redraw` uses them as they are behind its
queries (`CursorOp.addressed`). So what matters of a run is what its queries found, what
has been drawn since, and what came between a notification and the redraw that answers
it: every divisor is a number of columns the terminal has reported (`columns_pos`), and
every coordinate is computed from a position and dimensions that are current
(`addresses_current`).
-/

namespace Nanorl

open Run (Ends)

section Geometry

variable (P : Platform) (t : Terminfo)

/-- The screen whose books a call computes coordinates from, if it computes any. -/
def CursorOp.addressed : CursorOp → Editor → Option Screen
  | .edit .redraw, e => (requery P t e.screen).toOption
  | op, e => if op.syncs e.line then some e.screen else none

theorem CursorOp.addressed_redraw {e : Editor} {s : Screen}
    (h : (CursorOp.edit .redraw).addressed P t e = some s) : requery P t e.screen = .ok s := by
  rw [CursorOp.addressed] at h
  cases hrequery : requery P t e.screen with
  | error f =>
    rw [hrequery] at h
    cases h
  | ok s' =>
    rw [hrequery] at h
    exact congrArg _ (Option.some.inj h)

theorem CursorOp.addressed_of_ne {op : CursorOp} (hop : op ≠ .edit .redraw) (e : Editor) :
    op.addressed P t e = if op.syncs e.line then some e.screen else none :=
  CursorOp.of_ne hop (fun _ _ => rfl) (fun _ => rfl) (fun _ => rfl) rfl

/-! ### Columns -/

/-- The fallback of `query_size`: the corner in which the cursor stops, and whether it
could be moved back. -/
def fallbackCorner (s : Screen) : Except Fault (Option (Pos2d × Bool)) := do
  match ← queryCursor P t s.io with
  | (none, _) => pure none
  | (some savedPos, io) =>
    let (moved, s) ← moveCursor2d P t { row := 9999, col := 9999 } { s with io }
    if !moved then pure none
    else
      match ← queryCursor P t s.io with
      | (none, _) => pure none
      | (some corner, io) =>
        let (moved, _) ← moveCursor2d P t savedPos { s with io }
        pure (some (corner, moved))

/-- What answers a size query has columns: the reply to the request or, where there is
none, the corner, also if the cursor is left there. -/
def Screen.Sized (s : Screen) : Prop :=
  match s.io.world.winsize with
  | (some (_, cols), _) => cols ≠ 0
  | (none, world) =>
    match fallbackCorner P t { s with io := { s.io with world } } with
    | .ok (some (corner, moved)) => corner.col + 1 < 2 ^ 32 ∧ (moved = false → corner.col ≠ 0)
    | _ => True

theorem querySize_columns {buf size : Pos2d} {done : Bool} {s s' : Screen} (hsized : s.Sized P t)
    (hbuf : done = true ∨ 0 < buf.col) (h : querySize P t buf s = .ok (done, size, s')) :
    0 < size.col := by
  rw [Screen.Sized] at hsized
  rw [querySize] at h
  generalize s.io.world.winsize = reply at hsized h
  obtain ⟨_ | ⟨rows, cols⟩, world⟩ := reply
  · -- the reply is computed as the corner is
    have hgiven : ∀ {s₁ : Screen}, (pure (false, buf, s₁) : Except Fault (Bool × Pos2d × Screen)) =
        .ok (done, size, s') → 0 < size.col := by
      intro s₁ hpure
      obtain ⟨rfl, hrest⟩ := Prod.mk.inj (Except.ok.inj hpure)
      obtain ⟨rfl, -⟩ := Prod.mk.inj hrest
      exact hbuf.resolve_left Bool.false_ne_true
    dsimp only at hsized h
    rw [fallbackCorner] at hsized
    dsimp only at hsized
    obtain ⟨⟨saved, io₁⟩, hsaved, h⟩ := Run.bind_eq_ok.mp h
    rw [hsaved, Run.ok_bind] at hsized
    cases saved with
    | none => exact hgiven h
    | some savedPos =>
      obtain ⟨⟨moved, s₁⟩, hmove, h⟩ := Run.bind_eq_ok.mp h
      dsimp only at hsized
      rw [hmove, Run.ok_bind] at hsized
      cases moved with
      | false => exact hgiven h
      | true =>
        obtain ⟨⟨corner, io₂⟩, hcorner, h⟩ := Run.bind_eq_ok.mp h
        dsimp only at hsized
        rw [if_neg (by decide), hcorner, Run.ok_bind] at hsized
        cases corner with
        | none => exact hgiven h
        | some corner =>
          obtain ⟨⟨moved, s₂⟩, hback, h⟩ := Run.bind_eq_ok.mp h
          dsimp only at hsized
          rw [hback] at hsized
          obtain ⟨hlt, hne⟩ := hsized
          -- the corner is taken as it is unless the cursor gets back
          cases moved with
          | false =>
            obtain ⟨-, hrest⟩ := Prod.mk.inj (Except.ok.inj h)
            obtain ⟨rfl, -⟩ := Prod.mk.inj hrest
            exact Nat.pos_of_ne_zero (hne rfl)
          | true =>
            obtain ⟨-, hrest⟩ := Prod.mk.inj (Except.ok.inj h)
            obtain ⟨rfl, -⟩ := Prod.mk.inj hrest
            show 0 < uint32 ((corner.col : Int) + 1)
            unfold uint32
            omega
  · -- the reply is taken as it is
    obtain ⟨-, hrest⟩ := Prod.mk.inj (Except.ok.inj h)
    obtain ⟨rfl, -⟩ := Prod.mk.inj hrest
    show 0 < cols.toNat
    exact Nat.pos_of_ne_zero fun hzero => hsized (UInt16.toNat_inj.mp hzero)

/-- Whatever answers the size query behind the next position query has columns. -/
def Io.FindsColumns (io : Io) : Prop :=
  ∀ cursorPos io', queryCursor P t io = .ok (cursorPos, io') →
    ∀ render, Screen.Sized P t { render, io := io' }

/-- A redraw that queries the terminal finds columns. -/
def Step.FindsColumns : Step → Editor → Prop
  | .call (.edit .redraw), e => e.screen.render.resizeFlag = true → e.screen.io.FindsColumns P t
  | _, _ => True

variable {P t}

theorem requery_columns {s s' : Screen} (hcols : 0 < s.render.termSize.col)
    (hfinds : s.render.resizeFlag = true → s.io.FindsColumns P t)
    (h : requery P t s = .ok s') : 0 < s'.render.termSize.col := by
  unfold requery at h
  split at h
  · rename_i hflag
    simp only [Bool.and_eq_true] at hflag
    obtain ⟨⟨cursorPos, io⟩, hquery, h⟩ := Run.bind_eq_ok.mp h
    obtain ⟨⟨done, termSize, s₁⟩, hsize, h⟩ := Run.bind_eq_ok.mp h
    obtain rfl := Except.ok.inj h
    exact querySize_columns P t (hfinds hflag.1.1 _ _ hquery _) (.inr hcols) hsize
  · obtain rfl := Except.ok.inj h
    exact hcols

/-- A session starts with columns. -/
theorem nrlRenderInit_columns {mode : EchoMode} (hmode : mode ≠ .off) {echoFile : Int}
    {s s₀ : Screen} (hfinds : s.io.FindsColumns P t) (hsmart : nrlTermIsSmart t = true)
    (h : nrlRenderInit P t mode echoFile s = .ok (true, s₀)) : 0 < s₀.render.termSize.col := by
  unfold nrlRenderInit at h
  dsimp only at h
  rw [if_pos (by simp [hsmart, hmode])] at h
  obtain ⟨⟨cursorPos, io⟩, hquery, h⟩ := Run.bind_eq_ok.mp h
  cases cursorPos with
  | none => cases h
  | some cursorPos =>
    obtain ⟨⟨done, termSize, s₁⟩, hsize, h⟩ := Run.bind_eq_ok.mp h
    obtain ⟨rfl, rfl⟩ := Prod.mk.inj (Except.ok.inj h)
    exact querySize_columns P t (hfinds _ _ hquery _) (.inl rfl) hsize

/-- The step: the columns stay, or are those a redraw has found. -/
theorem Step.perform_columns {step : Step} {e e' : Editor} (hcols : 0 < e.screen.render.termSize.col)
    (hfinds : step.FindsColumns P t e) (h : step.perform P t e = .ok e') :
    0 < e'.screen.render.termSize.col := by
  cases step with
  | notify =>
    obtain rfl := Except.ok.inj h
    exact hcols
  | read root buffer =>
    obtain ⟨_, -, h⟩ := Run.bind_eq_ok.mp h
    obtain rfl := Except.ok.inj h
    exact hcols
  | call op =>
    by_cases hop : op = .edit .redraw
    · subst hop
      obtain ⟨s, r, hrequeries, hdrawn, hrender⟩ := (nrlRenderRedraw_ok P t h).requeried
      rw [hrender]
      show 0 < r.termSize.col
      rw [hdrawn.termSize]
      exact requery_columns hcols hfinds hrequeries.requery
    · rw [(CursorOp.perform_movedTo P t hop h).drawnTo.termSize]
      exact hcols

instance : DrawFaults (· ≠ .divByZero) where
  assertion _ _ := nofun
  outOfBounds := nofun
  uninitialised := nofun
  outOfFuel := nofun
  nullDeref := nofun

/-- With columns nothing is divided by zero. -/
theorem CursorOp.perform_divides {op : CursorOp} {e : Editor}
    (hcols : 0 < e.screen.render.termSize.col)
    (hfinds : (Step.call op).FindsColumns P t e) :
    Ends (· ≠ .divByZero) (fun _ => True) (op.perform P t e) := by
  refine CursorOp.perform_faults P t nofun (fun _ => ⟨fun _ => nofun, fun hzero => ?_⟩) ?_
  · omega
  · intro hop s hrequeries hzero
    subst hop
    have hpos := requery_columns hcols hfinds hrequeries.requery
    omega

end Geometry

/-- **No division by zero.** In every state of a session in which all queries of the
size find columns, coordinates are computed with columns. -/
theorem columns_pos {P : Platform} {t : Terminfo} {mode : EchoMode} (hmode : mode ≠ .off)
    {echoFile : Int} {s s₀ : Screen} (hinit : nrlRenderInit P t mode echoFile s = .ok (true, s₀))
    (hsmart : nrlTermIsSmart t = true) (hfinds : s.io.FindsColumns P t) {steps : List Step}
    (hsteps : Run.Guarded (Step.perform P t) (Step.FindsColumns P t) steps
      { line := emptyLine, screen := s₀ })
    {e : Editor} (hrun : Run.exec (Step.perform P t) steps { line := emptyLine, screen := s₀ } = .ok e)
    {op : CursorOp} (hop : (Step.call op).FindsColumns P t e) :
    (∀ s, op.addressed P t e = some s → 0 < s.render.termSize.col) ∧
      op.perform P t e ≠ .error .divByZero := by
  have hcols : 0 < e.screen.render.termSize.col :=
    Run.exec_guarded (I := fun e : Editor => 0 < e.screen.render.termSize.col)
      (fun _ _ _ hcols hstep h => Step.perform_columns hcols hstep h)
      (nrlRenderInit_columns hmode hfinds hsmart hinit) hsteps hrun
  refine ⟨fun s haddressed => ?_, fun h => (CursorOp.perform_divides hcols hop).of_error h rfl⟩
  by_cases hredraw : op = .edit .redraw
  · subst hredraw
    exact requery_columns hcols hop (CursorOp.addressed_redraw P t haddressed)
  · rw [CursorOp.addressed_of_ne P t hredraw] at haddressed
    split at haddressed
    · obtain rfl := Option.some.inj haddressed
      exact hcols
    · cases haddressed

/-- An xterm of these rows and columns, as `nrl_render_init` leaves it. -/
def xtermSized (size : UInt16 × UInt16) : Except Fault (Bool × Screen) :=
  nrlRenderInit referencePlatform xtermTerminfo .on 1
    { xtermScreen with io := { xtermScreen.io with world := { xtermScreen.io.world with
      winsizes := [some size] } } }

/-- An `a`, drawn. -/
def drawnA : List CursorOp := [.edit (.insert [97]), .edit .redraw]

theorem xterm_findsColumns :
    Io.FindsColumns referencePlatform xtermTerminfo { xtermScreen.io with
      world := { xtermScreen.io.world with winsizes := [some (24, 80)] } } := by
  intro cursorPos io h render
  have hkept : (queryCursor referencePlatform xtermTerminfo { xtermScreen.io with
      world := { xtermScreen.io.world with winsizes := [some (24, 80)] } }).map
        (fun r => r.2.world.winsizes) = .ok [some (24, 80)] := by
    decide +kernel
  rw [h] at hkept
  have hwinsizes : io.world.winsizes = [some (24, 80)] := Except.ok.inj hkept
  rw [Screen.Sized, World.winsize, hwinsizes]
  show (80 : UInt16) ≠ 0
  decide

/-- A cursor key behind the first redraw. -/
theorem columns_pos_xterm :
    ∃ s₀ e, xtermSized (24, 80) = .ok (true, s₀) ∧
      Run.exec (Step.perform referencePlatform xtermTerminfo) (drawnA.map .call)
        { line := emptyLine, screen := s₀ } = .ok e ∧
      (∀ s, (CursorOp.edit (.escape .keyLeft)).addressed referencePlatform xtermTerminfo e = some s →
        0 < s.render.termSize.col) ∧
      (CursorOp.edit (.escape .keyLeft)).perform referencePlatform xtermTerminfo e ≠
        .error .divByZero := by
  have hfacts : (xtermSized (24, 80)).map (fun r => decide (r.1 = true ∧
      Run.Guarded (Step.perform referencePlatform xtermTerminfo)
        (fun _ e => e.screen.render.resizeFlag = false) (drawnA.map .call) ⟨emptyLine, r.2⟩ ∧
      (Run.exec (Step.perform referencePlatform xtermTerminfo) (drawnA.map .call)
        ⟨emptyLine, r.2⟩).isOk = true)) = .ok true := by
    decide +kernel
  obtain ⟨⟨done, s₀⟩, hinit, hfacts⟩ := Run.map_eq_ok.mp hfacts
  obtain ⟨rfl, hsteps, hok⟩ := of_decide_eq_true hfacts
  obtain ⟨e, hrun⟩ := Run.isOk_iff.mp hok
  refine ⟨s₀, e, hinit, hrun, ?_⟩
  refine columns_pos (by decide) hinit (by decide) xterm_findsColumns (hsteps.mono ?_) hrun
    (by trivial : (Step.call (.edit (.escape .keyLeft))).FindsColumns _ _ e)
  intro step e hflag
  cases step with
  | notify => trivial
  | read root buffer => trivial
  | call op =>
    cases op with
    | custom table escape => trivial
    | edit op =>
      cases op with
      | insert text => trivial
      | escape key => trivial
      | sync => trivial
      | redraw => exact fun hset => absurd (hflag.symm.trans hset) Bool.false_ne_true

/-- A pseudo terminal that has not been told its size replies with zeros, and the first
redraw divides by them. -/
theorem redraw_divides :
    (xtermSized (0, 0) >>= fun r => Run.exec (CursorOp.perform referencePlatform xtermTerminfo)
      drawnA { line := emptyLine, screen := r.2 }).map (fun _ => ()) = .error .divByZero := by
  decide +kernel

/-! ### Motions -/

/-- What drawing does to the terminal's cursor: it is sent from the render cursor of a line to
a place in the line, or a text is drawn. -/
inductive Motion
  | move (pos : Nat) (line : LineData)
  | draw (text : List Uchar)
  deriving Repr, DecidableEq

/-- The position behind `handle_scroll`. -/
def Pos2d.scrolledUp (size position : Pos2d) : Pos2d :=
  let rowsScrolled := int32 (position.row - size.row + 1)
  if rowsScrolled ≤ 0 then position else { position with row := uint32 (position.row - rowsScrolled) }

theorem Render.scrolledUp_cursorPos (r : Render) :
    r.scrolledUp.cursorPos = r.termSize.scrolledUp r.cursorPos := by
  unfold Render.scrolledUp Pos2d.scrolledUp
  dsimp only
  split <;> rfl

/-- Where a motion takes a position on a terminal of these dimensions. A coordinate that cannot
be sent leaves it. -/
inductive Motion.Takes (P : Platform) (mode : EchoMode) (size : Pos2d) : Motion → Pos2d → Pos2d → Prop
  | unsent (pos : Nat) (line : LineData) (p : Pos2d) : Takes P mode size (.move pos line) p p
  | sent {pos renderCursor : Nat} {line : LineData} {width : Int} {p p' : Pos2d}
      (hsteps : modeSteps P mode pos line = .ok (renderCursor, width))
      (hoffset : linearOffsetTo2d size p width = .ok p') : Takes P mode size (.move pos line) p p'
  | drawn {text : List Uchar} {p p' : Pos2d}
      (hoffset : linearOffsetTo2d size p (drawnWidth P mode text) = .ok p') :
      Takes P mode size (.draw text) p (size.scrolledUp p')

/-- Where motions take a position, one after the other. -/
def Motion.Lead (P : Platform) (mode : EchoMode) (size : Pos2d) : List Motion → Pos2d → Pos2d → Prop
  | [], p, p' => p' = p
  | motion :: motions, p, p' => ∃ p₁, motion.Takes P mode size p p₁ ∧ Lead P mode size motions p₁ p'

/-- The motions of a call: to the place it synchronises the cursor with, or over the line and
back to its cursor. -/
def CursorOp.motions : CursorOp → LineData → List Motion
  | .edit .redraw, line =>
    [.move 0 { line with buffer := line.buffer ++ [0] }, .draw line.buffer,
      .move line.cursor { line with buffer := line.buffer ++ [0], renderCursor := line.buffer.length }]
  | op, line => if op.syncs line then [.move (op.target line) line] else []

section Motions

variable {P : Platform} {mode : EchoMode} {size : Pos2d}

theorem Motion.Lead.append {motions rest : List Motion} {p p₁ p' : Pos2d}
    (h : Motion.Lead P mode size motions p p₁) (hrest : Motion.Lead P mode size rest p₁ p') :
    Motion.Lead P mode size (motions ++ rest) p p' := by
  induction motions generalizing p with
  | nil =>
    obtain rfl : p₁ = p := h
    exact hrest
  | cons motion motions ih =>
    obtain ⟨p₂, htakes, h⟩ := h
    exact ⟨p₂, htakes, ih h⟩

theorem CursorOp.motions_of_ne {op : CursorOp} (hop : op ≠ .edit .redraw) (line : LineData) :
    op.motions line = if op.syncs line then [.move (op.target line) line] else [] :=
  CursorOp.of_ne hop (fun _ _ => rfl) (fun _ => rfl) (fun _ => rfl) rfl

/-- The steps depend on the text and the render cursor. -/
theorem modeSteps_congr {pos : Nat} {line line' : LineData} (hbuffer : line'.buffer = line.buffer)
    (hrc : line'.renderCursor = line.renderCursor) : modeSteps P mode pos line' = modeSteps P mode pos line := by
  obtain ⟨buffer, cursor, renderCursor, dirty⟩ := line
  obtain ⟨buffer', cursor', renderCursor', dirty'⟩ := line'
  subst hbuffer hrc
  cases mode <;> rfl

theorem Reaches.takes {pos : Nat} {e e' : Editor} (h : Reaches (modeSteps P mode) pos e e') (line : LineData)
    (hbuffer : line.buffer = e.line.buffer) (hrc : line.renderCursor = e.line.renderCursor) :
    (Motion.move pos line).Takes P mode e.screen.render.termSize e.screen.render.cursorPos
      e'.screen.render.cursorPos := by
  obtain ⟨renderCursor, location, moved, ⟨width, hsteps, hoffset⟩, -, hmoves⟩ := h
  have hrender := hmoves.render
  cases moved with
  | false =>
    rw [show e'.screen.render = e.screen.render from hrender]
    exact .unsent _ _ _
  | true =>
    rw [show e'.screen.render = { e.screen.render with cursorPos := location } from hrender]
    exact .sent ((modeSteps_congr hbuffer hrc).trans hsteps) hoffset

theorem Draws.takes {text : List Uchar} {s s' : Screen} (h : Draws (drawnWidth P mode text) s s') :
    (Motion.draw text).Takes P mode s.render.termSize s.render.cursorPos s'.render.cursorPos := by
  obtain ⟨⟨cursorPos, hoffset, hrender⟩, -⟩ := h
  rw [hrender]
  show Motion.Takes P mode _ _ _ (Render.scrolledUp _).cursorPos
  rw [Render.scrolledUp_cursorPos]
  exact .drawn hoffset

/-- A redraw takes the position of the screen it draws on through its motions. -/
theorem Draws.OfLine.leads {s : Screen} {line : LineData} {e' : Editor}
    (h : Draws.OfLine (modeSteps P mode) (drawnWidth P mode)
      { line := { line with buffer := line.buffer ++ [0] }, screen := s } e') :
    Motion.Lead P mode s.render.termSize ((CursorOp.edit .redraw).motions line) s.render.cursorPos
      e'.screen.render.cursorPos := by
  obtain ⟨e₁, s₁, s₂, hstart, hout, hdraws, hend⟩ := h
  have hlength : (line.buffer ++ [0]).length - 1 = line.buffer.length := by simp
  have hsize₁ : s₁.render.termSize = s.render.termSize := by
    rw [hout.render]
    exact hstart.movedTo.drawnTo.termSize
  have hsize₂ : s₂.render.termSize = s.render.termSize := hdraws.drawnTo.termSize.trans hsize₁
  dsimp only at hdraws hend
  rw [hlength] at hdraws hend
  rw [List.take_left] at hdraws
  have hstart := hstart.takes { line with buffer := line.buffer ++ [0] } rfl rfl
  have hdraws := hdraws.takes
  have hend := hend.takes { line with
    buffer := line.buffer ++ [0], renderCursor := line.buffer.length } rfl rfl
  rw [hsize₁, hout.render] at hdraws
  rw [show Editor.screen _ = s₂ from rfl, hsize₂] at hend
  exact ⟨_, hstart, _, hdraws, _, hend, rfl⟩

end Motions

/-! ### Notifications -/

/-- What a query of position and size has found, and the motions since. -/
structure Found where
  position : Pos2d
  size : Pos2d
  motions : List Motion
  deriving Repr, DecidableEq

/-- The books are those of the query: the dimensions it found, and the position it found, moved
only by the motions since. -/
structure Found.Agrees (P : Platform) (found : Found) (r : Render) : Prop where
  termSize : r.termSize = found.size
  cursorPos : Motion.Lead P r.echoMode found.size found.motions found.position r.cursorPos

/-- Further motions. -/
def Found.follow (found : Found) (motions : List Motion) : Found :=
  { found with motions := found.motions ++ motions }

/-- What is known of the notifications of a run: whether one has come since the last
redraw, and what a query of position and size has found since the last one, if there has
been such a query. -/
structure Notices where
  pending : Bool
  queried : Option Found
  deriving Repr, DecidableEq

section Notices

variable (P : Platform) (t : Terminfo)

/-- The position that was reported last when position and size have been queried: the fallback
of the size query asks for it again. -/
def positionAsked (cursorPos : Pos2d) (io : Io) : Option Pos2d :=
  match io.world.winsize with
  | (some _, _) => some cursorPos
  | (none, world) =>
    match queryCursor P t { io with world } with
    | .ok (savedPos, _) => savedPos
    | .error _ => none

/-- What the queries of position and size find, if both of them succeed. -/
def requeried (s : Screen) : Option Found :=
  match queryCursor P t s.io with
  | .ok (some cursorPos, io) =>
    match querySize P t s.render.termSize { render := { s.render with cursorPos }, io } with
    | .ok (true, size, _) => (positionAsked P t cursorPos io).map fun position => { position, size, motions := [] }
    | _ => none
  | _ => none

/-- The screen `nrl_render_init` queries the terminal on. -/
def Screen.opening (mode : EchoMode) (echoFile : Int) (s : Screen) : Screen :=
  { s with render := { s.render with
    echoMode := mode
    lastRenderedWidth := 0
    termSmart := nrlTermIsSmart t
    echoFd := echoFile
    scrolled := 0 } }

/-- The notices at the start of a session. -/
def Notices.atStart (mode : EchoMode) (echoFile : Int) (s : Screen) : Notices :=
  { pending := false, queried := requeried P t (s.opening t mode echoFile) }

/-- What has been found before a call computes its coordinates: a redraw after a resize
queries. -/
def CursorOp.found : CursorOp → Editor → Notices → Option Found
  | .edit .redraw, e, n => if e.screen.render.resizeFlag then requeried P t e.screen else n.queried
  | _, _, n => n.queried

/-- The notices behind a step. -/
def Step.notices : Step → Editor → Notices → Notices
  | .notify, _, _ => { pending := true, queried := none }
  | .read _ _, _, n => n
  | .call (.edit .redraw), e, n =>
    { pending := false
      queried := (CursorOp.found P t (.edit .redraw) e n).map fun found =>
        found.follow ((CursorOp.edit .redraw).motions e.line) }
  | .call op, e, n =>
    { n with queried := (op.found P t e n).map fun found => found.follow (op.motions e.line) }

/-- A step together with what it does to the notices. -/
def Step.performNoticed (step : Step) (s : Notices × Editor) : Except Fault (Notices × Editor) :=
  (step.perform P t s.2).map fun e => (step.notices P t s.2 s.1, e)

/-- No cursor is synchronised between a notification and the next redraw, and a redraw
that queries the terminal gets its answers. -/
def Step.Orderly : Step → Notices × Editor → Prop
  | .call (.edit .redraw), s =>
    s.2.screen.render.resizeFlag = true → (requeried P t s.2.screen).isSome = true
  | .call op, s => op.syncs s.2.line = true → s.1.pending = false
  | _, _ => True

instance : ∀ (step : Step) (s : Notices × Editor), Decidable (step.Orderly P t s)
  | .notify, _ => inferInstanceAs (Decidable True)
  | .read _ _, _ => inferInstanceAs (Decidable True)
  | .call (.custom _ _), _ => inferInstanceAs (Decidable (_ = _ → _ = _))
  | .call (.edit .redraw), _ => inferInstanceAs (Decidable (_ = _ → _ = _))
  | .call (.edit .sync), _ => inferInstanceAs (Decidable (_ = _ → _ = _))
  | .call (.edit (.insert _)), _ => inferInstanceAs (Decidable (_ = _ → _ = _))
  | .call (.edit (.escape _)), _ => inferInstanceAs (Decidable (_ = _ → _ = _))

/-- The invariant: the terminal is smart and echoes, a pending notification has set the
flag, and without one the books are those of the last query. -/
structure Noticed (s : Notices × Editor) : Prop where
  termSmart : s.2.screen.render.termSmart = true
  echoMode : s.2.screen.render.echoMode ≠ .off
  pending : s.1.pending = true → s.2.screen.render.resizeFlag = true
  queried : s.1.pending = false → ∃ found, s.1.queried = some found ∧ found.Agrees P s.2.screen.render

variable {P t}

theorem CursorOp.found_of_ne {op : CursorOp} (hop : op ≠ .edit .redraw) (e : Editor) (n : Notices) :
    op.found P t e n = n.queried :=
  CursorOp.of_ne hop (fun _ _ => rfl) (fun _ => rfl) (fun _ => rfl) rfl

theorem Step.orderly_of_ne {op : CursorOp} {s : Notices × Editor} (hop : op ≠ .edit .redraw) :
    (Step.call op).Orderly P t s → op.syncs s.2.line = true → s.1.pending = false :=
  CursorOp.of_ne hop (fun _ _ => id) (fun _ => id) (fun _ => id) id

theorem Step.notices_call (op : CursorOp) (e : Editor) (n : Notices) :
    ((Step.call op).notices P t e n).queried =
      (op.found P t e n).map fun found => found.follow (op.motions e.line) := by
  cases op with
  | custom table escape => rfl
  | edit op => cases op <;> rfl

theorem Step.notices_pending {op : CursorOp} (hop : op ≠ .edit .redraw) (e : Editor) (n : Notices) :
    ((Step.call op).notices P t e n).pending = n.pending :=
  CursorOp.of_ne hop (fun _ _ => rfl) (fun _ => rfl) (fun _ => rfl) rfl

/-- A size query that succeeds leaves the position that was reported last. -/
theorem querySize_position {buf size : Pos2d} {s s' : Screen} (h : querySize P t buf s = .ok (true, size, s')) :
    positionAsked P t s.render.cursorPos s.io = some s'.render.cursorPos := by
  have hfailed : ∀ {buf : Pos2d} {s₁ : Screen},
      (pure (false, buf, s₁) : Except Fault (Bool × Pos2d × Screen)) ≠ .ok (true, size, s') :=
    fun h => Bool.false_ne_true (Prod.mk.inj (Except.ok.inj h)).1
  unfold querySize at h
  unfold positionAsked
  generalize s.io.world.winsize = reply at h
  obtain ⟨_ | ⟨rows, cols⟩, world⟩ := reply
  · dsimp only at h ⊢
    obtain ⟨⟨saved, io₁⟩, hsaved, h⟩ := Run.bind_eq_ok.mp h
    rw [hsaved]
    cases saved with
    | none => exact absurd h hfailed
    | some savedPos =>
      obtain ⟨⟨moved, s₁⟩, -, h⟩ := Run.bind_eq_ok.mp h
      cases moved with
      | false => exact absurd h hfailed
      | true =>
        obtain ⟨⟨corner, io₂⟩, -, h⟩ := Run.bind_eq_ok.mp h
        cases corner with
        | none => exact absurd h hfailed
        | some corner =>
          obtain ⟨⟨moved, s₂⟩, hback, h⟩ := Run.bind_eq_ok.mp h
          cases moved with
          | false => exact absurd h hfailed
          | true =>
            obtain ⟨-, hrest⟩ := Prod.mk.inj (Except.ok.inj h)
            obtain ⟨-, rfl⟩ := Prod.mk.inj hrest
            -- the cursor is back where it was asked for
            rw [((moveCursor2d_ends (F := fun _ => True) P t savedPos _).of_ok hback).render]
            rfl
  · obtain ⟨-, hrest⟩ := Prod.mk.inj (Except.ok.inj h)
    obtain ⟨-, rfl⟩ := Prod.mk.inj hrest
    rfl

/-- Queries of position and size that succeed enter what they have found. -/
theorem requeried_of_queries {s s' : Screen} {io : Io} {cursorPos size : Pos2d}
    (hquery : queryCursor P t s.io = .ok (some cursorPos, io))
    (hsize : querySize P t s.render.termSize { render := { s.render with cursorPos }, io } =
      .ok (true, size, s')) :
    requeried P t s = some { position := s'.render.cursorPos, size, motions := [] } := by
  unfold requeried
  rw [hquery]
  dsimp only
  rw [hsize]
  dsimp only
  rw [querySize_position hsize]
  rfl

/-- A redraw that queries draws in the dimensions and from the position it has found. -/
theorem requery_requeried {s s' : Screen} (hsmart : s.render.termSmart = true)
    (hmode : s.render.echoMode ≠ .off) (hflag : s.render.resizeFlag = true)
    (hanswered : (requeried P t s).isSome = true) (h : requery P t s = .ok s') :
    ∃ found, requeried P t s = some found ∧ found.Agrees P s'.render := by
  unfold requery at h
  rw [if_pos (by simp [hsmart, hmode, hflag])] at h
  obtain ⟨⟨cursorPos, io⟩, hquery, h⟩ := Run.bind_eq_ok.mp h
  unfold requeried at hanswered
  rw [hquery] at hanswered
  cases cursorPos with
  | none => cases hanswered
  | some cursorPos =>
    obtain ⟨⟨done, termSize, s₁⟩, hsize, h⟩ := Run.bind_eq_ok.mp h
    dsimp only [Option.getD_some] at hsize hanswered
    rw [hsize] at hanswered
    obtain rfl := Except.ok.inj h
    cases done with
    | false => cases hanswered
    | true => exact ⟨_, requeried_of_queries hquery hsize, rfl, rfl⟩

/-- A session starts with what its queries have found. -/
theorem nrlRenderInit_requeried {mode : EchoMode} (hmode : mode ≠ .off) {echoFile : Int} {s s₀ : Screen}
    (hsmart : nrlTermIsSmart t = true) (h : nrlRenderInit P t mode echoFile s = .ok (true, s₀)) :
    ∃ found, requeried P t (s.opening t mode echoFile) = some found ∧ found.Agrees P s₀.render := by
  unfold nrlRenderInit at h
  dsimp only at h
  rw [if_pos (by simp [hsmart, hmode])] at h
  obtain ⟨⟨cursorPos, io⟩, hquery, h⟩ := Run.bind_eq_ok.mp h
  cases cursorPos with
  | none => cases h
  | some cursorPos =>
    obtain ⟨⟨done, termSize, s₁⟩, hsize, h⟩ := Run.bind_eq_ok.mp h
    obtain ⟨rfl, rfl⟩ := Prod.mk.inj (Except.ok.inj h)
    exact ⟨_, requeried_of_queries (s := s.opening t mode echoFile) hquery hsize, rfl, rfl⟩

/-- What a redraw has found is what its drawing is computed from. -/
theorem Noticed.redraw {n : Notices} {e : Editor} (h : Noticed P (n, e))
    (horderly : (Step.call (.edit .redraw)).Orderly P t (n, e)) {s : Screen}
    (hrequery : requery P t e.screen = .ok s) :
    ∃ found, (CursorOp.edit .redraw).found P t e n = some found ∧ found.Agrees P s.render := by
  show ∃ found, (if e.screen.render.resizeFlag then requeried P t e.screen else n.queried) = some found ∧ _
  cases hflag : e.screen.render.resizeFlag with
  | true =>
    rw [if_pos rfl]
    exact requery_requeried h.termSmart h.echoMode hflag (horderly hflag) hrequery
  | false =>
    obtain rfl := ((requery_ends (F := fun _ => True) P t e.screen).of_ok hrequery).same hflag
    have hpending : n.pending = false := by
      cases hp : n.pending with
      | false => rfl
      | true => exact absurd (hflag.symm.trans (h.pending hp)) Bool.false_ne_true
    rw [if_neg (by decide)]
    exact h.queried hpending

/-- What has been found before a call that addresses the cursor is what it computes with. -/
theorem Noticed.addressed {n : Notices} {e : Editor} (h : Noticed P (n, e)) {op : CursorOp}
    (horderly : (Step.call op).Orderly P t (n, e)) {s : Screen} (haddressed : op.addressed P t e = some s) :
    ∃ found, op.found P t e n = some found ∧ found.Agrees P s.render := by
  by_cases hredraw : op = .edit .redraw
  · subst hredraw
    exact h.redraw horderly (CursorOp.addressed_redraw P t haddressed)
  · rw [CursorOp.addressed_of_ne P t hredraw] at haddressed
    rw [CursorOp.found_of_ne hredraw]
    split at haddressed
    · rename_i hsyncs
      obtain rfl := Option.some.inj haddressed
      exact h.queried (Step.orderly_of_ne hredraw horderly hsyncs)
    · cases haddressed

/-- A call takes the books it computes with through its motions. -/
theorem Found.Agrees.perform {found : Found} {op : CursorOp} {e e' : Editor} {s : Screen}
    (h : found.Agrees P s.render) (hsmart : e.screen.render.termSmart = true)
    (hmode : e.screen.render.echoMode ≠ .off) (haddressed : op.addressed P t e = some s)
    (hperform : op.perform P t e = .ok e') : (found.follow (op.motions e.line)).Agrees P e'.screen.render := by
  cases CursorOp.perform_shown P t hperform with
  | same hop hsyncs _ =>
    rw [CursorOp.addressed_of_ne P t hop, hsyncs] at haddressed
    cases haddressed
  | synced hop hsyncs hsync hs =>
    rw [CursorOp.addressed_of_ne P t hop, hsyncs, if_pos rfl] at haddressed
    obtain rfl := Option.some.inj haddressed
    obtain ⟨e₁, hreaches, -, hout⟩ := hsync.reaches hmode
    obtain ⟨cursorPos, hrender⟩ := hreaches.movedTo
    have htakes := hreaches.takes e.line rfl rfl
    rw [hs, hout.render, hrender]
    rw [hrender] at htakes
    refine ⟨h.termSize, ?_⟩
    rw [Found.follow, CursorOp.motions_of_ne hop, hsyncs, if_pos rfl]
    exact h.cursorPos.append ⟨_, h.termSize ▸ htakes, rfl⟩
  | redrawn hredraw hredraws hs =>
    subst hredraw
    obtain ⟨s₁, e₁, hrequeries, hdraws, -, hrender, -⟩ := hredraws.behind hsmart hmode
    obtain rfl := Except.ok.inj (hrequeries.requery.symm.trans (CursorOp.addressed_redraw P t haddressed))
    obtain ⟨_, _, hrequeried⟩ := hrequeries.render
    have hsteps : s₁.render.echoMode = e.screen.render.echoMode := by rw [hrequeried]
    have hleads := hdraws.leads
    obtain ⟨_, _, _, hdrawn⟩ := hdraws.drawnTo
    have hmode' : e'.screen.render.echoMode = e.screen.render.echoMode := by
      rw [hs, hrender, hdrawn]
      exact hsteps
    have hsize' : e'.screen.render.termSize = s₁.render.termSize := by
      rw [hs, hrender, hdrawn]
    have hpos' : e'.screen.render.cursorPos = e₁.screen.render.cursorPos := by
      rw [hs, hrender]
    have hfirst := h.cursorPos
    rw [hsteps] at hfirst
    rw [h.termSize] at hleads
    refine ⟨hsize'.trans h.termSize, ?_⟩
    rw [hmode', hpos']
    exact hfirst.append hleads

/-- The step. -/
theorem Noticed.perform {step : Step} {s s' : Notices × Editor} (h : Noticed P s)
    (horderly : step.Orderly P t s) (hstep : step.performNoticed P t s = .ok s') : Noticed P s' := by
  obtain ⟨n, e⟩ := s
  obtain ⟨e', hperform, rfl⟩ := Run.map_eq_ok.mp hstep
  obtain ⟨hsmart, hmode⟩ := Step.perform_terminal P t hperform
  suffices hnotices :
      ((step.notices P t e n).pending = true → e'.screen.render.resizeFlag = true) ∧
        ((step.notices P t e n).pending = false →
          ∃ found, (step.notices P t e n).queried = some found ∧ found.Agrees P e'.screen.render) from
    ⟨hsmart.trans h.termSmart, hmode ▸ h.echoMode, hnotices.1, hnotices.2⟩
  cases step with
  | notify =>
    obtain rfl := Except.ok.inj hperform
    exact ⟨fun _ => rfl, fun hnone => absurd hnone.symm Bool.false_ne_true⟩
  | read root buffer =>
    obtain ⟨_, -, hperform⟩ := Run.bind_eq_ok.mp hperform
    obtain rfl := Except.ok.inj hperform
    exact ⟨h.pending, h.queried⟩
  | call op =>
    have hfollows : ∀ s, op.addressed P t e = some s →
        ∃ found, ((Step.call op).notices P t e n).queried = some found ∧ found.Agrees P e'.screen.render := by
      intro s haddressed
      obtain ⟨found, hfound, hagrees⟩ := h.addressed horderly haddressed
      refine ⟨found.follow (op.motions e.line), ?_, ?_⟩
      · rw [Step.notices_call, hfound]
        rfl
      · exact hagrees.perform h.termSmart h.echoMode haddressed hperform
    by_cases hop : op = .edit .redraw
    · subst hop
      obtain ⟨s, r, hrequeries, -⟩ := (nrlRenderRedraw_ok P t hperform).requeried
      refine ⟨fun hpending => absurd hpending Bool.false_ne_true, fun _ => hfollows s ?_⟩
      rw [CursorOp.addressed, hrequeries.requery]
      rfl
    · rw [Step.notices_pending hop]
      cases hsyncs : op.syncs e.line with
      | true =>
        obtain ⟨cursorPos, hrender⟩ := CursorOp.perform_movedTo P t hop hperform
        refine ⟨fun hset => ?_, fun _ => hfollows e.screen ?_⟩
        · rw [hrender]
          exact h.pending hset
        · rw [CursorOp.addressed_of_ne P t hop, hsyncs, if_pos rfl]
      | false =>
        -- a call that does not synchronise moves nothing
        have hsame : e'.screen = e.screen := (CursorOp.perform_quiet P t hop hsyncs).of_ok hperform
        rw [hsame]
        refine ⟨h.pending, fun hnone => ?_⟩
        obtain ⟨found, hfound, hagrees⟩ := h.queried hnone
        refine ⟨found, ?_, hagrees⟩
        rw [Step.notices_call, CursorOp.found_of_ne hop, hfound, CursorOp.motions_of_ne hop, hsyncs]
        simp [Found.follow]

end Notices

/-- **Coordinates are current.** If no cursor is synchronised between a notification and
the next redraw, and the queries of that redraw succeed, then every coordinate is
computed in the dimensions and from the position that were queried after the last
notification, the position moved only by what has been drawn since; and so are the books
from there on. -/
theorem addresses_current {P : Platform} {t : Terminfo} {mode : EchoMode} (hmode : mode ≠ .off)
    {echoFile : Int} {s s₀ : Screen} (hinit : nrlRenderInit P t mode echoFile s = .ok (true, s₀))
    (hsmart : nrlTermIsSmart t = true) {steps : List Step}
    (hsteps : Run.Guarded (Step.performNoticed P t) (Step.Orderly P t) steps
      (.atStart P t mode echoFile s, { line := emptyLine, screen := s₀ }))
    {n : Notices} {e : Editor} (hrun : Run.exec (Step.performNoticed P t) steps
      (.atStart P t mode echoFile s, { line := emptyLine, screen := s₀ }) = .ok (n, e))
    {op : CursorOp} (hop : (Step.call op).Orderly P t (n, e)) {s' : Screen}
    (haddressed : op.addressed P t e = some s') :
    ∃ found, op.found P t e n = some found ∧ found.Agrees P s'.render ∧
      ∀ e', op.perform P t e = .ok e' → (found.follow (op.motions e.line)).Agrees P e'.screen.render := by
  have hopens := nrlRenderInit_ok P t hinit
  have hstart : Noticed P (.atStart P t mode echoFile s, { line := emptyLine, screen := s₀ }) :=
    ⟨hopens.termSmart.trans hsmart, hopens.echoMode.symm ▸ hmode, nofun,
      fun _ => nrlRenderInit_requeried hmode hsmart hinit⟩
  have hnoticed : Noticed P (n, e) :=
    Run.exec_guarded (fun _ _ _ h horderly hstep => h.perform horderly hstep) hstart hsteps hrun
  obtain ⟨found, hfound, hagrees⟩ := hnoticed.addressed hop haddressed
  exact ⟨found, hfound, hagrees, fun e' hperform =>
    hagrees.perform hnoticed.termSmart hnoticed.echoMode haddressed hperform⟩

/-- An xterm that is made smaller. -/
def resizedScreen : Screen :=
  { xtermScreen with io := { xtermScreen.io with world := { xtermScreen.io.world with
    reads := [.data (ascii "\x1b[2;1R"), .data (ascii "\x1b[2;3R")]
    winsizes := [some (24, 80), some (10, 40)] } } }

def resizedStart : Notices := .atStart referencePlatform xtermTerminfo .on 1 resizedScreen

/-- Text and a redraw answer the notification. -/
def answeredSteps : List Step :=
  drawnA.map .call ++ [.notify, .call (.edit (.insert [98])), .call (.edit .redraw)]

/-- The position and dimensions that have been found behind these steps, and those the left key
would be computed from. -/
def leftKeyBooks (steps : List Step) : Except Fault (Option (Pos2d × Pos2d) × Option (Pos2d × Pos2d)) := do
  let (_, screen) ← nrlRenderInit referencePlatform xtermTerminfo .on 1 resizedScreen
  let (n, e) ← Run.exec (Step.performNoticed referencePlatform xtermTerminfo) steps
    (resizedStart, { line := emptyLine, screen })
  pure (n.queried.map fun found => (found.position, found.size),
    ((CursorOp.edit (.escape .keyLeft)).addressed referencePlatform xtermTerminfo e).map fun s =>
      (s.render.cursorPos, s.render.termSize))

/-- The second redraw has found the second row and the third column of the smaller terminal. -/
theorem addresses_current_xterm :
    ∃ s₀ n e s' found, nrlRenderInit referencePlatform xtermTerminfo .on 1 resizedScreen = .ok (true, s₀) ∧
      Run.exec (Step.performNoticed referencePlatform xtermTerminfo) answeredSteps
        (resizedStart, { line := emptyLine, screen := s₀ }) = .ok (n, e) ∧
      (CursorOp.edit (.escape .keyLeft)).addressed referencePlatform xtermTerminfo e = some s' ∧
      n.queried = some found ∧ found.position = { row := 1, col := 2 } ∧
      found.size = { row := 10, col := 40 } ∧ found.Agrees referencePlatform s'.render := by
  have hfacts : (nrlRenderInit referencePlatform xtermTerminfo .on 1 resizedScreen).map (fun r =>
      decide (r.1 = true ∧
        Run.Guarded (Step.performNoticed referencePlatform xtermTerminfo)
          (Step.Orderly referencePlatform xtermTerminfo) answeredSteps (resizedStart, ⟨emptyLine, r.2⟩) ∧
        (Run.exec (Step.performNoticed referencePlatform xtermTerminfo) answeredSteps
          (resizedStart, ⟨emptyLine, r.2⟩)).map (fun s => (s.1.pending,
            s.1.queried.map fun found => (found.position, found.size),
            ((CursorOp.edit (.escape .keyLeft)).addressed referencePlatform xtermTerminfo s.2).isSome)) =
          .ok (false, some ({ row := 1, col := 2 }, { row := 10, col := 40 }), true))) = .ok true := by
    decide +kernel
  obtain ⟨⟨done, s₀⟩, hinit, hfacts⟩ := Run.map_eq_ok.mp hfacts
  obtain ⟨rfl, hsteps, hbehind⟩ := of_decide_eq_true hfacts
  obtain ⟨⟨n, e⟩, hrun, hbehind⟩ := Run.map_eq_ok.mp hbehind
  obtain ⟨hpending, hbehind⟩ := Prod.mk.inj hbehind
  obtain ⟨hqueried, haddressed⟩ := Prod.mk.inj hbehind
  obtain ⟨s', haddressed⟩ := Option.isSome_iff_exists.mp haddressed
  have horderly : (Step.call (.edit (.escape .keyLeft))).Orderly referencePlatform xtermTerminfo
      (n, e) := fun _ => hpending
  obtain ⟨found, hfound, hagrees, -⟩ := addresses_current (by decide) hinit (by decide) hsteps hrun horderly
    haddressed
  have hfound : n.queried = some found := hfound
  rw [hfound] at hqueried
  obtain ⟨hposition, hsize⟩ := Prod.mk.inj (Option.some.inj hqueried)
  exact ⟨s₀, n, e, s', found, hinit, hrun, haddressed, hfound, hposition, hsize, hagrees⟩

/-- The left key does not wait for a redraw: it is computed from the old position, in the old
dimensions. -/
theorem leftKey_notified : leftKeyBooks (drawnA.map .call ++ [.notify]) =
    .ok (none, some ({ row := 1, col := 1 }, { row := 24, col := 80 })) := by
  decide +kernel

end Nanorl
