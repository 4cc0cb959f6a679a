import Nanorl.Sound.Cursor
import Nanorl.Sound.Echo
import Nanorl.Sound.Emulator

/-!
# Nanorl.Sound.Display

What the terminal shows.

Between two calls the screen of an emulator that reads the echo file shows the line as it
was drawn last, from the line's first cell on, and nothing behind it (`Frame.Shows`). A
redraw sends an absolute address first, so where moves of the
cursor have left it in between does not matter, and where the text ends in the last
cell of the screen the line feed of `handle_scroll` makes room for the cursor
(`screen_shows`).
-/

namespace Nanorl

section Calls

variable {α : Type} {E : Emulator α} {P : Platform} {t : Terminfo}

/-! ### Moves -/

/-- The terminal has been sent to `location`, and nothing is left in the buffer. -/
structure Screen.SendsTo (E : Emulator α) (location : Pos2d) (s s' : Screen) : Prop where
  render : s'.render = { s.render with cursorPos := location }
  sends : ∃ moveCmd, s.io.Sends moveCmd s'.io ∧ E.Conveys moveCmd (·.address location.row location.col)
  wrCount : s'.io.wrCount = 0

/-- Counted from one, the coordinates are numbers of 32 bits. -/
def Pos2d.Sendable (location : Pos2d) : Prop := location.row + 1 < 2 ^ 31 ∧ location.col + 1 < 2 ^ 31

theorem moveCursor2d_sends (hE : E.Understands P t) {location : Pos2d} (hlocation : location.Sendable)
    {s : Screen} (h : s.io.Echoing) :
    ∃ s', moveCursor2d P t location s = .ok (true, s') ∧ s.SendsTo E location s' := by
  obtain ⟨hrow, hcol⟩ := hlocation
  obtain ⟨format, moveCmd, hlookup, hformat, hlen, hconveys⟩ := hE.address hrow hcol
  obtain ⟨io₁, hwrite, hsends₁⟩ := nrlIoWrite_sends P h (.inr hlen : _ ∨ moveCmd.length + _ < _)
  obtain ⟨io₂, hflush, hsends₂, hzero⟩ := nrlIoFlush_sends P (hsends₁.echoing h)
  refine ⟨{ s with io := io₂, render := { s.render with cursorPos := location } }, ?_, rfl,
    ⟨moveCmd, ?_, hconveys⟩, hzero⟩
  · rw [moveCursor2d, hlookup]
    dsimp only
    rw [int32_of_lt (by omega) (by omega), int32_of_lt (by omega) (by omega), hformat, Run.ok_bind]
    dsimp only
    rw [hwrite, Run.ok_bind]
    dsimp only
    rw [if_pos rfl, hflush]
    rfl
  · have hsends := hsends₁.trans hsends₂
    rwa [List.append_nil] at hsends

/-- With columns every offset leads somewhere, and to where it should unless that is
above the screen. -/
theorem linearOffsetTo2d_total (origin : Pos2d) {size : Pos2d} (hcols : 0 < size.col) {pos width : Int}
    (hpos : int32 pos = int32 width)
    (hle : -2 ^ 31 ≤ (origin.row * size.col + origin.col : Int) + width)
    (hlt : (origin.row * size.col + origin.col : Int) + width + 1 < 2 ^ 31) :
    ∃ location, linearOffsetTo2d size origin pos = .ok location ∧ location.Sendable ∧
      location.col < size.col ∧
      (0 ≤ (origin.row * size.col + origin.col : Int) + width →
        (location.row * size.col + location.col : Int) =
          (origin.row * size.col + origin.col : Int) + width) := by
  unfold linearOffsetTo2d
  generalize hlinear : (origin.row * size.col + origin.col : Int) = linear at *
  have hsum : int32 (int32 linear + pos) = linear + width := by
    rw [int32_add, Int.add_comm, ← int32_add, hpos, int32_add, Int.add_comm]
    exact int32_of_lt hle (by omega)
  dsimp only
  rw [hsum]
  by_cases hneg : linear + width < 0
  · rw [if_pos hneg]
    exact ⟨_, rfl, ⟨by decide, by decide⟩, hcols, fun hnonneg => absurd hneg (Int.not_lt.mpr hnonneg)⟩
  · rw [if_neg hneg, if_neg (Nat.ne_of_gt hcols)]
    obtain ⟨n, hn⟩ := Int.eq_ofNat_of_zero_le (Int.not_lt.mp hneg)
    rw [hn] at hlt ⊢
    rw [Int.toNat_natCast]
    have hrow : n / size.col ≤ n := Nat.div_le_self _ _
    have hcol : n % size.col ≤ n := Nat.mod_le _ _
    refine ⟨_, rfl, ⟨?_, ?_⟩, Nat.mod_lt _ hcols, fun _ => ?_⟩
    · dsimp only
      omega
    · dsimp only
      omega
    · exact_mod_cast Nat.div_add_mod' n size.col

/-- The render cursor gets to its destination over characters that have a width. -/
theorem modeSteps_total {mode : EchoMode} {line : LineData} {k pos : Nat}
    (hlen : k ≤ line.buffer.length) (hsmall : line.buffer.length < 2 ^ 31)
    (hwidths : ∀ c ∈ line.buffer.take k, 0 ≤ cellWidth P mode c) (hrc : line.renderCursor ≤ k)
    (hpos : pos ≤ k) : ∃ r, modeSteps P mode pos line = .ok r := by
  cases mode with
  | off => exact ⟨_, rfl⟩
  | obscured => exact ⟨_, rfl⟩
  | on =>
    cases hsteps : modeSteps P .on pos line with
    | ok r => exact ⟨r, rfl⟩
    | error fault =>
      obtain ⟨-, c, hc, hwidth⟩ := (modeSteps_within hlen (by omega) (by omega) hrc hpos).of_error hsteps
      have hnonneg : 0 ≤ P.ucwidth c := hwidths c hc
      omega

/-- Both ways of moving send one address. -/
theorem moveByMode_sends (hE : E.Understands P t) {e : Editor} {mode : EchoMode}
    (hmode : e.screen.render.echoMode = mode) (hvisible : mode ≠ .off) (h : e.screen.io.Echoing)
    {pos renderCursor : Nat} {moveWidth : Int}
    (hsteps : modeSteps P mode pos e.line = .ok (renderCursor, moveWidth)) {location : Pos2d}
    (hlocation : linearOffsetTo2d e.screen.render.termSize e.screen.render.cursorPos moveWidth =
      .ok location) (hsendable : location.Sendable) :
    ∃ s', moveByMode P t pos e = .ok { line := { e.line with renderCursor }, screen := s' } ∧
      e.screen.SendsTo E location s' := by
  obtain ⟨s', hmove, hsends⟩ := moveCursor2d_sends hE hsendable h
  refine ⟨s', ?_, hsends⟩
  rw [moveByMode, hmode]
  cases mode with
  | off => exact absurd rfl hvisible
  | on =>
    dsimp only
    rw [moveToPosNormal, show stepCursor _ _ _ _ _ _ _ = _ from hsteps, Run.ok_bind]
    dsimp only
    rw [hlocation, Run.ok_bind, hmove]
    rfl
  | obscured =>
    obtain ⟨rfl, rfl⟩ := Prod.mk.inj (Except.ok.inj hsteps)
    dsimp only
    rw [moveToPosObscured]
    dsimp only
    rw [hlocation, Run.ok_bind, hmove]
    rfl

theorem textWidth_unit {mode : EchoMode} {text : List Uchar} (h : ∀ c ∈ text, cellWidth P mode c = 1) :
    textWidth P mode text = text.length := by
  induction text with
  | nil => rfl
  | cons c text ih =>
    rw [List.forall_mem_cons] at h
    have hrest := ih h.2
    unfold textWidth at hrest ⊢
    rw [List.map_cons, List.sum_cons, h.1, hrest, List.length_cons]
    omega

/-- What `redraw` takes for the width of such a text is its length, and never the error value. -/
theorem drawnWidth_unit (hwidth : P.WidthLaw) {mode : EchoMode} (hmode : mode ≠ .off) {text : List Uchar}
    (h : ∀ c ∈ text, cellWidth P mode c = 1) : drawnWidth P mode text = text.length := by
  have hnonneg : ∀ c ∈ text, 0 ≤ cellWidth P mode c := by
    intro c hc
    rw [h c hc]
    decide
  rw [drawnWidth_eq hwidth hmode hnonneg, textWidth_unit h]

/-- In the books the cursor goes to `pos`, over the first `k` characters of the buffer; the
terminal is sent there as long as that is not above the screen. -/
theorem Frame.Placed.moves {f : Frame} (hE : E.Understands P t) {e : Editor}
    (h : f.Placed P (e.line.buffer.take e.line.renderCursor) e.screen) (hecho : e.screen.io.Echoing)
    (k pos : Nat) (hlen : k ≤ e.line.buffer.length) (hsmall : e.line.buffer.length < 2 ^ 31)
    (hwidths : ∀ c ∈ e.line.buffer.take k, cellWidth P f.mode c = 1) (hrc : e.line.renderCursor ≤ k)
    (hpos : pos ≤ k) (hle : -2 ^ 31 ≤ f.firstCell e.screen + pos)
    (hlt : f.firstCell e.screen + pos + 1 < 2 ^ 31) :
    ∃ location s', moveByMode P t pos e =
        .ok { line := { e.line with renderCursor := pos }, screen := s' } ∧
      e.screen.SendsTo E location s' ∧ location.col < f.size.col ∧
      (0 ≤ f.firstCell e.screen + pos →
        (location.row * f.size.col + location.col : Int) = f.firstCell e.screen + pos ∧
          f.Placed P (e.line.buffer.take pos) s') := by
  have hunit : ∀ n ≤ k, textWidth P f.mode (e.line.buffer.take n) = n := by
    intro n hn
    have hpart : ∀ c ∈ e.line.buffer.take n, cellWidth P f.mode c = 1 := fun c hc =>
      hwidths c ((List.take_subset_take_left _ hn) hc)
    rw [textWidth_unit hpart, List.length_take_of_le (hn.trans hlen)]
  have hnonneg : ∀ c ∈ e.line.buffer.take k, 0 ≤ cellWidth P f.mode c := by
    intro c hc
    rw [hwidths c hc]
    decide
  obtain ⟨⟨renderCursor, moveWidth⟩, hsteps⟩ := modeSteps_total hlen hsmall hnonneg hrc hpos
  obtain ⟨rfl, rfl⟩ := modeSteps_ok f.visible (by omega) (hrc.trans hlen) (hpos.trans hlen) hsteps
  have hlinear := h.linear
  rw [Render.linear, h.termSize, hunit _ hrc] at hlinear
  rw [hunit _ hpos, hunit _ hrc] at hsteps
  obtain ⟨location, hlocation, hsendable, hcol, hto⟩ := linearOffsetTo2d_total
    e.screen.render.cursorPos f.cols_pos (int32_int32 ((renderCursor : Int) - e.line.renderCursor))
    (by omega) (by omega)
  rw [← h.termSize] at hlocation
  obtain ⟨s', hmove, hsends⟩ := moveByMode_sends hE h.echoMode f.visible hecho hsteps hlocation hsendable
  refine ⟨location, s', hmove, hsends, hcol, fun hnonneg => ?_⟩
  have hat := (hto (by omega)).trans (by omega : _ = f.firstCell e.screen + renderCursor)
  obtain ⟨moveCmd, hcmd, -⟩ := hsends.sends
  refine ⟨hat, h.shifted hsends.render hcmd.complete ?_⟩
  rw [hunit _ hpos]
  exact hat

/-! ### Drawing -/

/-- What the screen shows of a line. -/
def Emulator.shown (E : Emulator α) (mode : EchoMode) (line : List Uchar) : List α :=
  match mode with
  | .on => line.map E.glyph
  | .obscured => line.map fun _ => E.glyph 42
  | .off => []

theorem onceEach_conveys (hE : E.Understands P t) (hencode : P.EncodeEachLaw) (hnul : P.NulLaw)
    {mode : EchoMode} {line : List Uchar} (hwidths : ∀ c ∈ line, cellWidth P mode c = 1) :
    E.Conveys (onceEach P mode line) (·.prints (E.shown mode line)) := by
  cases mode with
  | off => exact .nil
  | on =>
    have hzero : 0 ∉ line := by
      intro hmem
      have hwidth : P.ucwidth 0 = 1 := hwidths 0 hmem
      rw [show P.ucwidth 0 = 0 from hnul] at hwidth
      cases hwidth
    rw [onceEach, ← cstr_terminated, cstr_append hzero, hencode]
    exact .prints fun c hc => hE.character (hwidths c hc)
  | obscured =>
    have hstars : List.replicate line.length (42 : Byte) = line.flatMap fun _ => [42] := by
      rw [← List.map_const', List.map_eq_flatMap]
    rw [onceEach, hstars]
    exact .prints fun _ _ => hE.asterisk

theorem spaces_convey (hE : E.Understands P t) (count : Nat) :
    E.Conveys (List.replicate count 32) fun T => T.prints (List.replicate count T.blank) := by
  induction count with
  | zero => exact .nil
  | succ count ih =>
    intro s T hs
    have hsize := T.sameSize_print T.blank
    have hrest := (hE.space.append ih) s T hs
    rw [Function.comp_apply, hsize.blank] at hrest
    exact hrest

/-- The text ends in the last cell of the screen or behind it, at the beginning of a row. -/
def Pos2d.Forces (size location : Pos2d) : Prop := size.row ≤ location.row ∧ location.col = 0

instance (size location : Pos2d) : Decidable (size.Forces location) :=
  inferInstanceAs (Decidable (_ ∧ _))

/-- The line feed of `handle_scroll`. -/
def feedBytes (size location : Pos2d) : List Byte := if size.Forces location then [10] else []

theorem feed_conveys (hE : E.Understands P t) (size location : Pos2d) :
    E.Conveys (feedBytes size location) fun T => if size.Forces location then T.lineFeed else T := by
  unfold feedBytes
  split
  · exact hE.lineFeed
  · exact .nil

theorem handleScroll_sends {s : Screen} (h : s.io.Echoing) (hrow : s.render.cursorPos.row + 1 < 2 ^ 31)
    (hrows : s.render.termSize.row < 2 ^ 31) :
    ∃ s', handleScroll P s = .ok s' ∧ s'.render = s.render.scrolledUp ∧
      s.io.Sends (feedBytes s.render.termSize s.render.cursorPos) s'.io := by
  unfold handleScroll Render.scrolledUp feedBytes
  rw [int32_of_lt (by omega) (by omega)]
  dsimp only
  by_cases hscroll : (s.render.cursorPos.row : Int) - s.render.termSize.row + 1 ≤ 0
  · have hnone : ¬ s.render.termSize.Forces s.render.cursorPos := fun hforces => by
      have := hforces.1
      omega
    rw [if_pos hscroll, if_pos hscroll, if_neg hnone]
    exact ⟨s, rfl, rfl, h.sends_nil⟩
  · rw [if_neg hscroll, if_neg hscroll]
    unfold forceScroll
    by_cases hcol : s.render.cursorPos.col = 0
    · obtain ⟨s₁, hwrite, hsends₁⟩ := s.write_sends P h
        (.inr (by simp [ioBufSize]) : _ ∨ [(10 : Byte)].length + _ < _)
      obtain ⟨s₂, hflush, hsends₂, -⟩ := s₁.flush_sends P (hsends₁.io.echoing h)
      have hsends := hsends₁.trans hsends₂
      rw [List.append_nil] at hsends
      have hforces : s.render.termSize.Forces s.render.cursorPos := ⟨by omega, hcol⟩
      rw [if_pos hcol, if_pos hforces, hwrite, Run.ok_bind, hflush]
      refine ⟨_, rfl, ?_, hsends.io⟩
      dsimp only
      rw [hsends.render]
    · rw [if_neg hcol, if_neg fun hforces => hcol hforces.2]
      exact ⟨_, rfl, rfl, h.sends_nil⟩

/-- How far `handle_scroll` scrolls. -/
theorem Render.scrolledUp_scrolled (r : Render) (hrow : r.cursorPos.row + 1 < 2 ^ 31)
    (hrows : r.termSize.row < 2 ^ 31) :
    r.scrolledUp.scrolled = r.scrolled + (r.cursorPos.row + 1 - r.termSize.row) := by
  unfold Render.scrolledUp
  rw [int32_of_lt (by omega) (by omega)]
  dsimp only
  split
  · omega
  · dsimp only
    omega

/-- The text is behind the cursor now: a line feed if it has to be, and blanks over the rest
of a longer line. -/
theorem afterDrawing_sends {s : Screen} (h : s.io.Echoing) {width : Int} {count : Nat}
    {location : Pos2d}
    (hlocation : linearOffsetTo2d s.render.termSize s.render.cursorPos width = .ok location)
    (hrow : location.row + 1 < 2 ^ 31) (hrows : s.render.termSize.row < 2 ^ 31)
    (hlast : s.render.lastRenderedWidth < 2 ^ 31) (hcount : count < 2 ^ 31) :
    ∃ s', afterDrawing P width count s = .ok s' ∧
      s'.render = { ({ s.render with cursorPos := location } : Render).scrolledUp with
        lastRenderedWidth := uint32 width } ∧
      s.io.Sends (feedBytes s.render.termSize location ++
        List.replicate (s.render.lastRenderedWidth - count) 32) s'.io := by
  obtain ⟨s₁, hscroll, hrender, hsends₁⟩ := handleScroll_sends (P := P)
    (s := { s with render := { s.render with cursorPos := location } }) h hrow hrows
  have hkept : s₁.render.lastRenderedWidth = s.render.lastRenderedWidth := by
    rw [hrender]
    unfold Render.scrolledUp
    dsimp only
    split <;> rfl
  have herase : (int32 (int32 s₁.render.lastRenderedWidth - count)).toNat =
      s.render.lastRenderedWidth - count := by
    have hwidth : int32 s.render.lastRenderedWidth = s.render.lastRenderedWidth :=
      int32_of_lt (by omega) (by omega)
    rw [hkept, hwidth, int32_of_lt (by omega) (by omega)]
    omega
  obtain ⟨s₂, hwrite, hsends₂⟩ :=
    s₁.writeTimes_sends P 32 (s.render.lastRenderedWidth - count) (hsends₁.echoing h)
  refine ⟨{ s₂ with render := { s₂.render with lastRenderedWidth := uint32 width } }, ?_, ?_,
    hsends₁.trans hsends₂.io⟩
  · rw [afterDrawing, hlocation, Run.ok_bind, hscroll, Run.ok_bind, eraseRest]
    dsimp only
    rw [herase, hwrite]
    rfl
  · dsimp only
    rw [hsends₂.render, hrender]

/-- The text of a redraw, by echo mode. -/
def drawText (P : Platform) (mode : EchoMode) (line : List Uchar) (s : Screen) : Except Fault Screen :=
  match mode with
  | .on => s.write P (P.utf8Encode (cstr line))
  | .obscured => s.writeTimes P 42 line.length
  | .off => .ok s

theorem drawText_sends (mode : EchoMode) (line : List Uchar) {s : Screen} (h : s.io.Echoing)
    (hzero : s.io.wrCount = 0) :
    ∃ s', drawText P mode line s = .ok s' ∧ s.Sends (onceEach P mode line) s' := by
  cases mode with
  | off => exact ⟨s, rfl, rfl, h.sends_nil⟩
  | on => exact s.write_sends P h (.inl hzero)
  | obscured => exact s.writeTimes_sends P 42 line.length h

/-- A redraw on a smart terminal, step by step. -/
theorem redrawByMode_eq {mode : EchoMode} (hvisible : mode ≠ .off) {e e' : Editor} {line : List Uchar}
    {s₁ s₂ s₃ : Screen} (hbuffer : e.line.buffer = line ++ [0])
    (hsmart : e.screen.render.termSmart = true) (hmode : e.screen.render.echoMode = mode)
    (hstart : moveByMode P t 0 e = .ok { line := { e.line with renderCursor := 0 }, screen := s₁ })
    (hdraw : drawText P mode line s₁ = .ok s₂) (hwidth : drawnWidth P mode line ≠ -1)
    (hafter : afterDrawing P (drawnWidth P mode line) line.length s₂ = .ok s₃)
    (hmode₃ : s₃.render.echoMode = mode)
    (hend : moveByMode P t e.line.cursor
      { line := { e.line with renderCursor := line.length }, screen := s₃ } = .ok e') :
    redrawByMode P t e = .ok e' := by
  have hcount : e.line.buffer.length - 1 = line.length := by simp [hbuffer]
  rw [moveByMode, hmode] at hstart
  rw [moveByMode, hmode₃] at hend
  rw [redrawByMode, hmode]
  cases mode with
  | off => exact absurd rfl hvisible
  | on =>
    have htake : e.line.buffer.take line.length = line := by simp [hbuffer]
    dsimp only at hstart hend ⊢
    rw [redrawNormal, if_neg (by simp [hsmart]), hstart, Run.ok_bind]
    dsimp only
    rw [hcount, htake, hbuffer, cstr_terminated, show s₁.write P _ = _ from hdraw, Run.ok_bind,
      P.assert_of _ (decide_eq_true (show P.ucswidth line ≠ -1 from hwidth)), Run.ok_bind,
      show afterDrawing P (P.ucswidth line) _ _ = _ from hafter, ← hbuffer]
    exact hend
  | obscured =>
    dsimp only at hstart hend ⊢
    rw [redrawObscured]
    dsimp only
    rw [if_neg (by simp [hsmart]), hstart, Run.ok_bind, hcount,
      show s₁.writeTimes P _ _ = _ from hdraw, Run.ok_bind,
      show afterDrawing P (line.length : Int) _ _ = _ from hafter, Run.ok_bind]
    exact hend

/-! ### Redraws -/

namespace Frame

variable {f : Frame}

/-- The line takes one cell a character, from a first cell on the screen on, and the
coordinates of its cells are numbers also when they are counted from one. -/
structure Lies (f : Frame) (P : Platform) (e : Editor) : Prop where
  widths : ∀ c ∈ e.line.buffer, cellWidth P f.mode c = 1
  top : 0 ≤ f.firstCell e.screen
  bottom : f.firstCell e.screen + e.line.buffer.length + 1 < 2 ^ 31

instance (e : Editor) : Decidable (f.Lies P e) :=
  decidable_of_iff ((e.line.buffer.all fun c => decide (cellWidth P f.mode c = 1)) = true ∧
      0 ≤ f.firstCell e.screen ∧ f.firstCell e.screen + e.line.buffer.length + 1 < 2 ^ 31)
    ⟨fun ⟨hwidths, htop, hbottom⟩ => ⟨by simpa using hwidths, htop, hbottom⟩,
      fun h => ⟨by simpa using h.widths, h.top, h.bottom⟩⟩

theorem Lies.fits {e : Editor} (h : f.Lies P e) : f.Fits P e := by
  have htop := h.top
  have hbottom := h.bottom
  refine ⟨fun c hc => by rw [h.widths c hc]; decide, by omega, htop, ?_⟩
  rw [textWidth_unit h.widths]
  omega

/-- The drawing of a text behind the first cell, with the place behind the text before the
screen scrolls. -/
structure Drawing (f : Frame) (P : Platform) (text : List Uchar) (stop : Pos2d) (s s' : Screen) :
    Prop where
  placed : f.Placed P text s'
  width : s'.render.lastRenderedWidth = text.length
  scrolled : s'.render.scrolled = s.render.scrolled + (stop.row + 1 - f.size.row)
  col : stop.col < f.size.col
  linear : (stop.row * f.size.col + stop.col : Int) = f.firstCell s + text.length
  sends : s.io.Sends (onceEach P f.mode text ++ (feedBytes f.size stop ++
    List.replicate (s.render.lastRenderedWidth - text.length) 32)) s'.io

theorem Placed.drawing (hwidth : P.WidthLaw) {s : Screen} (h : f.Placed P [] s)
    (hecho : s.io.Echoing) (hzero : s.io.wrCount = 0) {text : List Uchar}
    (hunit : ∀ c ∈ text, cellWidth P f.mode c = 1) (htop : 0 ≤ f.firstCell s)
    (hbottom : f.firstCell s + text.length + 1 < 2 ^ 31) (hlast : s.render.lastRenderedWidth < 2 ^ 31) :
    ∃ s₁ s' stop, drawText P f.mode text s = .ok s₁ ∧
      afterDrawing P (drawnWidth P f.mode text) text.length s₁ = .ok s' ∧ f.Drawing P text stop s s' := by
  have hdrawn := drawnWidth_unit hwidth f.visible hunit
  obtain ⟨s₁, hdraw, hsends₁⟩ := drawText_sends (P := P) f.mode text hecho hzero
  have hplaced₁ := h.of_render hsends₁.render hsends₁.io.complete
  have hfirst : f.firstCell s₁ = f.firstCell s := by rw [firstCell, hsends₁.render, firstCell]
  have hlinear := hplaced₁.linear
  rw [Render.linear, hplaced₁.termSize, textWidth_nil, Int.add_zero, hfirst] at hlinear
  obtain ⟨stop, hstop, hsendable, hcol, hto⟩ := linearOffsetTo2d_total
    s₁.render.cursorPos f.cols_pos (rfl : int32 (text.length : Int) = _) (by omega) (by omega)
  rw [← hplaced₁.termSize, ← hdrawn] at hstop
  have hrows : s₁.render.termSize.row < 2 ^ 31 := hplaced₁.termSize ▸ f.rows_lt
  obtain ⟨s', hafter, hrender, hsends⟩ := afterDrawing_sends (P := P) (hsends₁.io.echoing hecho) hstop
    hsendable.1 hrows (by rw [hsends₁.render]; exact hlast) (by omega : text.length < 2 ^ 31)
  refine ⟨s₁, s', stop, hdraw, hafter, ?_, ?_, ?_, hcol, ?_, ?_⟩
  · refine (hplaced₁.draws ?_ ?_ ?_ ?_).1
    · rw [textWidth_unit hunit]
      omega
    · rwa [hfirst]
    · rw [hfirst, textWidth_unit hunit]
      omega
    · rw [textWidth_unit hunit, ← hdrawn]
      exact (afterDrawing_ends (F := fun _ => True) P _ _ s₁ fun _ => trivial).of_ok hafter
  · rw [hrender, hdrawn]
    dsimp only
    unfold uint32
    omega
  · rw [hrender, ← hsends₁.render, ← hplaced₁.termSize]
    exact Render.scrolledUp_scrolled { s₁.render with cursorPos := stop } hsendable.1 hrows
  · exact (hto (by omega)).trans (congrArg (· + (text.length : Int)) hlinear)
  · rw [hplaced₁.termSize, hsends₁.render] at hsends
    exact hsends₁.io.trans hsends

/-- The commands of a redraw: to the first cell, over the text, below the screen if it ends
there, over the rest of the line before, and to the cursor. -/
def draw (f : Frame) (text : List α) (rest : Nat) (first stop last : Pos2d) (T : Terminal α) : Terminal α :=
  let T := (T.address first.row first.col).prints text
  let T := if f.size.Forces stop then T.lineFeed else T
  (T.prints (List.replicate rest T.blank)).address last.row last.col

/-- A redraw, with the places of the first cell, of the cell behind the text before the screen
scrolls, and of the cursor. -/
structure Redrawing (f : Frame) (P : Platform) (E : Emulator α) (e e' : Editor)
    (first stop last : Pos2d) : Prop where
  width : e'.screen.render.lastRenderedWidth = e.line.buffer.length
  scrolled : e'.screen.render.scrolled = e.screen.render.scrolled + (stop.row + 1 - f.size.row)
  first_col : first.col < f.size.col
  first_linear : (first.row * f.size.col + first.col : Int) = f.firstCell e.screen
  stop_col : stop.col < f.size.col
  stop_linear : (stop.row * f.size.col + stop.col : Int) = f.firstCell e.screen + e.line.buffer.length
  last_col : last.col < f.size.col
  last_linear : 0 ≤ f.firstCell e'.screen → (last.row * f.size.col + last.col : Int) =
    f.firstCell e'.screen + e.line.cursor
  sends : ∃ bytes, e.screen.io.Sends bytes e'.screen.io ∧
    E.Conveys bytes (f.draw (E.shown f.mode e.line.buffer)
      (e.screen.render.lastRenderedWidth - e.line.buffer.length) first stop last)
  wrCount : e'.screen.io.wrCount = 0

/-- The bytes of a redraw are its commands. -/
theorem draw_conveys (hE : E.Understands P t) (hencode : P.EncodeEachLaw) (hnul : P.NulLaw)
    {text : List Uchar} (hunit : ∀ c ∈ text, cellWidth P f.mode c = 1) {rest : Nat}
    {first stop last : Pos2d} {moveCmd moveCmd' : List Byte}
    (hfirst : E.Conveys moveCmd (·.address first.row first.col))
    (hlast : E.Conveys moveCmd' (·.address last.row last.col)) :
    E.Conveys (moveCmd ++ (onceEach P f.mode text ++ (feedBytes f.size stop ++ List.replicate rest 32)) ++
      moveCmd') (f.draw (E.shown f.mode text) rest first stop last) :=
  (hfirst.append ((onceEach_conveys hE hencode hnul hunit).append
    ((feed_conveys hE f.size stop).append (spaces_convey hE rest)))).append hlast

/-- A redraw is over when its last bytes are flushed. -/
theorem Redrawing.flushed {e e' : Editor} {first stop last : Pos2d} {resizeFlag : Bool}
    (h : f.Redrawing P E e e' first stop last) {s : Screen} (hzero : s.io.wrCount = 0)
    (hsends : { e'.screen with render := { e'.screen.render with resizeFlag } }.Sends [] s) :
    f.Redrawing P E e { e' with screen := s } first stop last := by
  have hfirst : f.firstCell s = f.firstCell e'.screen := by rw [firstCell, hsends.render, firstCell]
  obtain ⟨bytes, hbytes, hconveys⟩ := h.sends
  refine ⟨?_, ?_, h.first_col, h.first_linear, h.stop_col, h.stop_linear, h.last_col, ?_, ⟨bytes, ?_, hconveys⟩,
    hzero⟩
  · rw [hsends.render]
    exact h.width
  · rw [hsends.render]
    exact h.scrolled
  · rw [hfirst]
    exact h.last_linear
  · have hboth := hbytes.trans hsends.io
    rwa [List.append_nil] at hboth

/-- The redraw of the line, which ends in a terminator meanwhile. -/
theorem Books.redrawByMode_sends (hE : E.Understands P t) (hencode : P.EncodeEachLaw) (hnul : P.NulLaw)
    (hwidth : P.WidthLaw) {text : List Uchar} {cursor renderCursor : Nat} {dirty : Bool} {screen : Screen}
    (h : f.Books P ⟨⟨text, cursor, renderCursor, dirty⟩, screen⟩)
    (hlies : f.Lies P ⟨⟨text, cursor, renderCursor, dirty⟩, screen⟩) (hecho : screen.io.Echoing)
    (hlast : screen.render.lastRenderedWidth < 2 ^ 31) :
    ∃ s' first stop last,
      redrawByMode P t ⟨⟨text ++ [0], cursor, renderCursor, dirty⟩, screen⟩ =
        .ok ⟨⟨text ++ [0], cursor, cursor, dirty⟩, s'⟩ ∧
      s'.io.Echoing ∧
      f.Redrawing P E ⟨⟨text, cursor, renderCursor, dirty⟩, screen⟩ ⟨⟨text, cursor, cursor, false⟩, s'⟩
        first stop last := by
  obtain ⟨hunit, htop, hbottom⟩ := hlies
  have hrc := h.renderCursor_le
  have hcursor := h.cursor_le
  have hplaced := h.placed
  dsimp only at hunit htop hbottom hrc hcursor hplaced
  have htake : ∀ n ≤ text.length, (text ++ [0]).take n = text.take n :=
    fun n hn => List.take_append_of_le_length hn
  have hunit' : ∀ c ∈ (text ++ [0]).take text.length, cellWidth P f.mode c = 1 := by
    rwa [htake _ (Nat.le_refl _), List.take_length]
  have hsmall : (text ++ [0]).length < 2 ^ 31 := by
    rw [List.length_append, List.length_singleton]
    omega
  -- to the first cell
  rw [← htake _ (hrc.trans hcursor)] at hplaced
  obtain ⟨first, s₁, hstart, hto₁, hcol₁, hat₁⟩ := Placed.moves hE
    (e := { line := { buffer := text ++ [0], cursor, renderCursor, dirty }, screen }) hplaced hecho
    text.length 0 (by simp) hsmall hunit' (hrc.trans hcursor) (Nat.zero_le _)
    (by simp; omega) (by simp; omega)
  simp only [List.take_zero, Nat.cast_zero, Int.add_zero] at hat₁
  obtain ⟨hlinear₁, hplaced₁⟩ := hat₁ htop
  obtain ⟨moveCmd₁, hsends₁, hconveys₁⟩ := hto₁.sends
  have hecho₁ := hsends₁.echoing hecho
  have hfirst₁ : f.firstCell s₁ = f.firstCell screen := by rw [firstCell, hto₁.render, firstCell]
  -- over the text
  obtain ⟨s₂, s₃, stop, hdraw, hafter, hdrawing⟩ := hplaced₁.drawing hwidth hecho₁ hto₁.wrCount hunit
    (hfirst₁ ▸ htop) (hfirst₁ ▸ hbottom) (by rw [hto₁.render]; exact hlast)
  obtain ⟨hplaced₃, hwidth₃, hscrolled₃, hcol₃, hlinear₃, hsends₃⟩ := hdrawing
  rw [hfirst₁] at hlinear₃
  rw [hto₁.render] at hscrolled₃ hsends₃
  have hecho₃ := hsends₃.echoing hecho₁
  have hup : f.firstCell s₃ ≤ f.firstCell screen :=
    firstCell_le (by rw [hscrolled₃]; exact Nat.le_add_right _ _)
  have hdown : 0 ≤ f.firstCell s₃ + text.length := by
    have hlinear := hplaced₃.linear
    rw [Render.linear, textWidth_unit hunit] at hlinear
    rw [← hlinear]
    positivity
  -- to the cursor
  obtain ⟨last, s₄, hend, hto₄, hcol₄, hat₄⟩ := Placed.moves hE
    (e := { line := { buffer := text ++ [0], cursor, renderCursor := text.length, dirty }, screen := s₃ })
    (by simpa using hplaced₃) hecho₃ text.length cursor (by simp) hsmall hunit'
    (Nat.le_refl _) hcursor (by dsimp only; omega) (by dsimp only; omega)
  obtain ⟨moveCmd₄, hsends₄, hconveys₄⟩ := hto₄.sends
  have hwidth' : drawnWidth P f.mode text ≠ -1 := by
    rw [drawnWidth_unit hwidth f.visible hunit]
    omega
  have hline := redrawByMode_eq f.visible
    (e := { line := { buffer := text ++ [0], cursor, renderCursor, dirty }, screen }) rfl h.placed.termSmart
    h.placed.echoMode hstart hdraw hwidth' hafter hplaced₃.echoMode hend
  have hfirst₄ : f.firstCell s₄ = f.firstCell s₃ := by rw [firstCell, hto₄.render, firstCell]
  refine ⟨s₄, first, stop, last, hline, hsends₄.echoing hecho₃, ⟨?_, ?_, hcol₁, hlinear₁, hcol₃,
    hlinear₃, hcol₄, fun hnonneg => ?_, ⟨_, (hsends₁.trans hsends₃).trans hsends₄,
      draw_conveys hE hencode hnul hunit hconveys₁ hconveys₄⟩, hto₄.wrCount⟩⟩
  · dsimp only
    rw [hto₄.render]
    exact hwidth₃
  · dsimp only
    rw [hto₄.render]
    exact hscrolled₃
  · dsimp only at hnonneg ⊢
    rw [hfirst₄] at hnonneg ⊢
    exact (hat₄ (by dsimp only; omega)).1

theorem Books.redraw_sends (hE : E.Understands P t) (hencode : P.EncodeEachLaw) (hnul : P.NulLaw)
    (hwidth : P.WidthLaw) {e : Editor} (h : f.Books P e) (hlies : f.Lies P e)
    (hecho : e.screen.io.Echoing) (hlast : e.screen.render.lastRenderedWidth < 2 ^ 31) :
    ∃ e' first stop last, nrlRenderRedraw P t e = .ok e' ∧ f.Redrawing P E e e' first stop last := by
  obtain ⟨⟨text, cursor, renderCursor, dirty⟩, screen⟩ := e
  obtain ⟨s', first, stop, last, hline, hecho', hredrawing⟩ :=
    h.redrawByMode_sends hE hencode hnul hwidth hlies hecho hlast
  obtain ⟨s'', hflush, hsends, hzero⟩ := Screen.flush_sends P
    (s := { s' with render := { s'.render with resizeFlag := false } }) hecho'
  refine ⟨{ line := { buffer := text, cursor, renderCursor := cursor, dirty := false }, screen := s'' },
    first, stop, last, ?_, hredrawing.flushed hzero hsends⟩
  have hresize : screen.render.resizeFlag = false := h.placed.resizeFlag
  have hrequery : requery P t screen = .ok screen := by rw [requery, if_neg (by simp [hresize])]
  rw [nrlRenderRedraw, hrequery, Run.ok_bind, hline, Run.ok_bind]
  dsimp only
  rw [hflush]
  simp [List.eraseIdx_append_of_length_le]

/-! ### The screen -/

/-- The screen has scrolled by `scrolled` rows and shows `text` from the line's first cell
on, with room for the cursor behind it and blanks there. -/
structure Shows (f : Frame) (text : List α) (scrolled : Nat) (T : Terminal α) : Prop where
  rows : T.rows = f.size.row
  cols : T.cols = f.size.col
  room : f.origin + text.length < (scrolled + f.size.row) * f.size.col
  covers : ∃ (first : Nat) (sheet : Nat → α), f.origin = first ∧ T.Covers sheet scrolled ∧
    ∀ i, sheet (first + i) = (text[i]?).getD T.blank

theorem Shows.address {text : List α} {scrolled : Nat} {T : Terminal α} (h : f.Shows text scrolled T)
    (row col : Nat) : f.Shows text scrolled (T.address row col) := by
  obtain ⟨first, sheet, horigin, hcovers, htext⟩ := h.covers
  exact ⟨h.rows, h.cols, h.room, first, sheet, horigin, hcovers.address row col, htext⟩

/-- A text is drawn over another one. -/
theorem draw_covers {T : Terminal α} {sheet : Nat → α} {top : Nat} (h : T.Covers sheet top)
    (hrows : T.rows = f.size.row) (hcols : T.cols = f.size.col) {origin : Nat} {old text : List α}
    (hold : ∀ i, sheet (origin + i) = (old[i]?).getD T.blank)
    (hroom : origin + old.length < (top + f.size.row) * f.size.col) {first stop : Pos2d}
    (hfirst : top * f.size.col + (first.row * f.size.col + first.col) = origin)
    (hfirst_col : first.col < f.size.col)
    (hstop : (top + stop.row) * f.size.col + stop.col = origin + text.length)
    (hstop_col : stop.col < f.size.col) (last : Pos2d) :
    ∃ sheet', (f.draw text (old.length - text.length) first stop last T).Covers sheet'
        (top + (stop.row + 1 - f.size.row)) ∧
      ∀ i, sheet' (origin + i) = (text[i]?).getD T.blank := by
  rw [← hrows, ← hcols] at hroom
  rw [← hcols] at hfirst hfirst_col hstop hstop_col
  rw [← hrows]
  have hfirst_row : first.row < T.rows := by
    refine Nat.lt_of_mul_lt_mul_right (a := T.cols) ?_
    rw [Nat.add_mul] at hroom
    omega
  have hnext : (T.address first.row first.col).next = first.row * T.cols + first.col :=
    T.next_address hfirst_row hfirst_col
  have hfrom := h.address first.row first.col
  have hend : (top + stop.row) * T.cols + stop.col =
      top * T.cols + (T.address first.row first.col).next + text.length := by omega
  have hsheet : ∀ i, Terminal.overwrite sheet (top * T.cols + (T.address first.row first.col).next) text
      (origin + i) = (text[i]?).getD ((old[i]?).getD T.blank) := by
    intro i
    rw [hnext, hfirst, Terminal.overwrite_at, hold]
  have hsize := (T.sameSize_address first.row first.col).trans (Terminal.sameSize_prints _ text)
  by_cases hforces : f.size.Forces stop
  · have hbottom : T.rows ≤ stop.row ∧ stop.col = 0 := ⟨hrows.trans_le hforces.1, hforces.2⟩
    have hlong : ¬ text.length < old.length := fun hlt => by
      have hmul := Nat.mul_le_mul_right T.cols (show top + T.rows ≤ top + stop.row by omega)
      omega
    have hcovers := hfrom.prints_lineFeed hstop_col hend hbottom
    have hsize' := hsize.trans (Terminal.sameSize_lineFeed _)
    obtain ⟨sheet', hcovers', htext⟩ := hcovers.prints_blanks text old
      (by rw [hsize'.blank]; exact hsheet) (fun hlt => absurd hlt hlong) (fun hlt => absurd hlt hlong)
    rw [hsize'.blank] at htext
    refine ⟨sheet', ?_, htext⟩
    rw [draw, if_pos hforces]
    exact hcovers'.address _ _
  · have hbottom : ¬ (T.rows ≤ stop.row ∧ stop.col = 0) := fun h =>
      hforces ⟨hrows.symm.trans_le h.1, h.2⟩
    obtain ⟨hcovers, hpos⟩ := hfrom.prints_above hstop_col hend hbottom
    obtain ⟨sheet', hcovers', htext⟩ := hcovers.prints_blanks text old
      (by rw [hsize.blank]; exact hsheet)
      (fun _ => by
        rw [hsize.cols]
        rw [hnext] at hpos
        exact hpos.trans (congrArg (· + text.length) hfirst))
      (fun _ => by
        rw [hsize.rows, hsize.cols]
        exact Nat.lt_of_lt_of_le hroom (Nat.mul_le_mul_right _ (by dsimp only [Terminal.address]; omega)))
    rw [hsize.blank] at htext
    refine ⟨sheet', ?_, htext⟩
    rw [draw, if_neg hforces]
    exact hcovers'.address _ _

theorem sameSize_draw (f : Frame) (text : List α) (rest : Nat) (first stop last : Pos2d) (T : Terminal α) :
    T.SameSize (f.draw text rest first stop last T) := by
  have hsize := (T.sameSize_address first.row first.col).trans (Terminal.sameSize_prints _ text)
  have hrest : ∀ T' : Terminal α, T.SameSize T' →
      T.SameSize ((T'.prints (List.replicate rest T'.blank)).address last.row last.col) := fun T' h =>
    h.trans ((Terminal.sameSize_prints _ _).trans (Terminal.sameSize_address _ _ _))
  rw [draw]
  split
  · exact hrest _ (hsize.trans (Terminal.sameSize_lineFeed _))
  · exact hrest _ hsize

/-- A redraw ends where it is sent. -/
theorem next_draw {text : List α} {rest : Nat} {first stop last : Pos2d} {T : Terminal α}
    (hrow : last.row < T.rows) (hcol : last.col < T.cols) :
    (f.draw text rest first stop last T).next = last.row * T.cols + last.col := by
  obtain ⟨hrows, hcols, -⟩ := f.sameSize_draw text rest first stop last T
  rw [draw] at hrows hcols ⊢
  rw [← hcols]
  exact Terminal.next_address _ (hrow.trans_eq hrows.symm) (hcol.trans_eq hcols.symm)

/-- **The terminal's side of a redraw.** -/
theorem Shows.draw {old : List α} {scrolled scrolled' : Nat} {T : Terminal α}
    (h : f.Shows old scrolled T) (text : List α) (last : Pos2d) {first stop : Pos2d} {cursor : Nat}
    (hcursor : cursor ≤ text.length)
    (hscrolled : scrolled' = scrolled + (stop.row + 1 - f.size.row)) (hfirst_col : first.col < f.size.col)
    (hfirst : (first.row * f.size.col + first.col : Int) = f.origin - f.size.col * scrolled)
    (hstop_col : stop.col < f.size.col)
    (hstop : (stop.row * f.size.col + stop.col : Int) = f.origin - f.size.col * scrolled + text.length)
    (hlast_col : last.col < f.size.col)
    (hlast : (last.row * f.size.col + last.col : Int) = f.origin - f.size.col * scrolled' + cursor) :
    f.Shows text scrolled' (f.draw text (old.length - text.length) first stop last T) ∧
      ((f.draw text (old.length - text.length) first stop last T).next : Int) =
        f.origin - f.size.col * scrolled' + cursor := by
  obtain ⟨hrows, hcols, hroom, origin, sheet, horigin, hcovers, hold⟩ := h
  obtain ⟨hrows', hcols', hblank'⟩ := f.sameSize_draw text (old.length - text.length) first stop last T
  rw [horigin] at hroom hfirst hstop hlast ⊢
  have hcomm : ∀ k : Nat, (f.size.col * k : Int) = (k * f.size.col : Nat) := fun k => by
    push_cast
    exact Int.mul_comm _ _
  rw [hcomm] at hfirst hstop hlast ⊢
  have hstop' : (scrolled + stop.row) * f.size.col + stop.col = origin + text.length := by
    rw [Nat.add_mul]
    push_cast at hstop
    omega
  have hend : origin + text.length < (scrolled' + f.size.row) * f.size.col := by
    have hmul := Nat.mul_le_mul_right f.size.col
      (show scrolled + stop.row + 1 ≤ scrolled' + f.size.row by omega)
    rw [Nat.add_mul _ 1] at hmul
    omega
  obtain ⟨sheet', hcovers', htext⟩ := draw_covers hcovers hrows hcols hold (by exact_mod_cast hroom)
    (by push_cast at hfirst; omega) hfirst_col hstop' hstop_col last
  have hlast_row : last.row < f.size.row := by
    refine Nat.lt_of_mul_lt_mul_right (a := f.size.col) ?_
    rw [Nat.add_mul] at hend
    push_cast at hlast
    omega
  rw [← hscrolled] at hcovers'
  rw [← hblank'] at htext
  refine ⟨⟨hrows'.trans hrows, hcols'.trans hcols, ?_, origin, sheet', horigin, hcovers', htext⟩, ?_⟩
  · rw [horigin]
    exact_mod_cast hend
  · rw [next_draw (hlast_row.trans_eq hrows.symm) (hlast_col.trans_eq hcols.symm), hcols, ← hlast]
    push_cast
    rfl

/-! ### One call -/

/-- Whatever has been sent, the screen shows what it showed. -/
structure Stays (f : Frame) (E : Emulator α) (s s' : Screen) : Prop where
  scrolled : s'.render.scrolled = s.render.scrolled
  width : s'.render.lastRenderedWidth = s.render.lastRenderedWidth
  sends : ∃ bytes command, s.io.Sends bytes s'.io ∧ E.Conveys bytes command ∧
    ∀ text scrolled T, f.Shows text scrolled T → f.Shows text scrolled (command T)

theorem Stays.refl {s : Screen} (h : s.io.Echoing) : f.Stays E s s :=
  ⟨rfl, rfl, [], id, h.sends_nil, .nil, fun _ _ _ h => h⟩

theorem Books.sync_sends (hE : E.Understands P t) {e : Editor} (h : f.Books P e) (hlies : f.Lies P e)
    (hecho : e.screen.io.Echoing) {cursor : Nat} (hcursor : cursor ≤ e.line.buffer.length) :
    ∃ e', nrlRenderSyncCursors P t { e with line := { e.line with cursor } } = .ok e' ∧
      f.Stays E e.screen e'.screen := by
  have htop := hlies.top
  have hbottom := hlies.bottom
  obtain ⟨location, s₁, hmove, hto, -, -⟩ := h.placed.moves hE
    (e := { e with line := { e.line with cursor } }) hecho e.line.buffer.length cursor (Nat.le_refl _)
    (by dsimp only; omega) (by simpa using hlies.widths) (h.renderCursor_le.trans h.cursor_le) hcursor
    (by dsimp only; omega) (by dsimp only; omega)
  obtain ⟨moveCmd, hsends₁, hconveys⟩ := hto.sends
  obtain ⟨s₂, hflush, hsends₂, -⟩ := s₁.flush_sends P (hsends₁.echoing hecho)
  refine ⟨{ line := { e.line with cursor, renderCursor := cursor }, screen := s₂ }, ?_, ?_, ?_, moveCmd,
    (·.address location.row location.col), ?_, hconveys, fun _ _ _ h => h.address _ _⟩
  · rw [nrlRenderSyncCursors, P.assert_of _ h.placed.termSmart, Run.ok_bind]
    dsimp only at hmove ⊢
    rw [hmove, Run.ok_bind, hflush]
    rfl
  · rw [hsends₂.render, hto.render]
  · rw [hsends₂.render, hto.render]
  · have hsends := hsends₁.trans hsends₂.io
    rwa [List.append_nil] at hsends

theorem Books.key_sends (hE : E.Understands P t) {e : Editor} (h : f.Books P e) (hlies : f.Lies P e)
    (hecho : e.screen.io.Echoing) (key : TerminfoInput) :
    ∃ e', nrlManipEvalEscape P t key.id e = .ok e' ∧ f.Stays E e.screen e'.screen := by
  have hcursor := h.cursor_le
  have hleft : ∃ e', escapeLeft P t e = .ok e' ∧ f.Stays E e.screen e'.screen := by
    unfold escapeLeft
    split
    · exact h.sync_sends hE hlies hecho (by omega)
    · exact ⟨e, rfl, .refl hecho⟩
  -- deleting draws nothing
  have hdelete : ∀ e₁, f.Stays E e.screen e₁.screen →
      ∃ e', escapeDelete P e₁ = .ok e' ∧ f.Stays E e.screen e'.screen := by
    intro e₁ hstays
    rw [escapeDelete_eq]
    refine ⟨_, rfl, ?_⟩
    split <;> exact hstays
  rw [nrlManipEvalEscape_key]
  cases key with
  | keyLeft => exact hleft
  | keyRight =>
    dsimp only
    unfold escapeRight
    split
    · rename_i hlt
      exact h.sync_sends hE hlies hecho hlt
    · exact ⟨e, rfl, .refl hecho⟩
  | keyBackspace =>
    dsimp only
    unfold escapeBackspace
    split
    · obtain ⟨e₁, hmove, hstays⟩ := hleft
      obtain ⟨e', hgone, hstays'⟩ := hdelete e₁ hstays
      exact ⟨e', Run.bind_eq_ok.mpr ⟨e₁, hmove, hgone⟩, hstays'⟩
    · exact ⟨e, rfl, .refl hecho⟩
  | keyDelete => exact hdelete e (.refl hecho)
  | keyHome => exact h.sync_sends hE hlies hecho (Nat.zero_le _)
  | keyEnd => exact h.sync_sends hE hlies hecho (Nat.le_refl _)

/-- **The invariant.** The books are right, and the terminal that has read everything written
shows the line as it was drawn last. -/
structure Displayed (f : Frame) (P : Platform) (E : Emulator α) (state : E.State) (e : Editor) : Prop where
  books : f.Books P e
  echoing : e.screen.io.Echoing
  shown : ∃ T text, E.Displays (e.screen.io.output.foldl E.feed state) T ∧
    f.Shows text e.screen.render.scrolled T ∧ text.length = e.screen.render.lastRenderedWidth ∧
    text.length < 2 ^ 31

theorem Displayed.stays {state : E.State} {e e' : Editor} (h : f.Displayed P E state e)
    (hstays : f.Stays E e.screen e'.screen) (hbooks : f.Books P e') : f.Displayed P E state e' := by
  obtain ⟨T, text, hdisplays, hshows, hlength, hsmall⟩ := h.shown
  obtain ⟨bytes, command, hsends, hconveys, hkeeps⟩ := hstays.sends
  refine ⟨hbooks, hsends.echoing h.echoing, command T, text, ?_, ?_, ?_, hsmall⟩
  · rw [hsends.output, List.foldl_append]
    exact hconveys _ _ hdisplays
  · rw [hstays.scrolled]
    exact hkeeps _ _ _ hshows
  · rw [hstays.width, hlength]

/-- What a redraw leaves on the screen. -/
structure Visible (f : Frame) (E : Emulator α) (state : E.State) (e : Editor) (T : Terminal α) : Prop where
  displays : E.Displays (e.screen.io.world.echoed.foldl E.feed state) T
  shows : f.Shows (E.shown f.mode e.line.buffer) e.screen.render.scrolled T
  next : (T.next : Int) = f.firstCell e.screen + e.line.cursor

end Frame

theorem length_shown (E : Emulator α) {mode : EchoMode} (hvisible : mode ≠ .off) (line : List Uchar) :
    (E.shown mode line).length = line.length := by
  cases mode with
  | off => exact absurd rfl hvisible
  | on => exact List.length_map _
  | obscured => exact List.length_map _

namespace Frame

variable {f : Frame}

/-- The step of a redraw. -/
theorem Displayed.redraw (hE : E.Understands P t) (hencode : P.EncodeEachLaw) (hnul : P.NulLaw)
    (hwidth : P.WidthLaw) {state : E.State} {e : Editor} (h : f.Displayed P E state e) (hlies : f.Lies P e) :
    ∃ e', nrlRenderRedraw P t e = .ok e' ∧ (f.Lies P e' →
      f.Displayed P E state e' ∧ e'.line.renderCursor = e'.line.cursor ∧ ∃ T, f.Visible E state e' T) := by
  obtain ⟨T, old, hdisplays, hshows, hlength, hsmall⟩ := h.shown
  obtain ⟨e', first, stop, last, hredraw, hredrawing⟩ := h.books.redraw_sends hE hencode hnul hwidth hlies
    h.echoing (hlength ▸ hsmall)
  obtain ⟨hwidth', hscrolled, hfirst_col, hfirst, hstop_col, hstop, hlast_col, hlast,
    ⟨bytes, hsends, hconveys⟩, hzero⟩ := hredrawing
  have htext := (nrlRenderRedraw_ok P t hredraw).text
  refine ⟨e', hredraw, fun hlies' => ?_⟩
  obtain ⟨hbooks, hcursors⟩ := h.books.redraw hwidth hlies.fits hredraw hlies'.fits
  have hshown := length_shown E f.visible e.line.buffer
  obtain ⟨hshows', hnext⟩ := hshows.draw (E.shown f.mode e.line.buffer) last
    (h.books.cursor_le.trans_eq hshown.symm) hscrolled hfirst_col hfirst hstop_col
    (by rw [hshown]; exact hstop) hlast_col (hlast hlies'.top)
  rw [hshown, hlength] at hshows' hnext
  rw [← htext.buffer] at hshows' hnext hconveys
  have hdisplays' := hconveys _ _ hdisplays
  rw [← List.foldl_append, ← hsends.output] at hdisplays'
  have hbottom := hlies'.bottom
  have htop := hlies'.top
  refine ⟨⟨hbooks, hsends.echoing h.echoing, _, _, hdisplays', hshows', ?_, ?_⟩, hcursors, _, ?_, hshows', ?_⟩
  · rw [length_shown E f.visible, hwidth', htext.buffer]
  · rw [length_shown E f.visible]
    omega
  · rw [Io.output, hzero] at hdisplays'
    simpa [slice] using hdisplays'
  · rw [hnext, htext.cursor]
    rfl

/-- The step: a call comes to an end, and if the line still lies on the screen, the screen shows it. -/
theorem Displayed.perform (hE : E.Understands P t) (hencode : P.EncodeEachLaw) (hnul : P.NulLaw)
    (hwidth : P.WidthLaw) {state : E.State} {e : Editor} (h : f.Displayed P E state e) (hlies : f.Lies P e)
    (op : EditOp) :
    ∃ e', op.perform P t e = .ok e' ∧ (f.Lies P e' → f.Displayed P E state e') := by
  cases op with
  | insert text =>
    have hinsert := nrlManipInsertText_eq P text h.books.cursor_le
    exact ⟨_, hinsert, fun _ => h.stays (.refl h.echoing) (h.books.insert hinsert)⟩
  | escape key =>
    obtain ⟨e', hkey, hstays⟩ := h.books.key_sends hE hlies h.echoing key
    exact ⟨e', hkey, fun _ => h.stays hstays (h.books.key hlies.fits hkey)⟩
  | redraw =>
    obtain ⟨e', hredraw, hdisplayed⟩ := h.redraw hE hencode hnul hwidth hlies
    exact ⟨e', hredraw, fun hlies' => (hdisplayed hlies').1⟩
  | sync =>
    obtain ⟨e', hsync, hstays⟩ := h.books.sync_sends hE hlies h.echoing h.books.cursor_le
    exact ⟨e', hsync, fun _ => h.stays hstays (h.books.sync hlies.fits h.books.cursor_le hsync).1⟩

/-- The screen a session starts on: the cursor is where the terminal has reported it, and
there are only blanks from there on. -/
structure StartsOn (f : Frame) (s₀ : Screen) (T : Terminal α) : Prop where
  rows : T.rows = f.size.row
  cols : T.cols = f.size.col
  row : T.row = s₀.render.cursorPos.row
  col : T.col = s₀.render.cursorPos.col
  wrap : T.wrap = false
  blank : T.Holds f.origin []

theorem StartsOn.shows {s₀ : Screen} {T : Terminal α} (h : f.StartsOn s₀ T)
    (hsize : s₀.render.termSize = f.size) (horigin : s₀.render.linear = f.origin) : f.Shows [] 0 T := by
  have hlinear : ((T.row * f.size.col + T.col : Nat) : Int) = f.origin := by
    rw [← horigin, Render.linear, hsize, h.row, h.col]
    push_cast
    rfl
  have hroom : T.row * f.size.col + T.col < f.size.row * f.size.col := by
    have hmul := Nat.mul_le_mul_right f.size.col (h.rows ▸ T.row_lt : T.row + 1 ≤ f.size.row)
    have hcol : T.col < f.size.col := h.cols ▸ T.col_lt
    rw [Nat.add_mul] at hmul
    omega
  refine ⟨h.rows, h.cols, ?_, T.row * f.size.col + T.col,
    fun p => if p < f.size.row * f.size.col then T.cells p else T.blank, hlinear.symm, ⟨?_, ?_⟩, ?_⟩
  · rw [← hlinear]
    simpa using mod_cast hroom
  · intro p hp
    rw [h.rows, h.cols] at hp
    simp [hp]
  · intro p hp
    rw [h.rows, h.cols, Nat.zero_add] at hp
    exact if_neg (Nat.not_lt.mpr hp)
  · intro i
    dsimp only
    split
    · rename_i hlt
      exact h.blank i _ (by rw [← hlinear]; push_cast; rfl) (by rwa [h.rows, h.cols])
    · rfl

end Frame

end Calls

/-- A session starts without anything drawn. -/
theorem nrlRenderInit_width {P : Platform} {t : Terminfo} {mode : EchoMode} {echoFile : Int}
    {s s₀ : Screen} (h : nrlRenderInit P t mode echoFile s = .ok (true, s₀)) :
    s₀.render.lastRenderedWidth = 0 := by
  unfold nrlRenderInit at h
  dsimp only at h
  split at h
  · obtain ⟨⟨cursorPos, io⟩, -, h⟩ := Run.bind_eq_ok.mp h
    cases cursorPos with
    | none => cases h
    | some cursorPos =>
      obtain ⟨⟨queried, termSize, s₁⟩, hsize, h⟩ := Run.bind_eq_ok.mp h
      obtain ⟨-, rfl⟩ := Prod.mk.inj (Except.ok.inj h)
      obtain ⟨pos, hrender⟩ := (querySize_ends (F := fun _ => True) P t _ _).of_ok hsize
      dsimp only at hrender ⊢
      rw [hrender]
  · obtain ⟨-, rfl⟩ := Prod.mk.inj (Except.ok.inj h)
    rfl

/-- **The screen shows the line.** On a terminal that understands the program, in every run of
edits and drawing during which the line lies on the screen, every redraw comes to an end; behind
it the cells from the line's first one on hold the line and then blanks, and the next character
goes where the books have the cursor. -/
theorem screen_shows {α : Type} {P : Platform} (hwidth : P.WidthLaw) (hencode : P.EncodeEachLaw)
    (hnul : P.NulLaw) {t : Terminfo} (E : Emulator α) (hE : E.Understands P t) (f : Frame)
    {echoFile : Int} {s s₀ : Screen} (hinit : nrlRenderInit P t f.mode echoFile s = .ok (true, s₀))
    (hsmart : nrlTermIsSmart t = true) (hresize : s.render.resizeFlag = false)
    (hsize : s₀.render.termSize = f.size) (horigin : s₀.render.linear = f.origin)
    (hecho : s₀.io.Echoing) {state : E.State} {T₀ : Terminal α}
    (hdisplays : E.Displays (s₀.io.output.foldl E.feed state) T₀) (hstart : f.StartsOn s₀ T₀)
    (hlies : f.Lies P { line := emptyLine, screen := s₀ }) (ops : List EditOp)
    (hruns : Run.Guarded (EditOp.perform P t)
      (fun op e => ∀ e', op.perform P t e = .ok e' → f.Lies P e') (ops ++ [.redraw])
      { line := emptyLine, screen := s₀ }) :
    ∃ e T, Run.exec (EditOp.perform P t) (ops ++ [.redraw]) { line := emptyLine, screen := s₀ } = .ok e ∧
      E.Displays (e.screen.io.world.echoed.foldl E.feed state) T ∧
      T.rows = f.size.row ∧ T.cols = f.size.col ∧
      f.firstCell e.screen + e.line.buffer.length < f.size.row * f.size.col ∧
      T.Holds (f.firstCell e.screen) (E.shown f.mode e.line.buffer) ∧
      (T.next : Int) = f.firstCell e.screen + e.line.cursor ∧
      e.screen.render.linear = f.firstCell e.screen + e.line.cursor := by
  have hopen := nrlRenderInit_ok P t hinit
  have hbegin : f.Displayed P E state { line := emptyLine, screen := s₀ } := by
    refine ⟨Frame.books_emptyLine hopen hsmart hresize hsize horigin hecho.complete, hecho, T₀, [], hdisplays,
      ?_, (nrlRenderInit_width hinit).symm, by simp⟩
    dsimp only
    rw [hopen.scrolled]
    exact hstart.shows hsize horigin
  obtain ⟨hguard, hlast⟩ := Run.guarded_append.mp hruns
  obtain ⟨e₁, hexec, hdisplayed, hlies₁⟩ :=
    Run.exec_progress (I := fun e => f.Displayed P E state e ∧ f.Lies P e)
      (fun op e ⟨hdisplayed, hlies⟩ hC => by
        obtain ⟨e', hop, hstep⟩ := hdisplayed.perform hE hencode hnul hwidth hlies op
        exact ⟨e', hop, hstep (hC e' hop), hC e' hop⟩)
      ⟨hbegin, hlies⟩ hguard
  obtain ⟨e, hredraw, hstep⟩ := hdisplayed.redraw hE hencode hnul hwidth hlies₁
  have hlies' := (hlast e₁ hexec).1 e hredraw
  obtain ⟨hdisplayed', hcursors, T, hvisible⟩ := hstep hlies'
  obtain ⟨hrows, hcols, hroom, first, sheet, hfirst, hcovers, htext⟩ := hvisible.shows
  refine ⟨e, T, ?_, hvisible.displays, hrows, hcols, ?_, hcovers.holds htext ?_, hvisible.next, ?_⟩
  · rw [Run.exec_append, hexec, Run.ok_bind]
    exact Run.exec_cons_ok.mpr ⟨e, hredraw, rfl⟩
  · rw [length_shown E f.visible] at hroom
    rw [Int.add_mul, Int.mul_comm _ (f.size.col : Int)] at hroom
    rw [Frame.firstCell]
    omega
  · rw [Frame.firstCell, hfirst, hcols]
  · have hbooks := hdisplayed'.books
    rw [hbooks.placed.linear, textWidth_unit fun c hc => hlies'.widths c (List.mem_of_mem_take hc),
      List.length_take_of_le (hbooks.renderCursor_le.trans hbooks.cursor_le), hcursors]

/-- A blank screen with a number sign in every cell before the cursor. -/
def promptTerminal (rows cols row : Nat) (hrow : row < rows) (hcols : 0 < cols) : Terminal Uchar where
  rows := rows
  cols := cols
  blank := 32
  cells p := if p < row * cols then 35 else 32
  row := row
  col := 0
  wrap := false
  row_lt := hrow
  col_lt := hcols
  wrap_last := fun h => absurd h Bool.false_ne_true

theorem promptTerminal_startsOn {f : Frame} {s₀ : Screen} {row : Nat} (hrow : row < f.size.row)
    (hcursor : s₀.render.cursorPos = ⟨row, 0⟩) (horigin : f.origin = (row * f.size.col : Nat)) :
    f.StartsOn s₀ (promptTerminal f.size.row f.size.col row hrow f.cols_pos) := by
  refine ⟨rfl, rfl, by rw [hcursor]; rfl, by rw [hcursor]; rfl, rfl, fun i p hp _ => ?_⟩
  rw [horigin] at hp
  exact if_neg (by omega)

/-- Two characters, drawn, and the left key. -/
def leftOps : List EditOp := [.insert [97, 98], .redraw, .escape .keyLeft]

/-- The second row of an xterm. -/
def xtermDisplay : AnsiState :=
  { pending := [], screen := promptTerminal 24 80 1 (by decide) (by decide) }

theorem screen_shows_xterm :
    ∃ s₀ e T, nrlRenderInit referencePlatform xtermTerminfo .on 1 xtermScreen = .ok (true, s₀) ∧
      Run.exec (EditOp.perform referencePlatform xtermTerminfo) (leftOps ++ [.redraw])
        { line := emptyLine, screen := s₀ } = .ok e ∧
      ansiEmulator.Displays (e.screen.io.world.echoed.foldl ansiEmulator.feed xtermDisplay) T ∧
      T.Holds (xtermFrame.firstCell e.screen) (ansiEmulator.shown .on e.line.buffer) ∧
      (T.next : Int) = xtermFrame.firstCell e.screen + e.line.cursor := by
  have hfacts : (nrlRenderInit referencePlatform xtermTerminfo .on 1 xtermScreen).map
      (fun r => decide (r.1 = true ∧ r.2.render.termSize = ⟨24, 80⟩ ∧ r.2.render.linear = 80 ∧
        r.2.render.cursorPos = ⟨1, 0⟩ ∧ r.2.io.echoFile = 1 ∧ r.2.io.echoEnabled = true ∧
        r.2.io.wrCount ≤ ioBufSize ∧ r.2.io.world.writes = [] ∧ r.2.io.output = ascii "\x1b[6n" ∧
        xtermFrame.Lies referencePlatform ⟨emptyLine, r.2⟩ ∧
        Run.Guarded (EditOp.perform referencePlatform xtermTerminfo)
          (fun op e => ∀ e', op.perform referencePlatform xtermTerminfo e = .ok e' →
            xtermFrame.Lies referencePlatform e') (leftOps ++ [.redraw]) ⟨emptyLine, r.2⟩)) =
      .ok true := by
    decide +kernel
  obtain ⟨⟨done, s₀⟩, hinit, hfacts⟩ := Run.map_eq_ok.mp hfacts
  obtain ⟨rfl, hsize, horigin, hcursor, hfile, henabled, hcount, hwrites, houtput, hlies, hruns⟩ :=
    of_decide_eq_true hfacts
  have hecho : s₀.io.Echoing :=
    ⟨by rw [hfile]; decide, henabled, hcount, fun r hr => absurd (hwrites ▸ hr) List.not_mem_nil⟩
  have hdisplays : ansiEmulator.Displays (s₀.io.output.foldl ansiEmulator.feed xtermDisplay)
      xtermDisplay.screen := by
    rw [houtput]
    exact ⟨rfl, rfl⟩
  obtain ⟨e, T, hrun, hshown, -, -, -, hholds, hnext, -⟩ := screen_shows referencePlatform_width
    referencePlatform_encodeEach referencePlatform_nul ansiEmulator ansiEmulator_understands xtermFrame
    hinit (by decide) rfl hsize horigin hecho hdisplays
    (promptTerminal_startsOn (by decide) hcursor rfl) hlies leftOps hruns
  exact ⟨s₀, e, T, hinit, hrun, hshown, hholds, hnext⟩

/-- As many rows and columns as a reply can have, with the cursor in row 40000. -/
def giantScreen : Screen :=
  { xtermScreen with io := { xtermScreen.io with world := { xtermScreen.io.world with
      reads := [.data (ascii "\x1b[40001;1R")]
      winsizes := [some (65535, 65535)] } } }

def giantFrame : Frame :=
  { xtermFrame with
    size := ⟨65535, 65535⟩
    origin := 2621400000
    rows_pos := by decide
    rows_lt := by decide
    cols_pos := by decide }

/-- The number of the first cell does not fit 32 bits: the line is drawn at the top of the
screen. -/
theorem screen_shows_giant :
    (nrlRenderInit referencePlatform xtermTerminfo .on 1 giantScreen).map
        (fun r => (r.1, r.2.render.termSize, r.2.render.cursorPos)) =
      .ok (true, giantFrame.size, ⟨40000, 0⟩) ∧
    (nrlRenderInit referencePlatform xtermTerminfo .on 1 giantScreen >>= fun r =>
        Run.exec (EditOp.perform referencePlatform xtermTerminfo) [.insert [97], .redraw]
          { line := emptyLine, screen := r.2 }).map (fun e =>
        let s := e.screen.io.world.echoed.foldl ansiEmulator.feed
          { pending := [], screen := promptTerminal 65535 65535 40000 (by decide) (by decide) }
        (e.line.buffer, e.screen.render.scrolled, s.screen.cells 2621400000, s.screen.cells 0,
          s.screen.cells 1)) =
      .ok ([97], 0, 32, 97, 35) := by
  refine ⟨by decide +kernel, by decide +kernel⟩

end Nanorl
