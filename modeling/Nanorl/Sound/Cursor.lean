import Mathlib.Tactic.Positivity
import Mathlib.Tactic.Ring
import Nanorl.Sound.Edit
import Nanorl.Sound.Reference

/-!
# Nanorl.Sound.Cursor

The renderer's books on the terminal's cursor.

`render_cursor` was entered on the buffer as it was drawn and is walked back over
the buffer as it is now. The two agree because every edit happens at or behind
`render_cursor`: text goes in at the cursor, which is never before it, a key that
moves the cursor takes `render_cursor` along, and a custom key first takes both to
the beginning of the line. So `cursor_pos` is always the width of the text before
`render_cursor` away from the line's first cell (`cursor_books`).
-/

namespace Nanorl

open Run (Ends)

/-! ### Widths -/

/-- The columns of a character on the screen, by echo mode. -/
def cellWidth (P : Platform) : EchoMode → Uchar → Int
  | .on, c => P.ucwidth c
  | .obscured, _ => 1
  | .off, _ => 0

def textWidth (P : Platform) (mode : EchoMode) (text : List Uchar) : Int :=
  (text.map (cellWidth P mode)).sum

section Width

variable {P : Platform} {mode : EchoMode} {text : List Uchar}

@[simp] theorem textWidth_nil : textWidth P mode [] = 0 := rfl

theorem textWidth_append (text rest : List Uchar) :
    textWidth P mode (text ++ rest) = textWidth P mode text + textWidth P mode rest := by
  simp [textWidth]

theorem textWidth_nonneg (h : ∀ c ∈ text, 0 ≤ cellWidth P mode c) : 0 ≤ textWidth P mode text := by
  induction text with
  | nil => exact Int.le_refl 0
  | cons c text ih =>
    rw [List.forall_mem_cons] at h
    exact Int.add_nonneg h.1 (ih h.2)

/-- A beginning of the text is no wider than the text. -/
theorem textWidth_take (h : ∀ c ∈ text, 0 ≤ cellWidth P mode c) (n : Nat) :
    0 ≤ textWidth P mode (text.take n) ∧ textWidth P mode (text.take n) ≤ textWidth P mode text := by
  have hrest := textWidth_nonneg fun c hc => h c (List.mem_of_mem_drop (i := n) hc)
  have hsum : textWidth P mode (text.take n ++ text.drop n) = _ := textWidth_append _ _
  rw [List.take_append_drop] at hsum
  exact ⟨textWidth_nonneg fun c hc => h c (List.mem_of_mem_take hc), by omega⟩

theorem textWidth_take_succ {n : Nat} {c : Uchar} (h : text[n]? = some c) :
    textWidth P mode (text.take (n + 1)) = textWidth P mode (text.take n) + cellWidth P mode c := by
  rw [List.take_add_one, h, textWidth_append]
  simp [textWidth]

theorem textWidth_obscured : textWidth P .obscured text = text.length := by
  induction text with
  | nil => rfl
  | cons c text ih =>
    rw [List.length_cons, Nat.cast_succ, ← ih, Int.add_comm]
    rfl

/-- What a redraw adds to the position is the width of the line. -/
theorem drawnWidth_eq (hwidth : P.WidthLaw) (hmode : mode ≠ .off)
    (h : ∀ c ∈ text, 0 ≤ cellWidth P mode c) : drawnWidth P mode text = textWidth P mode text := by
  cases mode with
  | on => exact hwidth text h
  | obscured => exact textWidth_obscured.symm
  | off => exact absurd rfl hmode

end Width

/-! ### Steps of the render cursor -/

theorem int32_add (x y : Int) : int32 (int32 x + y) = int32 (x + y) := Int.bmod_add_bmod

theorem int32_int32 (x : Int) : int32 (int32 x) = int32 x := Int.bmod_bmod

theorem int32_sub (x y : Int) : int32 (int32 x - int32 y) = int32 (x - y) :=
  (Int.sub_bmod x y _).symm

theorem uint32_int32_add (x y : Int) : uint32 (int32 x + int32 y) = uint32 (x + y) := by
  have hmod : ∀ x, int32 x % 2 ^ 32 = x % 2 ^ 32 := fun x => Int.bmod_emod
  unfold uint32
  rw [Int.add_emod, hmod, hmod, ← Int.add_emod]

section Steps

variable {P : Platform}

/-- A walk of the render cursor that comes to an end ends at `pos`, in whichever
direction it set out: walking away from `pos` leaves the vector. The induction is
on the rounds. -/
theorem stepCursor_ok {buffer : List Uchar} (hlen : buffer.length < 2 ^ 32) {pos fuel : Nat}
    {dirFwd : Bool} {renderCursor renderCursor' : Nat} (hle : renderCursor ≤ buffer.length)
    {moveWidth moveWidth' : Int} (hwidth : int32 moveWidth = moveWidth)
    (h : stepCursor P buffer pos dirFwd fuel renderCursor moveWidth = .ok (renderCursor', moveWidth')) :
    renderCursor' = pos ∧ moveWidth' = int32 (moveWidth +
      (textWidth P .on (buffer.take pos) - textWidth P .on (buffer.take renderCursor))) := by
  induction fuel generalizing renderCursor moveWidth with
  | zero => cases h
  | succ fuel ih =>
    rw [stepCursor] at h
    by_cases heq : renderCursor = pos
    · rw [if_pos heq] at h
      obtain ⟨rfl, rfl⟩ := Prod.mk.inj (Except.ok.inj h)
      refine ⟨heq, ?_⟩
      rw [heq, Int.sub_self, Int.add_zero, hwidth]
    · rw [if_neg heq] at h
      dsimp only at h
      split at h
      · cases h
      · rename_i step hstep
        obtain ⟨_, -, h⟩ := Run.bind_eq_ok.mp h
        cases dirFwd with
        | true =>
          rw [if_pos rfl] at hstep
          have hlt := (List.getElem?_eq_some_iff.mp hstep).1
          obtain ⟨hpos, hmove⟩ := ih hlt (int32_int32 _) h
          refine ⟨hpos, hmove.trans ?_⟩
          rw [textWidth_take_succ hstep, int32_add]
          congr 1
          show moveWidth + P.ucwidth step + (_ - (_ + P.ucwidth step)) = _
          omega
        | false =>
          cases renderCursor with
          | zero =>
            -- one before the beginning is the largest index there is
            have hlt := (List.getElem?_eq_some_iff.mp hstep).1
            have hwrap : uint32 (((0 : Nat) : Int) - 1) = 2 ^ 32 - 1 := by decide
            rw [if_neg (by decide), hwrap] at hlt
            omega
          | succ k =>
            have hidx : uint32 (((k + 1 : Nat) : Int) - 1) = k := by
              unfold uint32
              omega
            rw [if_neg (by decide), hidx] at hstep
            obtain ⟨hpos, hmove⟩ := ih (Nat.le_of_succ_le hle) (int32_int32 _) h
            refine ⟨hpos, hmove.trans ?_⟩
            rw [textWidth_take_succ hstep, int32_add]
            congr 1
            show moveWidth - P.ucwidth step + (_ - textWidth P .on (buffer.take k)) =
              moveWidth + (_ - (_ + P.ucwidth step))
            omega

/-- Both ways of moving end at `pos` and account for the text in between. -/
theorem modeSteps_ok {mode : EchoMode} (hmode : mode ≠ .off) {line : LineData}
    (hlen : line.buffer.length < 2 ^ 32) (hle : line.renderCursor ≤ line.buffer.length) {pos : Nat}
    (hpos : pos ≤ line.buffer.length) {renderCursor : Nat} {moveWidth : Int}
    (h : modeSteps P mode pos line = .ok (renderCursor, moveWidth)) :
    renderCursor = pos ∧ moveWidth = int32 (textWidth P mode (line.buffer.take pos) -
      textWidth P mode (line.buffer.take line.renderCursor)) := by
  cases mode with
  | off => exact absurd rfl hmode
  | on =>
    obtain ⟨hrc, hwidth⟩ := stepCursor_ok hlen hle (by decide : int32 0 = 0) h
    rw [Int.zero_add] at hwidth
    exact ⟨hrc, hwidth⟩
  | obscured =>
    obtain ⟨rfl, rfl⟩ := Prod.mk.inj (Except.ok.inj h)
    rw [textWidth_obscured, textWidth_obscured, List.length_take_of_le hpos,
      List.length_take_of_le hle]
    refine ⟨?_, int32_sub _ _⟩
    rw [int32_sub, uint32_int32_add]
    unfold uint32
    omega

/-- A walk between two places of the line does not leave it: all that stops it is a
character without a width. The induction is on the rounds. -/
theorem stepCursor_within {buffer : List Uchar} {pos renderCursor fuel k : Nat}
    (hlen : k ≤ buffer.length) (hsmall : buffer.length < 2 ^ 32) (hrc : renderCursor ≤ k)
    (hpos : pos ≤ k) {dirFwd : Bool} (hdir : dirFwd = true → renderCursor ≤ pos)
    (hdir' : dirFwd = false → pos ≤ renderCursor)
    (hfuel : (pos - renderCursor) + (renderCursor - pos) < fuel) (moveWidth : Int) :
    Ends (fun f => f = .assertion .charWidth ∧ ∃ c ∈ buffer.take k, P.ucwidth c = -1) (fun _ => True)
      (stepCursor P buffer pos dirFwd fuel renderCursor moveWidth) := by
  induction fuel generalizing renderCursor moveWidth with
  | zero => omega
  | succ fuel ih =>
    rw [stepCursor]
    by_cases heq : renderCursor = pos
    · rw [if_pos heq]
      exact .ok trivial
    · rw [if_neg heq]
      have hstep : ∀ i < k, ∃ c, buffer[i]? = some c ∧ c ∈ buffer.take k := by
        intro i hi
        refine ⟨_, List.getElem?_eq_getElem (Nat.lt_of_lt_of_le hi hlen), ?_⟩
        exact List.mem_take_iff_getElem.mpr ⟨i, by omega, rfl⟩
      have hwidth : ∀ c ∈ buffer.take k,
          Ends (fun f => f = .assertion .charWidth ∧ ∃ c ∈ buffer.take k, P.ucwidth c = -1)
            (fun _ => True) (P.assert .charWidth (P.ucwidth c ≠ -1)) := by
        intro c hc
        refine ⟨fun _ => trivial, fun h => ⟨P.assert_error h, c, hc, ?_⟩⟩
        by_contra hne
        rw [P.assert_of _ (decide_eq_true hne)] at h
        cases h
      cases dirFwd with
      | true =>
        have hle := hdir rfl
        obtain ⟨c, hc, hmem⟩ := hstep renderCursor (by omega)
        simp only [if_true]
        rw [hc]
        exact (hwidth c hmem).bind fun _ _ =>
          ih (by omega) (fun _ => by omega) (fun h => absurd h (by decide)) (by omega) _
      | false =>
        have hle := hdir' rfl
        obtain ⟨j, rfl⟩ : ∃ j, renderCursor = j + 1 := ⟨renderCursor - 1, by omega⟩
        have hidx : uint32 (((j + 1 : Nat) : Int) - 1) = j := by
          unfold uint32
          omega
        obtain ⟨c, hc, hmem⟩ := hstep j (by omega)
        simp only [Bool.false_eq_true, if_false]
        rw [hidx, hc]
        exact (hwidth c hmem).bind fun _ _ =>
          ih (by omega) (fun h => absurd h (by decide)) (fun _ => by omega) (by omega) _

theorem modeSteps_within {mode : EchoMode} {line : LineData} {k pos : Nat}
    (hlen : k ≤ line.buffer.length) (hsmall : line.buffer.length < 2 ^ 32) (hk : k < 2 ^ 31)
    (hrc : line.renderCursor ≤ k) (hpos : pos ≤ k) :
    Ends (fun f => f = .assertion .charWidth ∧ ∃ c ∈ line.buffer.take k, P.ucwidth c = -1)
      (fun _ => True) (modeSteps P mode pos line) := by
  cases mode with
  | off => exact .ok trivial
  | obscured => exact .ok trivial
  | on =>
    have hdir : (int32 (int32 pos - int32 line.renderCursor) > 0) ↔ line.renderCursor < pos := by
      rw [int32_sub, int32_of_lt (by omega) (by omega)]
      omega
    refine stepCursor_within hlen hsmall hrc hpos ?_ ?_ (by omega) 0
    · intro hfwd
      exact Nat.le_of_lt (hdir.mp (of_decide_eq_true hfwd))
    · intro hback
      exact Nat.le_of_not_lt fun hlt => of_decide_eq_false hback (hdir.mpr hlt)

end Steps

/-! ### Positions -/

/-- `cursor_pos.row * cols + cursor_pos.col` -/
def Render.linear (r : Render) : Int := r.cursorPos.row * r.termSize.col + r.cursorPos.col

/-- A linear offset is kept as long as the position it leads to is one. -/
theorem linearOffsetTo2d_linear {size origin location : Pos2d} {pos width : Int}
    (hpos : int32 pos = int32 width)
    (hle : 0 ≤ (origin.row * size.col + origin.col : Int) + width)
    (hlt : (origin.row * size.col + origin.col : Int) + width < 2 ^ 31)
    (h : linearOffsetTo2d size origin pos = .ok location) :
    (location.row * size.col + location.col : Int) =
      (origin.row * size.col + origin.col : Int) + width := by
  unfold linearOffsetTo2d at h
  generalize hlinear : (origin.row * size.col + origin.col : Int) = linear at *
  have hnonneg : 0 ≤ linear := hlinear ▸ by positivity
  have hsum : int32 (int32 linear + pos) = linear + width := by
    rw [int32_add, Int.add_comm, ← int32_add, hpos, int32_add, Int.add_comm]
    exact int32_of_lt (by omega) hlt
  dsimp only at h
  rw [hsum, if_neg (Int.not_lt.mpr hle)] at h
  split at h
  · cases h
  · obtain rfl := Except.ok.inj h
    obtain ⟨n, hn⟩ := Int.eq_ofNat_of_zero_le hle
    rw [hn, Int.toNat_natCast]
    exact_mod_cast Nat.div_add_mod' n size.col

/-- Scrolling moves the cursor and the line's first cell by the same rows. -/
theorem Render.scrolledUp_linear (r : Render) (hrow : (r.cursorPos.row : Int) < 2 ^ 31)
    (hpos : 0 < r.termSize.row) (hlt : r.termSize.row < 2 ^ 31) :
    ∃ cursorPos scrolled, r.scrolledUp = { r with cursorPos, scrolled } ∧ r.scrolled ≤ scrolled ∧
      r.scrolledUp.linear + r.termSize.col * scrolled = r.linear + r.termSize.col * r.scrolled := by
  unfold Render.scrolledUp
  rw [int32_of_lt (by omega) (by omega)]
  dsimp only
  split
  · exact ⟨r.cursorPos, r.scrolled, rfl, Nat.le_refl _, rfl⟩
  · rename_i hscroll
    refine ⟨_, _, rfl, Nat.le_add_right _ _, ?_⟩
    obtain ⟨k, hk⟩ : ∃ k : Nat, r.cursorPos.row = r.termSize.row - 1 + k :=
      ⟨r.cursorPos.row - (r.termSize.row - 1), by omega⟩
    have hrow' : uint32 (r.cursorPos.row - (r.cursorPos.row - r.termSize.row + 1 : Int)) =
        r.termSize.row - 1 := by
      unfold uint32
      omega
    have hk' : (r.cursorPos.row - r.termSize.row + 1 : Int).toNat = k := by omega
    rw [hrow', hk', Render.linear, Render.linear, hk]
    push_cast
    ring

/-! ### The books -/

/-- What `nrl_render_init` has found: the terminal's dimensions, and where the line
starts. -/
structure Frame where
  mode : EchoMode
  size : Pos2d
  origin : Int
  visible : mode ≠ .off
  rows_pos : 0 < size.row
  rows_lt : size.row < 2 ^ 31
  cols_pos : 0 < size.col

namespace Frame

variable (f : Frame) (P : Platform)

/-- Where the line's first cell is now, which is above the screen if negative. -/
def firstCell (s : Screen) : Int := f.origin - f.size.col * s.render.scrolled

/-- The books have the cursor behind `text`. -/
structure Placed (text : List Uchar) (s : Screen) : Prop where
  echoMode : s.render.echoMode = f.mode
  termSmart : s.render.termSmart = true
  resizeFlag : s.render.resizeFlag = false
  termSize : s.render.termSize = f.size
  complete : s.WritesComplete
  linear : s.render.linear = f.firstCell s + textWidth P f.mode text

/-- The line is on the screen, or would be if the screen had rows enough below: no
character moves the cursor back, the first cell is not above the screen, and
positions and counts fit their types. -/
structure Fits (e : Editor) : Prop where
  widths : ∀ c ∈ e.line.buffer, 0 ≤ cellWidth P f.mode c
  count : e.line.buffer.length + 1 < 2 ^ 32
  top : 0 ≤ f.firstCell e.screen
  bottom : f.firstCell e.screen + textWidth P f.mode e.line.buffer < 2 ^ 31

instance (e : Editor) : Decidable (f.Fits P e) :=
  decidable_of_iff ((e.line.buffer.all fun c => decide (0 ≤ cellWidth P f.mode c)) = true ∧
      e.line.buffer.length + 1 < 2 ^ 32 ∧ 0 ≤ f.firstCell e.screen ∧
      f.firstCell e.screen + textWidth P f.mode e.line.buffer < 2 ^ 31)
    ⟨fun ⟨hwidths, hcount, htop, hbottom⟩ => ⟨by simpa using hwidths, hcount, htop, hbottom⟩,
      fun h => ⟨by simpa using h.widths, h.count, h.top, h.bottom⟩⟩

/-- **The invariant.** The render cursor is never behind the cursor, and the books
have the terminal's cursor behind the text before it. -/
structure Books (e : Editor) : Prop where
  placed : f.Placed P (e.line.buffer.take e.line.renderCursor) e.screen
  renderCursor_le : e.line.renderCursor ≤ e.line.cursor
  cursor_le : e.line.cursor ≤ e.line.buffer.length

variable {f P}

/-- All that drawing changes is where the cursor is, how wide the line was last and
how far the screen has scrolled. -/
theorem Placed.shifted {text text' : List Uchar} {s s' : Screen} (h : f.Placed P text s)
    {lastRenderedWidth scrolled : Nat} {cursorPos : Pos2d}
    (hrender : s'.render = { s.render with lastRenderedWidth, cursorPos, scrolled })
    (hcomplete : s'.WritesComplete)
    (hlinear : (cursorPos.row * f.size.col + cursorPos.col : Int) =
      f.origin - f.size.col * scrolled + textWidth P f.mode text') : f.Placed P text' s' := by
  have hsize : s'.render.termSize = f.size := by
    rw [hrender]
    exact h.termSize
  refine ⟨?_, ?_, ?_, hsize, hcomplete, ?_⟩
  · rw [hrender]
    exact h.echoMode
  · rw [hrender]
    exact h.termSmart
  · rw [hrender]
    exact h.resizeFlag
  · rw [Render.linear, firstCell, hsize, hrender]
    exact hlinear

theorem Placed.of_render {text : List Uchar} {s s' : Screen} (h : f.Placed P text s)
    (hrender : s'.render = s.render) (hcomplete : s'.WritesComplete) : f.Placed P text s' := by
  have hlinear := h.linear
  rw [Render.linear, h.termSize] at hlinear
  exact h.shifted hrender hcomplete hlinear

theorem Placed.outputs {text : List Uchar} {s s' : Screen} (h : f.Placed P text s)
    (hout : s.Outputs s') : f.Placed P text s' :=
  h.of_render hout.render (hout.complete h.complete)

/-- Scrolling takes the first cell up. -/
theorem firstCell_le {s s' : Screen} (h : s.render.scrolled ≤ s'.render.scrolled) :
    f.firstCell s' ≤ f.firstCell s := by
  have hmul : (f.size.col * s.render.scrolled : Int) ≤ f.size.col * s'.render.scrolled := by
    exact_mod_cast Nat.mul_le_mul_left _ h
  rw [firstCell, firstCell]
  omega

theorem scrolled_of_reaches {steps : Steps} {pos : Nat} {e e' : Editor}
    (h : Reaches steps pos e e') : e'.screen.render.scrolled = e.screen.render.scrolled := by
  obtain ⟨renderCursor, location, moved, h⟩ := h
  have hrender := h.moves.render
  cases moved <;> rw [show e'.screen.render = _ from hrender] <;> rfl

/-- The render cursor has been moved from one place of the line to another. -/
theorem Placed.reaches {e e' : Editor} (h : f.Placed P (e.line.buffer.take e.line.renderCursor) e.screen)
    (hlen : e.line.buffer.length < 2 ^ 32) (hle : e.line.renderCursor ≤ e.line.buffer.length)
    {pos : Nat} (hpos : pos ≤ e.line.buffer.length)
    (htop : 0 ≤ f.firstCell e.screen + textWidth P f.mode (e.line.buffer.take pos))
    (hbottom : f.firstCell e.screen + textWidth P f.mode (e.line.buffer.take pos) < 2 ^ 31)
    (hreach : Reaches (modeSteps P f.mode) pos e e') :
    e'.line = { e.line with renderCursor := pos } ∧
      f.Placed P (e.line.buffer.take pos) e'.screen := by
  obtain ⟨renderCursor, location, moved, ⟨moveWidth, hsteps, hlocation⟩, hline, hmoves⟩ := hreach
  obtain ⟨rfl, rfl⟩ := modeSteps_ok f.visible hlen hle hpos hsteps
  obtain ⟨hmoved, hcomplete⟩ := hmoves.complete h.complete
  have hrender := hmoves.render
  rw [if_pos hmoved] at hrender
  dsimp only at hrender
  have hlinear := h.linear
  rw [Render.linear] at hlinear
  have hto := linearOffsetTo2d_linear (int32_int32 _) (by rw [hlinear]; omega)
    (by rw [hlinear]; omega) hlocation
  refine ⟨hline, h.shifted hrender hcomplete ?_⟩
  rw [hlinear, h.termSize, firstCell] at hto
  omega

/-- The line has been drawn from its first cell on, and the screen has scrolled if
it had to. -/
theorem Placed.draws {text : List Uchar} {s s' : Screen} (h : f.Placed P [] s)
    (hnonneg : 0 ≤ textWidth P f.mode text) (htop : 0 ≤ f.firstCell s)
    (hbottom : f.firstCell s + textWidth P f.mode text < 2 ^ 31)
    (hdraws : Draws (textWidth P f.mode text) s s') :
    f.Placed P text s' ∧ s.render.scrolled ≤ s'.render.scrolled := by
  obtain ⟨⟨cursorPos, hcursor, hrender⟩, hcomplete⟩ := hdraws
  have hlinear := h.linear
  rw [Render.linear, textWidth_nil, Int.add_zero] at hlinear
  have hto := linearOffsetTo2d_linear rfl (by rw [hlinear]; omega) (by rw [hlinear]; omega) hcursor
  rw [hlinear] at hto
  have hrow : (cursorPos.row : Int) < 2 ^ 31 := by
    have hcols : (1 : Int) ≤ s.render.termSize.col := by
      rw [h.termSize]
      exact_mod_cast f.cols_pos
    have hmul : (cursorPos.row : Int) * 1 ≤ cursorPos.row * s.render.termSize.col :=
      Int.mul_le_mul_of_nonneg_left hcols (Int.natCast_nonneg _)
    omega
  obtain ⟨cursorPos', scrolled, hup, hle, hkept⟩ :=
    Render.scrolledUp_linear { s.render with cursorPos } hrow (h.termSize ▸ f.rows_pos)
      (h.termSize ▸ f.rows_lt)
  rw [hup] at hkept hrender
  simp only [Render.linear] at hkept
  rw [h.termSize] at hkept hto
  dsimp only at hrender
  refine ⟨h.shifted hrender (hcomplete h.complete) ?_, ?_⟩
  · rw [firstCell] at hto
    omega
  · rw [hrender]
    exact hle

/-! ### One call -/

section Calls

variable {t : Terminfo} {e e' : Editor}

/-- Moving the cursor of a line to `cursor` and synchronising. -/
theorem Books.sync (h : f.Books P e) (hfits : f.Fits P e) {cursor : Nat}
    (hcursor : cursor ≤ e.line.buffer.length)
    (hsync : nrlRenderSyncCursors P t { e with line := { e.line with cursor } } = .ok e') :
    f.Books P e' ∧ e'.line = { e.line with cursor, renderCursor := cursor } := by
  have hsyncs := nrlRenderSyncCursors_ok P t hsync
  have hmode := h.placed.echoMode
  obtain ⟨e₁, hreach, hline, hout⟩ := hsyncs.reaches (by rw [hmode]; exact f.visible)
  rw [hmode] at hreach
  have hwidth := textWidth_take hfits.widths cursor
  have htop := hfits.top
  have hbottom := hfits.bottom
  obtain ⟨hline₁, hplaced⟩ := h.placed.reaches (e := { e with line := { e.line with cursor } })
    (Nat.lt_of_succ_lt hfits.count) (h.renderCursor_le.trans h.cursor_le) hcursor
    (by dsimp only; omega) (by dsimp only; omega) hreach
  have hline' : e'.line = { e.line with cursor, renderCursor := cursor } := hline.trans hline₁
  refine ⟨⟨?_, ?_, ?_⟩, hline'⟩
  · rw [hline']
    exact hplaced.outputs hout
  · rw [hline']
  · rw [hline']
    exact hcursor

/-- Text goes in behind what is drawn. -/
theorem Books.insert (h : f.Books P e) {text : List Uchar}
    (hinsert : nrlManipInsertText P text e = .ok e') : f.Books P e' := by
  rw [nrlManipInsertText_eq P text h.cursor_le] at hinsert
  obtain rfl := Except.ok.inj hinsert
  have hcursor := h.cursor_le
  refine ⟨?_, Nat.le_add_right_of_le h.renderCursor_le, ?_⟩
  · dsimp only
    rw [List.append_assoc, List.take_append_of_le_length
      (by rw [List.length_take_of_le hcursor]; exact h.renderCursor_le),
      List.take_take, Nat.min_eq_left h.renderCursor_le]
    exact h.placed
  · dsimp only
    rw [List.length_append, List.length_append, List.length_take_of_le hcursor]
    omega

/-- The character that goes is behind what is drawn. -/
theorem Books.delete (h : f.Books P e) (hdelete : escapeDelete P e = .ok e') : f.Books P e' := by
  rw [escapeDelete_eq] at hdelete
  obtain rfl := Except.ok.inj hdelete
  split
  · rename_i hlt
    refine ⟨?_, h.renderCursor_le, ?_⟩
    · dsimp only
      rw [List.take_eraseIdx_eq_take_of_le _ _ _ h.renderCursor_le]
      exact h.placed
    · dsimp only
      rw [List.length_eraseIdx_of_lt hlt]
      omega
  · exact h

/-- A line that is drawn on the screen it fits on: the three moves of a redraw. -/
theorem Placed.ofLine (hwidth : P.WidthLaw)
    (h : f.Placed P (e.line.buffer.take e.line.renderCursor) e.screen)
    (hle : e.line.renderCursor ≤ e.line.buffer.length)
    (hcursor : e.line.cursor ≤ e.line.buffer.length) (hfits : f.Fits P e)
    (htop' : 0 ≤ f.firstCell e'.screen)
    (hline : Draws.OfLine (modeSteps P f.mode) (drawnWidth P f.mode)
      { e with line := { e.line with buffer := e.line.buffer ++ [0] } } e') :
    f.Placed P (e.line.buffer.take e.line.cursor) e'.screen ∧
      e'.line.renderCursor = e.line.cursor := by
  obtain ⟨e₁, s₂, s₃, hstart, hout, hdraws, hend⟩ := hline
  have hlen : (e.line.buffer ++ [0]).length < 2 ^ 32 := by
    rw [List.length_append]
    exact hfits.count
  have hlast : (e.line.buffer ++ [0]).length - 1 = e.line.buffer.length := by simp
  have htake : ∀ n ≤ e.line.buffer.length, (e.line.buffer ++ [0]).take n = e.line.buffer.take n :=
    fun n hn => List.take_append_of_le_length hn
  have htop := hfits.top
  have hbottom := hfits.bottom
  have hnonneg := textWidth_nonneg hfits.widths
  -- to the first cell
  rw [← htake _ hle] at h
  obtain ⟨-, hplaced₁⟩ := h.reaches
    (e := { e with line := { e.line with buffer := e.line.buffer ++ [0] } }) hlen
    (by rw [List.length_append]; exact Nat.le_add_right_of_le hle) (Nat.zero_le _)
    (by rw [List.take_zero, textWidth_nil]; dsimp only; omega)
    (by rw [List.take_zero, textWidth_nil]; dsimp only; omega) hstart
  have hplaced₂ := hplaced₁.outputs hout
  have hfirst₂ : f.firstCell s₂ = f.firstCell e.screen := by
    rw [firstCell, hout.render, scrolled_of_reaches hstart]
    rfl
  -- over the line
  dsimp only at hdraws
  rw [hlast, htake _ (Nat.le_refl _), List.take_length,
    drawnWidth_eq hwidth f.visible hfits.widths] at hdraws
  obtain ⟨hplaced₃, hscrolled₃⟩ :=
    hplaced₂.draws hnonneg (hfirst₂ ▸ htop) (hfirst₂ ▸ hbottom) hdraws
  have hfirst₃ := firstCell_le (f := f) hscrolled₃
  -- to the cursor
  have hfirst₄ : f.firstCell e'.screen = f.firstCell s₃ := by
    rw [firstCell, scrolled_of_reaches hend, firstCell]
  have hwidth' := textWidth_take hfits.widths e.line.cursor
  dsimp only at hend
  rw [hlast] at hend
  obtain ⟨hline₄, hplaced₄⟩ := Placed.reaches (e := { line := { e.line with
      buffer := e.line.buffer ++ [0], renderCursor := e.line.buffer.length }, screen := s₃ })
    (by dsimp only; rw [htake _ (Nat.le_refl _), List.take_length]; exact hplaced₃) hlen
    (by simp) (by simp; omega)
    (by dsimp only; rw [htake _ hcursor]; omega) (by dsimp only; rw [htake _ hcursor]; omega) hend
  dsimp only at hplaced₄
  rw [htake _ hcursor] at hplaced₄
  exact ⟨hplaced₄, by rw [hline₄]⟩

theorem Books.redraw (hwidth : P.WidthLaw) (h : f.Books P e) (hfits : f.Fits P e)
    (hredraw : nrlRenderRedraw P t e = .ok e') (hfits' : f.Fits P e') :
    f.Books P e' ∧ e'.line.renderCursor = e'.line.cursor := by
  have hredraws := nrlRenderRedraw_ok P t hredraw
  have hmode := h.placed.echoMode
  obtain ⟨e₁, hline, hrc, hrender, hcomplete⟩ :=
    Redraws.drawn P t hredraws h.placed.resizeFlag h.placed.termSmart (by rw [hmode]; exact f.visible)
  rw [hmode] at hline
  have htop : 0 ≤ f.firstCell e₁.screen := by
    have htop' := hfits'.top
    rw [firstCell, hrender] at htop'
    exact htop'
  obtain ⟨hplaced, hcursor⟩ := h.placed.ofLine hwidth (h.renderCursor_le.trans h.cursor_le)
    h.cursor_le hfits htop hline
  have hrc' : e'.line.renderCursor = e'.line.cursor := by
    rw [hrc, hcursor, hredraws.text.cursor]
  have hrender' : e'.screen.render = e₁.screen.render := by
    have hresize := hplaced.resizeFlag
    rw [hrender, ← hresize]
  refine ⟨⟨?_, Nat.le_of_eq hrc', ?_⟩, hrc'⟩
  · rw [hrc', hredraws.text.cursor, hredraws.text.buffer]
    exact hplaced.of_render hrender' (hcomplete hplaced.complete)
  · rw [hredraws.text.cursor, hredraws.text.buffer]
    exact h.cursor_le

theorem Books.key (h : f.Books P e) (hfits : f.Fits P e) {key : TerminfoInput}
    (hkey : nrlManipEvalEscape P t key.id e = .ok e') : f.Books P e' := by
  have hcursor := h.cursor_le
  have hleft : ∀ {e'}, escapeLeft P t e = .ok e' → f.Books P e' := by
    intro e' hleft
    rw [escapeLeft] at hleft
    split at hleft
    · exact (h.sync hfits (by omega) hleft).1
    · exact Except.ok.inj hleft ▸ h
  rw [nrlManipEvalEscape_key] at hkey
  cases key with
  | keyLeft => exact hleft hkey
  | keyRight =>
    dsimp only at hkey
    rw [escapeRight] at hkey
    split at hkey
    · rename_i hlt
      exact (h.sync hfits hlt hkey).1
    · exact Except.ok.inj hkey ▸ h
  | keyBackspace =>
    dsimp only at hkey
    rw [escapeBackspace] at hkey
    split at hkey
    · obtain ⟨e₁, hmove, hdelete⟩ := Run.bind_eq_ok.mp hkey
      exact (hleft hmove).delete hdelete
    · exact Except.ok.inj hkey ▸ h
  | keyDelete => exact h.delete hkey
  | keyHome => exact (h.sync hfits (Nat.zero_le _) hkey).1
  | keyEnd => exact (h.sync hfits (Nat.le_refl _) hkey).1

end Calls

end Frame

/-! ### Handlers -/

namespace EscapeHandler

variable (P : Platform) (handler : EscapeHandler) (line : LineData)

/-- The cursor the handler returns is within the line it returns. -/
def Within : Prop :=
  match handler.func with
  | .utf32 func =>
    let (text, cursor) := func (cstr line.buffer) line.cursor handler.id
    cursor ≤ (cstr text).length
  | .utf8 func =>
    let (text, cursor) := func (P.utf8Encode (cstr line.buffer))
      (P.utf8Encode (cstr (line.buffer.take line.cursor))).length handler.id
    cursor ≤ (cstr text).length

/-- The bytes before the cursor the handler returns are well formed, or decode to
fewer characters than the line. -/
def CutsWell : Prop :=
  match handler.func with
  | .utf32 _ => True
  | .utf8 func =>
    let (text, cursor) := func (P.utf8Encode (cstr line.buffer))
      (P.utf8Encode (cstr (line.buffer.take line.cursor))).length handler.id
    let (ucBeforeCursor, errorFlag) := P.utf8Decode ((cstr text).take cursor)
    errorFlag = true → ucBeforeCursor.length < (P.utf8Decode (cstr text)).1.length

instance : Decidable (handler.Within P line) :=
  match handler with
  | ⟨_, .utf32 _⟩ => inferInstanceAs (Decidable (_ ≤ _))
  | ⟨_, .utf8 _⟩ => inferInstanceAs (Decidable (_ ≤ _))

instance : Decidable (handler.CutsWell P line) :=
  match handler with
  | ⟨_, .utf32 _⟩ => inferInstanceAs (Decidable True)
  | ⟨_, .utf8 _⟩ => inferInstanceAs (Decidable (_ = true → _ < _))

end EscapeHandler

/-- Backtracking does not move the cursor forward. -/
theorem adjustCursor_le {ucLine ucBeforeCursor : List Uchar} {adjust k : Nat}
    (h : adjustCursor ucLine ucBeforeCursor adjust = .ok k) : k ≤ adjust := by
  induction adjust with
  | zero =>
    obtain ⟨c, -, h⟩ := Run.bind_eq_ok.mp h
    obtain ⟨d, -, h⟩ := Run.bind_eq_ok.mp h
    split at h
    · cases h
    · exact Nat.le_of_eq (Except.ok.inj h).symm
  | succ adjust ih =>
    obtain ⟨c, -, h⟩ := Run.bind_eq_ok.mp h
    obtain ⟨d, -, h⟩ := Run.bind_eq_ok.mp h
    split at h
    · exact Nat.le_succ_of_le (ih h)
    · exact Nat.le_of_eq (Except.ok.inj h).symm

theorem importUtf8_cursor {P : Platform} (hdecode : P.DecodeLaw) {text : List Byte} {k : Nat}
    (hcut : (P.utf8Decode ((cstr text).take k)).2 = true →
      (P.utf8Decode ((cstr text).take k)).1.length < (P.utf8Decode (cstr text)).1.length)
    {buffer : List Uchar} {cursor : Nat} (h : importUtf8 P text k = .ok (buffer, cursor)) :
    cursor ≤ buffer.length := by
  rw [importUtf8] at h
  dsimp only at h
  split at h
  · cases h
  · split at h
    · rename_i herror
      obtain ⟨adjust, hadjust, h⟩ := Run.bind_eq_ok.mp h
      obtain ⟨rfl, rfl⟩ := Prod.mk.inj (Except.ok.inj h)
      exact Nat.lt_of_le_of_lt (adjustCursor_le hadjust) (hcut herror)
    · rename_i herror
      obtain ⟨rfl, rfl⟩ := Prod.mk.inj (Except.ok.inj h)
      have happend := hdecode ((cstr text).take k) ((cstr text).drop k) (by simpa using herror)
      rw [List.take_append_drop] at happend
      rw [happend, List.length_append]
      exact Nat.le_add_right _ _

/-- The cursor a handler's answer is turned into is within the line. -/
theorem callHandler_cursor {P : Platform} (hdecode : P.DecodeLaw) {handler : EscapeHandler}
    {line : LineData} (hwithin : handler.Within P line) (hcut : handler.CutsWell P line)
    {buffer : List Uchar} {cursor : Nat}
    (h : callHandler P handler line.buffer line.cursor = .ok (buffer, cursor)) :
    cursor ≤ buffer.length := by
  obtain ⟨id, func⟩ := handler
  cases func with
  | utf32 func =>
    obtain ⟨rfl, rfl⟩ := Prod.mk.inj (Except.ok.inj h)
    exact hwithin
  | utf8 func =>
    rw [callHandler] at h
    dsimp only at h
    split at h
    · cases h
    · exact importUtf8_cursor hdecode hcut h

/-! ### Runs -/

/-- What the loop of `nanorl` does with a line: an edit or a drawing, or a custom key
with the handlers it meets. -/
inductive CursorOp
  | edit (op : EditOp)
  | custom (table : EscapeTable) (escape : Nat)

/-- What holds of every call but a redraw. -/
@[elab_as_elim] theorem CursorOp.of_ne {motive : CursorOp → Prop} {op : CursorOp} (hop : op ≠ .edit .redraw)
    (custom : ∀ table escape, motive (.custom table escape)) (insert : ∀ text, motive (.edit (.insert text)))
    (escape : ∀ key, motive (.edit (.escape key))) (sync : motive (.edit .sync)) : motive op := by
  cases op with
  | custom table key => exact custom table key
  | edit op =>
    cases op with
    | insert text => exact insert text
    | escape key => exact escape key
    | redraw => exact absurd rfl hop
    | sync => exact sync

def CursorOp.perform (P : Platform) (t : Terminfo) : CursorOp → Editor → Except Fault Editor
  | .edit op, e => op.perform P t e
  | .custom table escape, e => do
      let (_, e) ← nrlManipEvalCustom P t table escape e
      pure e

/-- After these the render cursor has caught up with the cursor. -/
def CursorOp.Draws : CursorOp → Prop
  | .edit .redraw | .edit .sync => True
  | _ => False

/-- A handler that is called returns a cursor within its line, and cuts the line
between two characters if it cuts it at all. -/
def CursorOp.HandlerWell (P : Platform) : CursorOp → Editor → Prop
  | .edit _, _ => True
  | .custom table escape, e => ∀ handler, table escape = some handler →
      handler.Within P e.line ∧ handler.CutsWell P e.line

instance (P : Platform) : ∀ (op : CursorOp) (e : Editor), Decidable (op.HandlerWell P e)
  | .edit _, _ => inferInstanceAs (Decidable True)
  | .custom table escape, e =>
    match h : table escape with
    | none => isTrue fun _ hhandler => nomatch h.symm.trans hhandler
    | some handler =>
      decidable_of_iff (handler.Within P e.line ∧ handler.CutsWell P e.line)
        ⟨fun hwell _ hhandler => Option.some.inj (h.symm.trans hhandler) ▸ hwell,
          fun hwell => hwell handler h⟩

namespace Frame

variable {f : Frame} {P : Platform} {t : Terminfo} {e e' : Editor}

theorem Books.custom (hdecode : P.DecodeLaw) (h : f.Books P e) (hfits : f.Fits P e)
    {table : EscapeTable} {escape : Nat}
    (hwell : (CursorOp.custom table escape).HandlerWell P e)
    (hcustom : (CursorOp.custom table escape).perform P t e = .ok e') : f.Books P e' := by
  obtain ⟨⟨handled, e₂⟩, heval, hpure⟩ := Run.bind_eq_ok.mp hcustom
  obtain rfl := Except.ok.inj hpure
  rw [nrlManipEvalCustom] at heval
  split at heval
  · obtain ⟨rfl, rfl⟩ := Prod.mk.inj (Except.ok.inj heval)
    exact h
  · rename_i handler hhandler
    obtain ⟨hwithin, hcut⟩ := hwell handler hhandler
    obtain ⟨e₁, hsync, heval⟩ := Run.bind_eq_ok.mp heval
    obtain ⟨⟨buffer, cursor⟩, hcall, heval⟩ := Run.bind_eq_ok.mp heval
    obtain ⟨rfl, rfl⟩ := Prod.mk.inj (Except.ok.inj heval)
    obtain ⟨hbooks, hline⟩ := h.sync hfits (Nat.zero_le _) hsync
    rw [hline] at hcall
    have hplaced := hbooks.placed
    rw [hline] at hplaced ⊢
    exact ⟨hplaced, Nat.zero_le _, callHandler_cursor hdecode hwithin hcut hcall⟩

/-- The step: every call keeps the books. -/
theorem Books.perform (hwidth : P.WidthLaw) (hdecode : P.DecodeLaw) (h : f.Books P e)
    (hfits : f.Fits P e) {op : CursorOp} (hwell : op.HandlerWell P e)
    (hop : op.perform P t e = .ok e') (hfits' : f.Fits P e') :
    f.Books P e' ∧ (op.Draws → e'.line.renderCursor = e'.line.cursor) := by
  cases op with
  | custom table escape => exact ⟨h.custom hdecode hfits hwell hop, False.elim⟩
  | edit op =>
    cases op with
    | insert text => exact ⟨h.insert hop, False.elim⟩
    | escape key => exact ⟨h.key hfits hop, False.elim⟩
    | redraw =>
      obtain ⟨hbooks, hcursor⟩ := h.redraw hwidth hfits hop hfits'
      exact ⟨hbooks, fun _ => hcursor⟩
    | sync =>
      obtain ⟨hbooks, hline⟩ := h.sync hfits h.cursor_le hop
      exact ⟨hbooks, fun _ => by rw [hline]⟩

/-- A handler that is called answers well, and the line fits afterwards. -/
def Allows (f : Frame) (P : Platform) (t : Terminfo) (op : CursorOp) (e : Editor) : Prop :=
  op.HandlerWell P e ∧ ∀ e', op.perform P t e = .ok e' → f.Fits P e'

instance (f : Frame) (P : Platform) (t : Terminfo) (op : CursorOp) (e : Editor) :
    Decidable (f.Allows P t op e) :=
  inferInstanceAs (Decidable (_ ∧ ∀ e', op.perform P t e = .ok e' → f.Fits P e'))

/-- The line a call of `nanorl` starts with. -/
theorem books_emptyLine {s s₀ : Screen} (h : Opens t f.mode s s₀)
    (hsmart : nrlTermIsSmart t = true) (hresize : s.render.resizeFlag = false)
    (hsize : s₀.render.termSize = f.size) (horigin : s₀.render.linear = f.origin)
    (hcomplete : s₀.WritesComplete) : f.Books P { line := emptyLine, screen := s₀ } := by
  refine ⟨⟨h.echoMode, h.termSmart.trans hsmart, h.resizeFlag.trans hresize, hsize, hcomplete, ?_⟩,
    Nat.le_refl _, Nat.le_refl _⟩
  show s₀.render.linear = f.origin - f.size.col * s₀.render.scrolled + 0
  rw [horigin, h.scrolled]
  simp

end Frame

/-- **The books are right.** In every state a run of edits, handlers and drawing
reaches, the cursors are in order and the terminal's cursor is behind the text
before the render cursor; redraws and synchronisations end with the cursors
together, and a move to position 0 on the line's first cell. -/
theorem cursor_books {P : Platform} (hwidth : P.WidthLaw) (hdecode : P.DecodeLaw) {t : Terminfo}
    (f : Frame) {echoFile : Int} {s s₀ : Screen}
    (hinit : nrlRenderInit P t f.mode echoFile s = .ok (true, s₀))
    (hsmart : nrlTermIsSmart t = true) (hresize : s.render.resizeFlag = false)
    (hsize : s₀.render.termSize = f.size) (horigin : s₀.render.linear = f.origin)
    (hcomplete : s₀.WritesComplete) (hfits : f.Fits P { line := emptyLine, screen := s₀ })
    {ops : List CursorOp} (hallows : Run.Guarded (CursorOp.perform P t) (f.Allows P t) ops
      { line := emptyLine, screen := s₀ })
    {e : Editor} (hrun : Run.exec (CursorOp.perform P t) ops
      { line := emptyLine, screen := s₀ } = .ok e) :
    e.line.renderCursor ≤ e.line.cursor ∧ e.line.cursor ≤ e.line.buffer.length ∧
      e.screen.render.linear = f.firstCell e.screen +
        textWidth P f.mode (e.line.buffer.take e.line.renderCursor) ∧
      (∀ (op : CursorOp) (e' : Editor), op.Draws → op.perform P t e = .ok e' → f.Fits P e' →
        e'.line.renderCursor = e'.line.cursor) ∧
      ∀ e', moveByMode P t 0 e = .ok e' →
        e'.line.renderCursor = 0 ∧ e'.screen.render.linear = f.firstCell e'.screen := by
  have hstart : f.Books P { line := emptyLine, screen := s₀ } ∧
      f.Fits P { line := emptyLine, screen := s₀ } :=
    ⟨Frame.books_emptyLine (nrlRenderInit_ok P t hinit) hsmart hresize hsize
      horigin hcomplete, hfits⟩
  obtain ⟨hbooks, hfits⟩ := Run.exec_guarded (I := fun e => f.Books P e ∧ f.Fits P e)
    (fun op e e' hI hC hop =>
      ⟨(hI.1.perform hwidth hdecode hI.2 hC.1 hop (hC.2 e' hop)).1, hC.2 e' hop⟩)
    hstart hallows hrun
  refine ⟨hbooks.renderCursor_le, hbooks.cursor_le, hbooks.placed.linear, ?_, ?_⟩
  · intro op e' hdraws hop hfits'
    -- no handler draws
    have hwell : op.HandlerWell P e := by
      cases op with
      | edit op => trivial
      | custom table escape => exact hdraws.elim
    exact (hbooks.perform hwidth hdecode hfits hwell hop hfits').2 hdraws
  · intro e' hmove
    have hmode := hbooks.placed.echoMode
    have hreach := (moveByMode_ok P t hmove).reaches (by rw [hmode]; exact f.visible)
    rw [hmode] at hreach
    have htop := hfits.top
    have hbottom := hfits.bottom
    have hnonneg := textWidth_nonneg hfits.widths
    obtain ⟨hline, hplaced⟩ := hbooks.placed.reaches (Nat.lt_of_succ_lt hfits.count)
      (hbooks.renderCursor_le.trans hbooks.cursor_le) (Nat.zero_le _)
      (by rw [List.take_zero, textWidth_nil]; omega)
      (by rw [List.take_zero, textWidth_nil]; omega) hreach
    rw [List.take_zero] at hplaced
    refine ⟨by rw [hline], ?_⟩
    rw [hplaced.linear, textWidth_nil, Int.add_zero]

/-- An xterm of 24 rows and 80 columns with its cursor in the second row. -/
def xtermScreen : Screen where
  render := staticRender
  io := { staticIo with
    readFile := 0
    echoFile := 1
    echoEnabled := true
    world := { idleWorld with
      isTty := true
      reads := [.data (ascii "\x1b[2;1R")]
      winsizes := [some (24, 80)] } }

def xtermFrame : Frame where
  mode := .on
  size := ⟨24, 80⟩
  origin := 80
  visible := by decide
  rows_pos := by decide
  rows_lt := by decide
  cols_pos := by decide

/-- A handler that answers with the line `é` and a cursor at byte `k` of it. -/
def accentTable (k : Nat) : EscapeTable :=
  fun _ => some { id := 0, func := .utf8 fun _ _ _ => ([0xc3, 0xa9], k) }

/-- Text, a redraw and this handler. -/
def accentOps (k : Nat) : List CursorOp :=
  [.edit (.insert [97]), .edit .redraw, .custom (accentTable k) 0]

/-- The handler puts the cursor behind its line. -/
theorem cursor_books_xterm :
    ∃ s₀ e, nrlRenderInit referencePlatform xtermTerminfo .on 1 xtermScreen = .ok (true, s₀) ∧
      Run.exec (CursorOp.perform referencePlatform xtermTerminfo) (accentOps 2)
        { line := emptyLine, screen := s₀ } = .ok e ∧
      e.line.renderCursor ≤ e.line.cursor ∧ e.line.cursor ≤ e.line.buffer.length := by
  have hfacts : (nrlRenderInit referencePlatform xtermTerminfo .on 1 xtermScreen).map
      (fun r => decide (r.1 = true ∧ r.2.render.termSize = ⟨24, 80⟩ ∧ r.2.render.linear = 80 ∧
        r.2.io.world.writes = [] ∧ xtermFrame.Fits referencePlatform ⟨emptyLine, r.2⟩ ∧
        Run.Guarded (CursorOp.perform referencePlatform xtermTerminfo)
          (xtermFrame.Allows referencePlatform xtermTerminfo) (accentOps 2) ⟨emptyLine, r.2⟩ ∧
        (Run.exec (CursorOp.perform referencePlatform xtermTerminfo) (accentOps 2)
          ⟨emptyLine, r.2⟩).isOk = true)) = .ok true := by
    decide +kernel
  obtain ⟨⟨done, s₀⟩, hinit, hfacts⟩ := Run.map_eq_ok.mp hfacts
  obtain ⟨rfl, hsize, horigin, hwrites, hfits, hallows, hok⟩ := of_decide_eq_true hfacts
  obtain ⟨e, hrun⟩ := Run.isOk_iff.mp hok
  obtain ⟨hcursor, hlength, -⟩ := cursor_books referencePlatform_width
    referencePlatform_decode xtermFrame hinit (by decide) rfl hsize horigin
    (fun r hr => absurd (hwrites ▸ hr) List.not_mem_nil) hfits hallows hrun
  exact ⟨s₀, e, hinit, hrun, hcursor, hlength⟩

/-- The handler puts the cursor between the two bytes of its only character: the
cursor ends up behind the line, at 2. -/
theorem cursor_books_splitCharacter :
    (∀ handler ∈ accentTable 1 0, ∀ line, handler.Within referencePlatform line) ∧
    (nrlRenderInit referencePlatform xtermTerminfo .on 1 xtermScreen >>= fun r =>
        Run.exec (CursorOp.perform referencePlatform xtermTerminfo) (accentOps 1)
          { line := emptyLine, screen := r.2 }).map (fun e => (e.line.buffer, e.line.cursor)) =
      .ok ([0xe9], 2) := by
  refine ⟨?_, by decide +kernel⟩
  intro handler hhandler line
  obtain rfl := Option.some.inj hhandler
  show 1 ≤ (cstr [(0xc3 : Byte), 0xa9]).length
  decide

end Nanorl
