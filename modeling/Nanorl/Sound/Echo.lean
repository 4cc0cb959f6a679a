import Nanorl.Sound.Edit
import Nanorl.Sound.Reference

/-!
# Nanorl.Sound.Echo

What reaches the echo file.

`Io.output` is everything that has been written through the echo side: what the file
has received and what waits in the buffer behind it. Where every write is complete, a
function of `io.c` appends its data to that and does nothing else to the process
(`Io.Sends`), so the layers above never look at the buffer again.

On a terminal that is not smart a redraw prints the text behind `render_cursor`, which
nothing ever moves there (`dumbEcho_iff`).
-/

namespace Nanorl

theorem slice_memcpy_append {α : Type} (mem : Nat → α) (n : Nat) (data : List α) :
    slice (memcpy mem n data) 0 (n + data.length) = slice mem 0 n ++ data := by
  apply List.ext_getElem?
  intro i
  rw [getElem?_slice, Nat.zero_add]
  by_cases hi : i < n
  · rw [List.getElem?_append_left (by rwa [length_slice]), getElem?_slice, if_pos (by omega),
      if_pos hi, memcpy, if_neg (by omega), Nat.zero_add]
  · rw [List.getElem?_append_right (by rw [length_slice]; omega), length_slice]
    split
    · rename_i hlt
      obtain ⟨j, rfl⟩ : ∃ j, i = n + j := ⟨i - n, by omega⟩
      obtain ⟨c, hdata⟩ : ∃ c, data[j]? = some c := ⟨_, List.getElem?_eq_getElem (by omega)⟩
      rw [Nat.add_sub_cancel_left, hdata, memcpy_add mem n j hdata]
    · rw [List.getElem?_eq_none (by omega)]

/-! ### The echo side -/

/-- Everything written to the echo side: what the file has received, then what waits in
the buffer. -/
def Io.output (io : Io) : List Byte := io.world.echoed ++ slice io.wrBuf 0 io.wrCount

/-- The echo side works, and every write to the file is complete. -/
structure Io.Echoing (io : Io) : Prop where
  echoFile : io.echoFile ≠ -1
  echoEnabled : io.echoEnabled = true
  wrCount : io.wrCount ≤ ioBufSize
  complete : io.world.WritesComplete

/-- `io'` is `io` after `data` has been written, and nothing else has happened. -/
structure Io.Sends (data : List Byte) (io io' : Io) : Prop where
  same : ∃ wrBuf wrCount writes echoed, io' = { io with
    wrBuf, wrCount, world := { io.world with writes, echoed } }
  output : io'.output = io.output ++ data
  wrCount : io'.wrCount ≤ ioBufSize
  complete : io'.world.WritesComplete

theorem Io.Sends.echoing {data : List Byte} {io io' : Io} (h : io.Sends data io')
    (hecho : io.Echoing) : io'.Echoing := by
  obtain ⟨wrBuf, wrCount, writes, echoed, hsame⟩ := h.same
  refine ⟨?_, ?_, h.wrCount, h.complete⟩ <;> rw [hsame]
  · exact hecho.echoFile
  · exact hecho.echoEnabled

theorem Io.Sends.trans {data data' : List Byte} {io₁ io₂ io₃ : Io} (h : io₁.Sends data io₂)
    (h' : io₂.Sends data' io₃) : io₁.Sends (data ++ data') io₃ := by
  obtain ⟨_, _, _, _, hsame⟩ := h.same
  obtain ⟨wrBuf, wrCount, writes, echoed, hsame'⟩ := h'.same
  refine ⟨⟨wrBuf, wrCount, writes, echoed, ?_⟩, ?_, h'.wrCount, h'.complete⟩
  · rw [hsame', hsame]
  · rw [h'.output, h.output, List.append_assoc]

theorem Io.Echoing.sends_nil {io : Io} (h : io.Echoing) : io.Sends [] io :=
  ⟨⟨_, _, _, _, rfl⟩, (List.append_nil _).symm, h.wrCount, h.complete⟩

section Output

variable (P : Platform) {io : Io}

/-- A complete write appends to what the file has received. -/
theorem World.write_sends {w : World} (h : w.WritesComplete) (data : List Byte) :
    ∃ writes, w.write data =
        ((data.length : Int), { w with writes, echoed := w.echoed ++ data }) ∧
      ∀ r ∈ writes, r = .complete := by
  unfold World.write
  cases hw : w.writes with
  | nil =>
    refine ⟨[], ?_, fun r hr => absurd hr List.not_mem_nil⟩
    obtain ⟨errno, reads, writes, echoed, stray, isTty, calls, winsizes, attrs, actions⟩ := w
    obtain rfl : writes = [] := hw
    rfl
  | cons r ws =>
    obtain rfl : r = .complete := h r (hw ▸ List.mem_cons_self)
    exact ⟨ws, rfl, fun r hr => h r (hw ▸ List.mem_cons_of_mem _ hr)⟩

theorem nrlIoFlush_sends (h : io.Echoing) :
    ∃ io', nrlIoFlush P io = .ok (true, io') ∧ io.Sends [] io' ∧ io'.wrCount = 0 := by
  unfold nrlIoFlush
  rw [P.assert_of _ (decide_eq_true h.echoFile), Run.ok_bind]
  split
  · rename_i hzero
    exact ⟨io, rfl, h.sends_nil, hzero⟩
  · obtain ⟨writes, hwrite, hcomplete⟩ := World.write_sends h.complete (slice io.wrBuf 0 io.wrCount)
    rw [hwrite, length_slice]
    dsimp only
    rw [if_neg (by simp)]
    refine ⟨_, rfl, ⟨⟨_, _, _, _, rfl⟩, ?_, Nat.zero_le _, hcomplete⟩, rfl⟩
    rw [Io.output, Io.output, List.append_nil]
    exact List.append_nil _

/-- Data that goes into the buffer or, if it is too large for that, past an empty one. -/
theorem bufferData_sends (h : io.Echoing) {data : List Byte}
    (hfit : io.wrCount = 0 ∨ io.wrCount + data.length ≤ ioBufSize) :
    ∃ io', bufferData data io = .ok (true, io') ∧ io.Sends data io' := by
  unfold bufferData
  split
  · rename_i hlarge
    have hzero : io.wrCount = 0 := hfit.resolve_right (by omega)
    obtain ⟨writes, hwrite, hcomplete⟩ := World.write_sends h.complete data
    rw [hwrite]
    refine ⟨{ io with world := { io.world with writes, echoed := io.world.echoed ++ data } }, ?_,
      ⟨_, _, _, _, rfl⟩, ?_, h.wrCount, hcomplete⟩
    · simp
    · rw [Io.output, Io.output, hzero]
      simp [slice]
  · rename_i hsmall
    have hroom : io.wrCount + data.length ≤ ioBufSize := by
      rcases hfit with hzero | hroom
      · omega
      · exact hroom
    rw [if_pos hroom]
    refine ⟨_, rfl, ⟨_, _, _, _, rfl⟩, ?_, hroom, h.complete⟩
    rw [Io.output, Io.output, slice_memcpy_append, List.append_assoc]

/-- The length is added up in 32 bits, so data of nearly that size would overtake what
is in the buffer. -/
theorem nrlIoWrite_sends (h : io.Echoing) {data : List Byte}
    (hlen : io.wrCount = 0 ∨ data.length + ioBufSize < 2 ^ 32) :
    ∃ io', nrlIoWrite P data io = .ok (true, io') ∧ io.Sends data io' := by
  have hcount := h.wrCount
  unfold nrlIoWrite
  rw [if_pos h.echoEnabled]
  split
  · obtain ⟨io₁, hflush, hsends, hzero⟩ := nrlIoFlush_sends P h
    obtain ⟨io₂, hbuffer, hsends₂⟩ := bufferData_sends (hsends.echoing h) (.inl hzero)
    rw [hflush, Run.ok_bind]
    dsimp only
    rw [if_pos rfl]
    exact ⟨io₂, hbuffer, hsends.trans hsends₂⟩
  · rename_i hsmall
    refine bufferData_sends h (hlen.imp_right fun hlen => ?_)
    rw [Nat.mod_eq_of_lt (by omega)] at hsmall
    omega

end Output

/-! ### Screens -/

/-- Output through a screen: its books are as they were. -/
structure Screen.Sends (data : List Byte) (s s' : Screen) : Prop where
  render : s'.render = s.render
  io : s.io.Sends data s'.io

theorem Screen.Sends.trans {data data' : List Byte} {s₁ s₂ s₃ : Screen} (h : s₁.Sends data s₂)
    (h' : s₂.Sends data' s₃) : s₁.Sends (data ++ data') s₃ :=
  ⟨h'.render.trans h.render, h.io.trans h'.io⟩

section Screen

variable (P : Platform) {s : Screen}

theorem Screen.write_sends (h : s.io.Echoing) {data : List Byte}
    (hlen : s.io.wrCount = 0 ∨ data.length + ioBufSize < 2 ^ 32) :
    ∃ s', s.write P data = .ok s' ∧ s.Sends data s' := by
  obtain ⟨io, hwrite, hsends⟩ := nrlIoWrite_sends P h hlen
  exact ⟨{ s with io }, by rw [Screen.write, hwrite]; rfl, rfl, hsends⟩

theorem Screen.flush_sends (h : s.io.Echoing) :
    ∃ s', s.flush P = .ok s' ∧ s.Sends [] s' ∧ s'.io.wrCount = 0 := by
  obtain ⟨io, hflush, hsends, hzero⟩ := nrlIoFlush_sends P h
  exact ⟨{ s with io }, by rw [Screen.flush, hflush]; rfl, ⟨rfl, hsends⟩, hzero⟩

theorem Screen.writeTimes_sends (c : Byte) (count : Nat) (h : s.io.Echoing) :
    ∃ s', s.writeTimes P c count = .ok s' ∧ s.Sends (List.replicate count c) s' := by
  induction count generalizing s with
  | zero => exact ⟨s, rfl, rfl, h.sends_nil⟩
  | succ count ih =>
    obtain ⟨s₁, hwrite, hsends⟩ := s.write_sends P h (.inr (by simp [ioBufSize]) : _ ∨ [c].length + _ < _)
    obtain ⟨s₂, htimes, hsends₂⟩ := ih (hsends.io.echoing h)
    refine ⟨s₂, ?_, hsends.trans hsends₂⟩
    rw [Screen.writeTimes, hwrite]
    exact htimes

end Screen

/-! ### Terminals that are not smart -/

/-- The pushed terminator is not seen. -/
theorem cstr_terminated (l : List Uchar) : cstr (l ++ [0]) = cstr l := by
  unfold cstr
  induction l with
  | nil => rfl
  | cons c l ih => rw [List.cons_append, List.takeWhile_cons, List.takeWhile_cons, ih]

/-- The text an echo mode shows. With an echo that is what a string function sees of
the line. -/
def shownText (mode : EchoMode) (line : List Uchar) : List Uchar :=
  match mode with
  | .on => cstr line
  | .obscured => line
  | .off => []

/-- Each character of a line once: the encoding, or an asterisk for each of them. -/
def onceEach (P : Platform) (mode : EchoMode) (line : List Uchar) : List Byte :=
  match mode with
  | .on => P.utf8Encode (cstr line)
  | .obscured => List.replicate line.length 42
  | .off => []

/-- Insertions in batches, each with a redraw behind it. -/
def batchOps (batches : List (List (List Uchar))) : List EditOp :=
  batches.flatMap fun texts => texts.map .insert ++ [.redraw]

/-- The lines these redraws draw, on top of a line that is there. -/
def linesDrawn : List Uchar → List (List (List Uchar)) → List (List Uchar)
  | _, [] => []
  | line, texts :: batches => (line ++ texts.flatten) :: linesDrawn (line ++ texts.flatten) batches

section Dumb

variable {P : Platform} {t : Terminfo} {mode : EchoMode}

/-- Without a smart terminal there is nothing to query. -/
theorem nrlRenderInit_dumb (hdumb : nrlTermIsSmart t = false) (echoFile : Int) (s : Screen) :
    nrlRenderInit P t mode echoFile s = .ok (true, { s with render := { s.render with
      echoMode := mode, lastRenderedWidth := 0, termSmart := false, echoFd := echoFile,
      scrolled := 0 } }) := by
  unfold nrlRenderInit
  rw [hdumb]
  rfl

/-- A line that is only added to, on a terminal that is not smart, with nothing waiting
to be written. -/
structure Dumb (mode : EchoMode) (line : List Uchar) (e : Editor) : Prop where
  buffer : e.line.buffer = line
  cursor : e.line.cursor = line.length
  renderCursor : e.line.renderCursor = 0
  termSmart : e.screen.render.termSmart = false
  echoMode : e.screen.render.echoMode = mode
  echoing : e.screen.io.Echoing
  wrCount : e.screen.io.wrCount = 0

theorem Dumb.inserts {line : List Uchar} {e : Editor} (h : Dumb mode line e)
    (texts : List (List Uchar)) :
    ∃ e', Run.exec (EditOp.perform P t) (texts.map .insert) e = .ok e' ∧
      Dumb mode (line ++ texts.flatten) e' ∧ e'.screen = e.screen := by
  induction texts generalizing line e with
  | nil => exact ⟨e, rfl, by simpa using h, rfl⟩
  | cons text texts ih =>
    have hinsert := nrlManipInsertText_eq P text (e := e) (by rw [h.buffer, h.cursor])
    rw [h.buffer, h.cursor, List.take_length, List.drop_length, List.append_nil] at hinsert
    have hfirst : Dumb mode (line ++ text) { e with line := { e.line with
        buffer := line ++ text, cursor := line.length + text.length, dirty := true } } :=
      ⟨rfl, by simp, h.renderCursor, h.termSmart, h.echoMode, h.echoing, h.wrCount⟩
    obtain ⟨e', hexec, hdumb, hscreen⟩ := ih hfirst
    refine ⟨e', Run.exec_cons_ok.mpr ⟨_, hinsert, hexec⟩, ?_, hscreen⟩
    rw [List.flatten_cons, ← List.append_assoc]
    exact hdumb

/-- The line is printed from its beginning. -/
theorem Dumb.draw (hmode : mode ≠ .off) {line : List Uchar} {e : Editor} (h : Dumb mode line e)
    (hlen : line.length < 2 ^ 32) :
    ∃ s₁, redrawByMode P t
        { line := { e.line with buffer := e.line.buffer ++ [0] }, screen := e.screen } =
          .ok { line := { e.line with buffer := e.line.buffer ++ [0] }, screen := s₁ } ∧
      e.screen.Sends (onceEach P mode line) s₁ := by
  rw [redrawByMode, h.echoMode, h.buffer]
  cases mode with
  | off => exact absurd rfl hmode
  | on =>
    obtain ⟨s₁, hwrite, hsends⟩ : ∃ s₁, e.screen.write P (P.utf8Encode (cstr line)) = .ok s₁ ∧
        e.screen.Sends (onceEach P .on line) s₁ := e.screen.write_sends P h.echoing (.inl h.wrCount)
    refine ⟨s₁, ?_, hsends⟩
    dsimp only
    rw [redrawNormal, if_pos (by simp [h.termSmart]), if_neg (by simp [h.renderCursor]),
      h.renderCursor, List.drop_zero, cstr_terminated, hwrite]
    rfl
  | obscured =>
    obtain ⟨s₁, hwrite, hsends⟩ := e.screen.writeTimes_sends P 42 line.length h.echoing
    refine ⟨s₁, ?_, hsends⟩
    have hcount : uint32 (((line ++ [(0 : Uchar)]).length - 1 : Nat) - (e.line.renderCursor : Int)) =
        line.length := by
      rw [h.renderCursor]
      unfold uint32
      simp
      omega
    dsimp only
    rw [redrawObscured, if_pos (by simp [h.termSmart])]
    dsimp only
    rw [hcount, hwrite]
    rfl

/-- A redraw prints the line from its beginning. -/
theorem Dumb.redraw (hmode : mode ≠ .off) {line : List Uchar} {e : Editor} (h : Dumb mode line e)
    (hlen : line.length < 2 ^ 32) :
    ∃ e', nrlRenderRedraw P t e = .ok e' ∧ Dumb mode line e' ∧
      e.screen.io.Sends (onceEach P mode line) e'.screen.io := by
  have hrequery : requery P t e.screen = .ok e.screen := by
    rw [requery, if_neg (by simp [h.termSmart])]
  have hlast : (line ++ [(0 : Uchar)]).eraseIdx ((line ++ [(0 : Uchar)]).length - 1) = line := by
    simp [List.eraseIdx_append_of_length_le]
  obtain ⟨s₁, hdraw, hsends⟩ := h.draw (P := P) (t := t) hmode hlen
  -- the terminator goes again and the text is flushed
  obtain ⟨s₂, hflush, hsends₂, hzero⟩ := Screen.flush_sends P
    (s := { s₁ with render := { s₁.render with resizeFlag := false } }) (hsends.io.echoing h.echoing)
  refine ⟨{ line := { e.line with dirty := false }, screen := s₂ }, ?_, ?_, ?_⟩
  · rw [nrlRenderRedraw, hrequery, Run.ok_bind, hdraw, Run.ok_bind]
    dsimp only
    rw [hflush, h.buffer, hlast, ← h.buffer]
    rfl
  · refine ⟨h.buffer, h.cursor, h.renderCursor, ?_, ?_,
      hsends₂.io.echoing (hsends.io.echoing h.echoing), hzero⟩
    · show s₂.render.termSmart = false
      rw [hsends₂.render, hsends.render]
      exact h.termSmart
    · show s₂.render.echoMode = mode
      rw [hsends₂.render, hsends.render]
      exact h.echoMode
  · have hall := hsends.io.trans hsends₂.io
    rwa [List.append_nil] at hall

/-- Every redraw prints all of its line. The induction is on the batches. -/
theorem Dumb.batches (hmode : mode ≠ .off) {batches : List (List (List Uchar))} {line : List Uchar}
    {e : Editor} (h : Dumb mode line e) (hlen : (line ++ batches.flatten.flatten).length < 2 ^ 32) :
    ∃ e', Run.exec (EditOp.perform P t) (batchOps batches) e = .ok e' ∧
      Dumb mode (line ++ batches.flatten.flatten) e' ∧
      e.screen.io.Sends ((linesDrawn line batches).flatMap (onceEach P mode)) e'.screen.io := by
  induction batches generalizing line e with
  | nil => exact ⟨e, rfl, by simpa using h, h.echoing.sends_nil⟩
  | cons texts batches ih =>
    rw [List.flatten_cons, List.flatten_append, ← List.append_assoc] at hlen
    obtain ⟨e₁, hinserts, h₁, hscreen⟩ := h.inserts (P := P) (t := t) texts
    obtain ⟨e₂, hredraw, h₂, hsends⟩ := h₁.redraw (P := P) (t := t) hmode
      (by rw [List.length_append] at hlen; omega)
    obtain ⟨e₃, hrest, h₃, hsends₃⟩ := ih h₂ hlen
    refine ⟨e₃, ?_, ?_, ?_⟩
    · rw [batchOps, List.flatMap_cons, Run.exec_append, Run.exec_append, hinserts, Run.ok_bind,
        Run.exec, show EditOp.redraw.perform P t e₁ = .ok e₂ from hredraw]
      exact hrest
    · rw [List.flatten_cons, List.flatten_append, ← List.append_assoc]
      exact h₃
    · rw [linesDrawn, List.flatMap_cons, ← hscreen]
      exact hsends.trans hsends₃

/-- The last line drawn is the whole line. -/
theorem linesDrawn_last (line : List Uchar) {batches : List (List (List Uchar))} (h : batches ≠ []) :
    linesDrawn line batches =
      (linesDrawn line batches).dropLast ++ [line ++ batches.flatten.flatten] := by
  induction batches generalizing line with
  | nil => exact absurd rfl h
  | cons texts batches ih =>
    rw [linesDrawn]
    cases batches with
    | nil => simp [linesDrawn]
    | cons texts' batches =>
      have hrest := ih (line ++ texts.flatten) (List.cons_ne_nil _ _)
      have hne : linesDrawn (line ++ texts.flatten) (texts' :: batches) ≠ [] := List.cons_ne_nil _ _
      rw [List.dropLast_cons_of_ne_nil hne, List.cons_append]
      refine congrArg (_ :: ·) (hrest.trans ?_)
      simp

theorem onceEach_eq_nil (hencode : P.EncodeLaw) (mode : EchoMode) (line : List Uchar) :
    onceEach P mode line = [] ↔ shownText mode line = [] := by
  cases mode with
  | off => simp [onceEach, shownText]
  | on => exact hencode _
  | obscured => simp [onceEach, shownText]

/-- **What a dumb terminal shows.** The redraws print every character of the line once
exactly if there was nothing to show at any of them but the last. -/
theorem dumbEcho_iff (hencode : P.EncodeLaw) (hmode : mode ≠ .off)
    (hdumb : nrlTermIsSmart t = false) {echoFile : Int} {s : Screen} (hecho : s.io.Echoing)
    (hzero : s.io.wrCount = 0) {batches : List (List (List Uchar))}
    (hlen : batches.flatten.flatten.length < 2 ^ 32) :
    ∃ s₀ e, nrlRenderInit P t mode echoFile s = .ok (true, s₀) ∧
      Run.exec (EditOp.perform P t) (batchOps batches) { line := emptyLine, screen := s₀ } = .ok e ∧
      e.line.buffer = batches.flatten.flatten ∧
      (e.screen.io.world.echoed = s.io.world.echoed ++ onceEach P mode e.line.buffer ↔
        ∀ line ∈ (linesDrawn [] batches).dropLast, shownText mode line = []) := by
  have hinit : nrlRenderInit P t mode echoFile s = _ := nrlRenderInit_dumb hdumb echoFile s
  have hstart : Dumb mode [] { line := emptyLine, screen := { s with render := { s.render with
      echoMode := mode, lastRenderedWidth := 0, termSmart := false, echoFd := echoFile,
      scrolled := 0 } } } := ⟨rfl, rfl, rfl, rfl, rfl, hecho, hzero⟩
  obtain ⟨e, hexec, hline, hsends⟩ := hstart.batches (P := P) (t := t) hmode hlen
  refine ⟨_, e, hinit, hexec, hline.buffer, ?_⟩
  have hsent : e.screen.io.world.echoed =
      s.io.world.echoed ++ (linesDrawn [] batches).flatMap (onceEach P mode) := by
    have houtput := hsends.output
    rw [Io.output, Io.output, hline.wrCount, hzero] at houtput
    simpa [slice] using houtput
  rw [hsent, hline.buffer, List.append_cancel_left_eq]
  have hnil := onceEach_eq_nil hencode mode
  by_cases hbatches : batches = []
  · subst hbatches
    simp [linesDrawn, (hnil []).mpr (by cases mode <;> rfl)]
  · have hlast := linesDrawn_last [] hbatches
    rw [hlast, List.flatMap_append, List.flatMap_singleton, ← hlast]
    simp [hnil]

end Dumb

/-- A screen behind which nothing has been written yet. -/
def dumbScreen : Screen where
  render := staticRender
  io := { staticIo with readFile := 0, echoFile := 1, echoEnabled := true }

theorem dumbEcho_iff_oneBatch : ∃ s₀ e,
    nrlRenderInit referencePlatform Terminfo.unloaded .on 1 dumbScreen = .ok (true, s₀) ∧
    Run.exec (EditOp.perform referencePlatform Terminfo.unloaded) (batchOps [[[97], [98]]])
      { line := emptyLine, screen := s₀ } = .ok e ∧
    e.screen.io.world.echoed = ascii "ab" := by
  have hecho : dumbScreen.io.Echoing :=
    ⟨by decide, rfl, by decide, fun r hr => absurd hr List.not_mem_nil⟩
  have hlen : ([[[97], [98]]] : List (List (List Uchar))).flatten.flatten.length < 2 ^ 32 := by decide
  obtain ⟨s₀, e, hinit, hexec, hbuffer, hiff⟩ := dumbEcho_iff referencePlatform_encode
    (by decide : EchoMode.on ≠ .off) (by decide : nrlTermIsSmart Terminfo.unloaded = false) hecho rfl hlen
  refine ⟨s₀, e, hinit, hexec, ?_⟩
  rw [hiff.mpr (by decide), hbuffer]
  decide

/-- With a redraw between them, the first character is printed twice. -/
theorem dumbEcho_twice : (nrlRenderInit referencePlatform Terminfo.unloaded .on 1 dumbScreen >>=
    fun r => Run.exec (EditOp.perform referencePlatform Terminfo.unloaded) (batchOps [[[97]], [[98]]])
      { line := emptyLine, screen := r.2 }).map (fun e => (e.line.buffer, e.screen.io.world.echoed)) =
    .ok ([97, 98], ascii "aab") := by
  decide +kernel

end Nanorl
