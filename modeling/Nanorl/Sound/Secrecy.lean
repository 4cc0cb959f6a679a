import Nanorl.Sound.Handlers

/-!
# Nanorl.Sound.Secrecy

What a secret session shows.

A session is an `init`, the events that reach it, and a `deinit`. In echo mode OFF
nothing a session does gets to the echo file (`Io.OffFrame`). In OBSCURED drawing and
moving look at a line only through its length and its cursors, so two sessions whose
events differ in their code points alone go through the same screens (`Editor.Veiled`).
Either way what the echo file receives is the same (`secrets_unechoed`). A secret call of
`nanorl` is the session of the inputs it has read (`nanorl_session`).
-/

namespace Nanorl

open Run (Ends Same)

/-! ### Drawing a hidden line -/

/-- Two lines that look alike behind asterisks. -/
structure LineData.Veiled (line line' : LineData) : Prop where
  length : line.buffer.length = line'.buffer.length
  cursor : line.cursor = line'.cursor
  renderCursor : line.renderCursor = line'.renderCursor
  dirty : line.dirty = line'.dirty

structure Editor.Veiled (Q : Io → Io → Prop) (e e' : Editor) : Prop where
  line : e.line.Veiled e'.line
  screen : e.screen.Alike Q e'.screen

section Veiled

variable {P : Platform} {Q : Io → Io → Prop} (hQ : Io.AlikeOutput P Q) (t : Terminfo)
include hQ

theorem moveToPosObscured_veiled (pos : Nat) {e e' : Editor} (h : e.Veiled Q e') :
    Same (Editor.Veiled Q) (moveToPosObscured P t pos e) (moveToPosObscured P t pos e') := by
  obtain ⟨⟨buffer, cursor, renderCursor, dirty⟩, render, io⟩ := e
  obtain ⟨⟨buffer', _, _, _⟩, _, io'⟩ := e'
  obtain ⟨⟨hlength, rfl, rfl, rfl⟩, rfl, hio⟩ := h
  unfold moveToPosObscured
  dsimp only
  generalize int32 (int32 pos - int32 renderCursor) = offset
  generalize uint32 (int32 renderCursor + offset) = renderCursor
  refine (Same.refl (fun _ => rfl) _).bind fun location _ (hlocation : location = _) => ?_
  subst hlocation
  refine (hQ.moveCursor2d t location (Screen.alike _ hio)).bind fun r r' hmove => .ok ?_
  exact ⟨⟨hlength, rfl, rfl, rfl⟩, hmove.2⟩

theorem afterDrawing_alike (width : Int) (count : Nat) {s s' : Screen} (h : s.Alike Q s') :
    Same (Screen.Alike Q) (afterDrawing P width count s) (afterDrawing P width count s') := by
  have hforce : ∀ {s s' : Screen}, s.Alike Q s' →
      Same (Screen.Alike Q) (forceScroll P s) (forceScroll P s') := by
    intro s s' h
    unfold forceScroll
    rw [← h.1]
    split
    · exact (hQ.screenWrite [10] h).bind fun _ _ h₁ => hQ.screenFlush h₁
    · exact .ok h
  have hscroll : ∀ {s s' : Screen}, s.Alike Q s' →
      Same (Screen.Alike Q) (handleScroll P s) (handleScroll P s') := by
    intro s s' h
    unfold handleScroll
    dsimp only
    rw [← h.1]
    split
    · exact .ok h
    · exact (hforce h).bind fun s₁ s₁' h₁ => .ok ⟨by rw [h₁.1], h₁.2⟩
  unfold afterDrawing
  rw [← h.1]
  refine (Same.refl (fun _ => rfl) _).bind fun cursorPos _ (hpos : cursorPos = _) => ?_
  subst hpos
  have hplaced : Screen.Alike Q { s with render := { s.render with cursorPos } }
      { s' with render := { s.render with cursorPos } } := ⟨rfl, h.2⟩
  refine (hscroll hplaced).bind fun s₁ s₁' h₁ => ?_
  unfold eraseRest
  rw [← h₁.1]
  exact (hQ.writeTimes 32 _ h₁).bind fun s₂ s₂' h₂ => .ok ⟨by rw [h₂.1], h₂.2⟩

theorem redrawObscured_veiled {e e' : Editor} (h : e.Veiled Q e') :
    Same (Editor.Veiled Q) (redrawObscured P t e) (redrawObscured P t e') := by
  unfold redrawObscured
  dsimp only
  rw [← h.screen.1, ← h.line.length, ← h.line.renderCursor]
  split
  · exact (hQ.writeTimes 42 _ h.screen).bind fun _ _ hs => .ok ⟨h.line, hs⟩
  · refine (moveToPosObscured_veiled hQ t 0 h).bind fun e₁ e₁' h₁ => ?_
    refine (hQ.writeTimes 42 _ h₁.screen).bind fun s₂ s₂' h₂ => ?_
    refine (afterDrawing_alike hQ _ _ h₂).bind fun s₃ s₃' h₃ => ?_
    rw [← h₁.line.cursor]
    exact moveToPosObscured_veiled hQ t _
      ⟨⟨h₁.line.length, rfl, rfl, h₁.line.dirty⟩, h₃⟩

theorem renderSyncCursors_veiled {e e' : Editor} (hmode : e.screen.render.echoMode ≠ .on)
    (h : e.Veiled Q e') :
    Same (Editor.Veiled Q) (nrlRenderSyncCursors P t e) (nrlRenderSyncCursors P t e') := by
  have hmove : Same (Editor.Veiled Q) (moveByMode P t e.line.cursor e)
      (moveByMode P t e'.line.cursor e') := by
    unfold moveByMode
    rw [← h.screen.1, ← h.line.cursor]
    split
    · rename_i hon
      exact absurd hon hmode
    · exact moveToPosObscured_veiled hQ t _ h
    · exact .ok h
  unfold nrlRenderSyncCursors
  rw [← h.screen.1]
  refine (Same.refl (fun _ => trivial) _).bind fun _ _ (_ : True) => ?_
  exact hmove.bind fun e₁ e₁' h₁ => (hQ.screenFlush h₁.screen).bind fun _ _ h₂ => .ok ⟨h₁.line, h₂⟩

theorem renderRedraw_veiled {e e' : Editor} (hmode : e.screen.render.echoMode ≠ .on)
    (hqueries : e.screen.render.resizeFlag = true → Io.Alike P Q) (h : e.Veiled Q e') :
    Same (Editor.Veiled Q) (nrlRenderRedraw P t e) (nrlRenderRedraw P t e') := by
  have hrequery : Same (Screen.Alike Q) (requery P t e.screen) (requery P t e'.screen) := by
    obtain ⟨line, render, io⟩ := e
    obtain ⟨line', _, io'⟩ := e'
    obtain ⟨-, rfl, hio⟩ := h
    unfold requery
    dsimp only at hqueries ⊢
    split
    · rename_i hflag
      have hasks := hqueries (by simp at hflag; exact hflag.1.1)
      refine (hasks.queryCursor t hio).bind fun r r' hcursor => ?_
      obtain ⟨cursorPos, io₁⟩ := r
      obtain ⟨_, io₁'⟩ := r'
      obtain ⟨rfl, hio₁⟩ := hcursor
      refine (hasks.querySize t _ (Screen.alike _ hio₁)).bind fun r r' hsize => ?_
      obtain ⟨queried, termSize, s₂⟩ := r
      obtain ⟨_, _, s₂'⟩ := r'
      obtain ⟨rfl, rfl, hs₂⟩ := hsize
      exact .ok ⟨by rw [hs₂.1], hs₂.2⟩
    · exact .ok ⟨rfl, hio⟩
  have hdraw : ∀ {e e' : Editor}, e.screen.render.echoMode ≠ .on → e.Veiled Q e' →
      Same (Editor.Veiled Q) (redrawByMode P t e) (redrawByMode P t e') := by
    intro e e' hmode h
    unfold redrawByMode
    rw [← h.screen.1]
    split
    · rename_i hon
      exact absurd hon hmode
    · exact redrawObscured_veiled hQ t h
    · exact .ok h
  unfold nrlRenderRedraw
  refine (hrequery.and_left (requery_ends (F := fun _ => True) P t e.screen)).bind fun s₁ s₁' h₁ => ?_
  obtain ⟨hs₁, hrequeried⟩ := h₁
  have hmode₁ : s₁.render.echoMode ≠ .on := by
    obtain ⟨cursorPos, termSize, hrender⟩ := hrequeried.render
    rw [hrender]
    exact hmode
  have hline : (LineData.mk (e.line.buffer ++ [0]) e.line.cursor e.line.renderCursor e.line.dirty).Veiled
      (LineData.mk (e'.line.buffer ++ [0]) e'.line.cursor e'.line.renderCursor e'.line.dirty) :=
    ⟨by simp [h.line.length], h.line.cursor, h.line.renderCursor, h.line.dirty⟩
  refine (hdraw hmode₁ ⟨hline, hs₁⟩).bind fun e₂ e₂' h₂ => ?_
  have hs₂ : Screen.Alike Q { e₂.screen with render := { e₂.screen.render with resizeFlag := false } }
      { e₂'.screen with render := { e₂'.screen.render with resizeFlag := false } } :=
    ⟨by rw [h₂.screen.1], h₂.screen.2⟩
  refine (hQ.screenFlush hs₂).bind fun s₃ s₃' h₃ =>
    .ok ⟨⟨?_, h₂.line.cursor, h₂.line.renderCursor, rfl⟩, h₃⟩
  simp only [List.length_eraseIdx, h₂.line.length]

end Veiled

/-! ### Hidden inputs -/

/-- Calls that look alike: texts of one length, and equal keys. -/
inductive CursorOp.Veiled : CursorOp → CursorOp → Prop
  | insert {text text' : List Uchar} (h : text.length = text'.length) :
      CursorOp.Veiled (.edit (.insert text)) (.edit (.insert text'))
  | escape (key : TerminfoInput) : CursorOp.Veiled (.edit (.escape key)) (.edit (.escape key))

/-- Editors that look alike, in a mode that hides the line; where a resize is to be looked
after, the queries cannot tell them apart either. -/
structure Editor.Hidden (P : Platform) (Q : Io → Io → Prop) (e e' : Editor) : Prop where
  veiled : e.Veiled Q e'
  mode : e.screen.render.echoMode ≠ .on
  queries : e.screen.render.resizeFlag = true → Io.Alike P Q

section Hidden

variable {P : Platform} {Q : Io → Io → Prop} (hQ : Io.AlikeOutput P Q) (t : Terminfo)
include hQ

theorem syncCursors_hidden {e e' : Editor} (h : e.Hidden P Q e') :
    Same (Editor.Hidden P Q) (nrlRenderSyncCursors P t e) (nrlRenderSyncCursors P t e') := by
  refine ((renderSyncCursors_veiled hQ t h.mode h.veiled).and_left (R := Syncs P e)
    ⟨nrlRenderSyncCursors_ok P t, fun _ => trivial⟩).mono fun e₁ e₁' h₁ => ?_
  obtain ⟨hveiled, hsyncs⟩ := h₁
  obtain ⟨cursorPos, hrender⟩ := hsyncs.render
  refine ⟨hveiled, ?_, ?_⟩
  · rw [hrender]
    exact h.mode
  · rw [hrender]
    exact h.queries

omit hQ in
theorem Editor.Hidden.withLine {e e' : Editor} (h : e.Hidden P Q e') {line line' : LineData}
    (hline : line.Veiled line') : Editor.Hidden P Q { e with line } { e' with line := line' } :=
  ⟨⟨hline, h.veiled.screen⟩, h.mode, h.queries⟩

omit hQ in
theorem escapeDelete_hidden {e e' : Editor} (h : e.Hidden P Q e') :
    Same (Editor.Hidden P Q) (escapeDelete P e) (escapeDelete P e') := by
  obtain ⟨hlength, hcursor, hrenderCursor, hdirty⟩ := h.veiled.line
  unfold escapeDelete vecErase
  rw [← hcursor, ← hlength]
  split
  · refine (Same.refl (fun _ => trivial) _).bind fun _ _ (_ : True) => .ok ?_
    refine ⟨⟨⟨?_, hcursor, hrenderCursor, rfl⟩, h.veiled.screen⟩, h.mode, h.queries⟩
    simp only [List.length_eraseIdx, hlength]
  · exact .ok h

theorem perform_hidden {op op' : CursorOp} (hop : op.Veiled op') {e e' : Editor} (h : e.Hidden P Q e') :
    Same (Editor.Hidden P Q) (op.perform P t e) (op'.perform P t e') := by
  obtain ⟨hlength, hcursor, hrenderCursor, hdirty⟩ := h.veiled.line
  have hleft : ∀ {e e' : Editor}, e.Hidden P Q e' →
      Same (Editor.Hidden P Q) (escapeLeft P t e) (escapeLeft P t e') := by
    intro e e' h
    obtain ⟨hlength, hcursor, hrenderCursor, hdirty⟩ := h.veiled.line
    unfold escapeLeft
    rw [← hcursor]
    split
    · exact syncCursors_hidden hQ t (h.withLine ⟨hlength, rfl, hrenderCursor, hdirty⟩)
    · exact .ok h
  cases hop with
  | @insert text text' htext =>
    show Same _ (nrlManipInsertText P text e) (nrlManipInsertText P text' e')
    unfold nrlManipInsertText vecBulkInsert
    rw [← hcursor, ← hlength, ← htext]
    by_cases hin : e.line.cursor ≤ e.line.buffer.length
    · rw [if_pos hin, if_pos hin]
      refine (Same.refl (fun _ => trivial) _).bind fun _ _ (_ : True) => .ok ?_
      refine ⟨⟨⟨?_, rfl, hrenderCursor, rfl⟩, h.veiled.screen⟩, h.mode, h.queries⟩
      simp [hlength, htext]
    · rw [if_neg hin, if_neg hin]
      refine (Same.refl (fun _ => trivial) _).bind fun _ _ (_ : True) => .ok ?_
      exact ⟨⟨⟨hlength, rfl, hrenderCursor, rfl⟩, h.veiled.screen⟩, h.mode, h.queries⟩
  | escape key =>
    show Same _ (nrlManipEvalEscape P t key.id e) (nrlManipEvalEscape P t key.id e')
    rw [nrlManipEvalEscape_key, nrlManipEvalEscape_key]
    cases key with
    | keyDelete => exact escapeDelete_hidden h
    | keyLeft => exact hleft h
    | keyHome => exact syncCursors_hidden hQ t (h.withLine ⟨hlength, rfl, hrenderCursor, hdirty⟩)
    | keyEnd => exact syncCursors_hidden hQ t (h.withLine ⟨hlength, hlength, hrenderCursor, hdirty⟩)
    | keyRight =>
      dsimp only
      unfold escapeRight
      rw [← hcursor, ← hlength]
      split
      · exact syncCursors_hidden hQ t (h.withLine ⟨hlength, rfl, hrenderCursor, hdirty⟩)
      · exact .ok h
    | keyBackspace =>
      dsimp only
      unfold escapeBackspace
      rw [← hcursor]
      split
      · exact (hleft h).bind fun _ _ => escapeDelete_hidden
      · exact .ok h

end Hidden

/-! ### Sessions -/

/-- What reaches a session: the terminal changes its size, with the answers it has for
the queries to come, or an input. -/
inductive Event
  | resize (replies : List ReadResult)
  | input (type : InputType) (buffer : InputBuf)

/-- The same but for the code points. -/
inductive Event.Veiled : Event → Event → Prop
  | resize (replies : List ReadResult) : Event.Veiled (.resize replies) (.resize replies)
  | input (type : InputType) {buffer buffer' : InputBuf} (hescape : buffer.escape = buffer'.escape)
      (htext : buffer.text.length = buffer'.text.length) (hmore : buffer.more = buffer'.more) :
      Event.Veiled (.input type buffer) (.input type buffer')

section Session

variable (P : Platform)

/-- The event. -/
def Event.perform (t : Terminfo) (table : EscapeTable) (ignoreDefault : Bool) :
    Event → Editor → Except Fault Editor
  | .resize replies, e =>
    let io := { e.screen.io with world := { e.screen.io.world with reads := replies } }
    .ok { e with screen := nrlRenderNotifyResize { e.screen with io } }
  | .input type buffer, e => (evalRound P t table ignoreDefault type buffer e).map Prod.snd

/-- A call of `nanorl`, with events in place of the input. -/
def session (env : Environment) (config : Config) (mode : EchoMode) (events : List Event)
    (p : Process) : Except Fault Process := do
  let (ready, p) ← init P env config mode p
  if !ready then return p
  let e ← Run.exec (Event.perform P p.terminfo p.escapeTable config.customIgnoreDefault) events
    { line := emptyLine, screen := p.screen }
  let (_, p) ← deinit P mode { p with screen := e.screen }
  return p

variable {P} {Q : Io → Io → Prop} (hQ : Io.AlikeOutput P Q) (t : Terminfo)

theorem inputCalls_veiled (ignoreDefault : Bool) (type : InputType) {buffer buffer' : InputBuf}
    (hescape : buffer.escape = buffer'.escape) (htext : buffer.text.length = buffer'.text.length) :
    Same (List.Forall₂ CursorOp.Veiled) (inputCalls t nrlManipClearCustomTable ignoreDefault type buffer)
      (inputCalls t nrlManipClearCustomTable ignoreDefault type buffer') := by
  have hinsert : ∀ text : List (List Uchar), List.Forall₂ CursorOp.Veiled
      (text.map fun text => .edit (.insert text)) (text.map fun text => .edit (.insert text)) := by
    intro text
    induction text with
    | nil => exact .nil
    | cons text rest ih => exact .cons (.insert rfl) ih
  cases type with
  | text => exact .ok (.cons (.insert htext) .nil)
  | stop => exact .ok .nil
  | escape =>
    dsimp only [inputCalls]
    rw [← hescape]
    cases inputKey buffer.escape.bits with
    | none => exact .ok .nil
    | some key => exact .ok (.cons (.escape key) .nil)
  | customEscape =>
    dsimp only [inputCalls, nrlManipClearCustomTable]
    rw [← hescape]
    split
    · exact .ok .nil
    · split
      · exact .error _
      · rename_i asText _
        have hspell := hinsert (asText.map spelling)
        rw [List.map_map] at hspell
        exact .ok hspell

include hQ in
/-- A round on hidden inputs. -/
theorem evalRound_hidden (ignoreDefault : Bool) (type : InputType) {buffer buffer' : InputBuf}
    (hescape : buffer.escape = buffer'.escape) (htext : buffer.text.length = buffer'.text.length)
    (hmore : buffer.more = buffer'.more) {e e' : Editor} (h : e.Hidden P Q e') :
    Same (Editor.Hidden P Q)
      ((evalRound P t nrlManipClearCustomTable ignoreDefault type buffer e).map Prod.snd)
      ((evalRound P t nrlManipClearCustomTable ignoreDefault type buffer' e').map Prod.snd) := by
  obtain ⟨buffer₁, -, hround⟩ := evalRound_calls P t nrlManipClearCustomTable ignoreDefault type buffer e
  obtain ⟨buffer₁', -, hround'⟩ := evalRound_calls P t nrlManipClearCustomTable ignoreDefault type buffer' e'
  have hdrop : ∀ (x : Except Fault Editor) (buffer : InputBuf),
      (x.map fun e' => (buffer, e')).map Prod.snd = x := by
    intro x buffer
    cases x <;> rfl
  rw [hround, hround', hdrop, hdrop, ← hmore]
  refine (inputCalls_veiled t ignoreDefault type hescape htext).bind fun ops ops' hops => ?_
  refine (Run.exec_same (fun op op' s s' (hop : op.Veiled op') (h : s.Hidden P Q s') =>
    perform_hidden hQ t hop h) hops h).bind fun e₁ e₁' h₁ => ?_
  rw [← h₁.veiled.line.dirty]
  split
  · refine ((renderRedraw_veiled hQ t h₁.mode h₁.queries h₁.veiled).and_left (R := Redraws P t e₁)
      ⟨nrlRenderRedraw_ok P t, fun _ => trivial⟩).mono fun e₂ e₂' h₂ => ?_
    obtain ⟨hveiled, hredraws⟩ := h₂
    obtain ⟨_, _, -, -, hrender⟩ := hredraws.requeried
    refine ⟨hveiled, ne_of_eq_of_ne (Redraws.terminal P t hredraws).2 h₁.mode, ?_⟩
    rw [hrender]
    exact nofun
  · exact .ok h₁

end Session

/-- Output and queries look at nothing but the data of `io.c`. -/
theorem alike_eq (P : Platform) : Io.Alike P Eq where
  write := fun _ _ _ h => h ▸ Same.refl (fun _ => ⟨rfl, rfl⟩) _
  flush := fun h => h ▸ Same.refl (fun _ => ⟨rfl, rfl⟩) _
  rawRead := fun _ _ _ h => h ▸ Same.refl (fun _ => ⟨rfl, rfl⟩) _
  winsize := fun h => h ▸ ⟨rfl, rfl⟩
  pendingReads := fun h => h ▸ rfl

/-- The same output so far, and to come. -/
structure Io.EchoAlike (io io' : Io) : Prop where
  echoFile : io.echoFile = io'.echoFile
  wrBuf : io.wrBuf = io'.wrBuf
  wrCount : io.wrCount = io'.wrCount
  echoEnabled : io.echoEnabled = io'.echoEnabled
  writes : io.world.writes = io'.world.writes
  echoed : io.world.echoed = io'.world.echoed

namespace Io.EchoAlike

variable {io io' io₁ io₂ io₃ : Io}

theorem refl (io : Io) : io.EchoAlike io := ⟨rfl, rfl, rfl, rfl, rfl, rfl⟩

theorem symm (h : io₁.EchoAlike io₂) : io₂.EchoAlike io₁ :=
  ⟨h.echoFile.symm, h.wrBuf.symm, h.wrCount.symm, h.echoEnabled.symm, h.writes.symm, h.echoed.symm⟩

theorem trans (h : io₁.EchoAlike io₂) (h' : io₂.EchoAlike io₃) : io₁.EchoAlike io₃ :=
  ⟨h.echoFile.trans h'.echoFile, h.wrBuf.trans h'.wrBuf, h.wrCount.trans h'.wrCount,
    h.echoEnabled.trans h'.echoEnabled, h.writes.trans h'.writes, h.echoed.trans h'.echoed⟩

theorem of_readsFrom (h : io.ReadsFrom io') : io.EchoAlike io' :=
  ⟨h.echoFile.symm, h.wrBuf.symm, h.wrCount.symm, h.echoEnabled.symm, h.world.writes.symm,
    h.world.echoed.symm⟩

/-- A write of `w` and one of `w'`. -/
theorem write_world (h : io.EchoAlike io') (data : List Byte) :
    (io.world.write data).1 = (io'.world.write data).1 ∧
      (io.world.write data).2.writes = (io'.world.write data).2.writes ∧
      (io.world.write data).2.echoed = (io'.world.write data).2.echoed := by
  unfold World.write
  rw [h.writes]
  split <;> exact ⟨rfl, rfl, by simp [h.echoed]⟩

variable (P : Platform)

theorem flush (h : io.EchoAlike io') :
    Same (ResultAlike Io.EchoAlike) (nrlIoFlush P io) (nrlIoFlush P io') := by
  unfold nrlIoFlush
  rw [← h.echoFile, ← h.wrCount, ← h.wrBuf]
  refine (Same.refl (fun _ => trivial) _).bind fun _ _ (_ : True) => ?_
  split
  · exact .ok ⟨rfl, h⟩
  · obtain ⟨hcount, hwrites, hechoed⟩ := h.write_world (slice io.wrBuf 0 io.wrCount)
    dsimp only
    rw [← hcount]
    split
    · exact .ok ⟨rfl, rfl, rfl, rfl, h.echoEnabled, hwrites, hechoed⟩
    · exact .ok ⟨rfl, rfl, rfl, rfl, h.echoEnabled, hwrites, hechoed⟩

theorem bufferData (h : io.EchoAlike io') (data : List Byte) :
    Same (ResultAlike Io.EchoAlike) (bufferData data io) (bufferData data io') := by
  unfold Nanorl.bufferData
  rw [← h.wrCount, ← h.wrBuf]
  split
  · obtain ⟨hcount, hwrites, hechoed⟩ := h.write_world data
    dsimp only
    rw [← hcount]
    exact .ok ⟨rfl, h.echoFile, rfl, rfl, h.echoEnabled, hwrites, hechoed⟩
  · split
    · exact .ok ⟨rfl, h.echoFile, rfl, rfl, h.echoEnabled, h.writes, h.echoed⟩
    · exact .error _

theorem alikeOutput : Io.AlikeOutput P Io.EchoAlike where
  write := fun data io io' h => by
    unfold nrlIoWrite
    rw [← h.echoEnabled, ← h.wrCount]
    split
    · split
      · refine (h.flush P).bind fun r r' hflush => ?_
        obtain ⟨flushed, io₁⟩ := r
        obtain ⟨_, io₁'⟩ := r'
        obtain ⟨rfl, hio₁⟩ := hflush
        cases flushed with
        | false => exact .ok ⟨rfl, hio₁⟩
        | true => exact bufferData hio₁ data
      · exact h.bufferData data
    · exact .ok ⟨rfl, h⟩
  flush := flush P

end Io.EchoAlike

/-- Without an echo and with nothing buffered the output stays as it is. -/
def Io.OffKeeps (io io' : Io) : Prop := io.echoEnabled = false → io.wrCount = 0 → io.EchoAlike io'

theorem Io.OffKeeps.frame (P : Platform) : Io.Frame P Io.OffKeeps where
  refl := fun io _ _ => .refl io
  trans := fun h h' hoff hcount => by
    have hfirst := h hoff hcount
    exact hfirst.trans (h' (hfirst.echoEnabled.symm.trans hoff) (hfirst.wrCount.symm.trans hcount))
  write := fun data io => by
    unfold nrlIoWrite
    split
    · rename_i hon
      exact (Ends.any _).mono fun _ _ hoff => absurd hon (by simp [hoff])
    · exact .ok fun _ _ => .refl io
  flush := fun io => by
    unfold nrlIoFlush
    refine (Ends.any _).bind fun _ _ => ?_
    split
    · exact .ok fun _ _ => .refl io
    · rename_i hcount
      exact (Ends.any _).mono fun _ _ _ hzero => absurd hzero hcount
  rawRead := fun size io => by
    unfold nrlIoRawRead
    refine (Ends.any _).bind fun _ _ => (Ends.any _).bind fun _ _ => .ok fun _ _ => ?_
    have hreads := io.world.readsFrom_read size
    exact ⟨rfl, rfl, rfl, rfl, hreads.writes.symm, hreads.echoed.symm⟩
  winsize := fun io _ _ => by
    unfold World.winsize
    split <;> exact ⟨rfl, rfl, rfl, rfl, rfl, rfl⟩
  read := fun root buffer io => (nrlIoRead_ends P root buffer io).mono fun _ h _ _ => .of_readsFrom h

/-! ### Two sessions -/

section Sessions

variable {P : Platform} {env : Environment} {config : Config} {mode : EchoMode} {p : Process}

/-- What the events of a session leave alone. -/
theorem Event.exec_frame {R : Io → Io → Prop} (hR : Io.Frame P R)
    (hreads : ∀ io reads, R io { io with world := { io.world with reads } }) {t : Terminfo}
    {table : EscapeTable} {ignoreDefault : Bool} {events : List Event} {e e' : Editor}
    (h : Run.exec (Event.perform P t table ignoreDefault) events e = .ok e') :
    R e.screen.io e'.screen.io := by
  refine Run.exec_invariant (I := fun e' : Editor => R e.screen.io e'.screen.io)
    (fun event e₁ e₂ hI hstep => hR.trans hI ?_) (hR.refl e.screen.io) h
  cases event with
  | resize replies =>
    obtain rfl := Except.ok.inj hstep
    exact hreads e₁.screen.io replies
  | input type buffer =>
    obtain ⟨r, hround, rfl⟩ := Run.map_eq_ok.mp hstep
    exact hR.evalRound hround

theorem nrlIoFlush_empties (io : Io) :
    Ends (fun _ => True) (fun r => r.1 = true → r.2.wrCount = 0 ∧ r.2.echoEnabled = io.echoEnabled)
      (nrlIoFlush P io) := by
  unfold nrlIoFlush
  refine (Ends.any _).bind fun _ _ => ?_
  split
  · exact .ok fun _ => ⟨‹_›, rfl⟩
  · dsimp only
    split
    · exact .ok nofun
    · exact .ok fun _ => ⟨rfl, rfl⟩

theorem Process.Calls.render {p p' : Process} (h : p.Calls p') :
    p'.screen.render = p.screen.render := by
  obtain ⟨_, _, _, _, hscreen⟩ := h.screen
  rw [hscreen]

/-- What a session starts with. -/
theorem init_opens (mode : EchoMode) (p : Process) :
    Ends (fun _ => True) (fun r => r.1 = true → r.2.screen.render.echoMode = mode ∧
      r.2.screen.render.resizeFlag = p.screen.render.resizeFlag ∧
      (mode = .off → r.2.screen.io.echoEnabled = false ∧ r.2.screen.io.wrCount = 0))
      (init P env config mode p) := by
  have houtput : ∀ p : Process, Ends (fun _ => True) (fun r => r.1 = true →
      r.2.screen.render = p.screen.render ∧
      r.2.screen.io.echoEnabled = decide (mode ≠ .off) ∧ r.2.screen.io.wrCount = 0)
      (initOutput P config mode p) := by
    intro p
    unfold initOutput
    refine (Ends.any _).bind fun r _ => ?_
    obtain ⟨written, io₁⟩ := r
    cases written with
    | false => exact .ok nofun
    | true =>
      refine (Ends.any _).bind fun r _ => ?_
      obtain ⟨written, io₂⟩ := r
      cases written with
      | false => exact .ok nofun
      | true =>
        refine (nrlIoFlush_empties _).bind fun r hflush => .ok fun hready => ?_
        obtain ⟨hcount, henabled⟩ := hflush hready
        dsimp only
        split <;> exact ⟨rfl, henabled, hcount⟩
  refine ⟨fun {r} hinit hready => ?_, fun _ => trivial⟩
  obtain ⟨ready, p'⟩ := r
  obtain rfl : ready = true := hready
  obtain ⟨terminfo, root, p₂, p₃, -, hcalls, hrun, hscreen, -⟩ := init_done hinit
  obtain ⟨hrender, henabled, hcount⟩ := (houtput p₂).of_ok hrun rfl
  have hopens := nrlRenderInit_ok P p₃.terminfo hscreen
  have hflag : p₃.screen.render.resizeFlag = p.screen.render.resizeFlag :=
    congrArg Render.resizeFlag (hrender.trans hcalls.render)
  refine ⟨hopens.echoMode, hopens.resizeFlag.trans hflag, fun hoff => ?_⟩
  have hdisabled : p₃.screen.io.echoEnabled = false := by rw [henabled, hoff]; rfl
  have hkeeps := ((Io.OffKeeps.frame P).queries.renderInit p₃.terminfo mode config.echoFile p₃.screen).of_ok
    hscreen hdisabled hcount
  exact ⟨hkeeps.echoEnabled.symm.trans hdisabled, hkeeps.wrCount.symm.trans hcount⟩

theorem Process.Calls.echoAlike {p p' : Process} (h : p.Calls p') : p.screen.io.EchoAlike p'.screen.io := by
  obtain ⟨_, _, _, _, hscreen⟩ := h.screen
  rw [hscreen]
  exact ⟨rfl, rfl, rfl, rfl, rfl, rfl⟩

/-- The end of the output of two sessions. -/
theorem deinitOutput_alike (t : Terminfo) {io io' : Io} (h : io.EchoAlike io') :
    Same (ResultAlike Io.EchoAlike) (deinitOutput P t mode io) (deinitOutput P t mode io') := by
  have hout := Io.EchoAlike.alikeOutput P
  have hwiped : (nrlIoEchoState true (if mode ≠ .on then nrlIoWipeBuffers io else io)).EchoAlike
      (nrlIoEchoState true (if mode ≠ .on then nrlIoWipeBuffers io' else io')) := by
    split
    · exact ⟨h.echoFile, congrArg (memcpy · 0 _) h.wrBuf, h.wrCount, rfl, h.writes, h.echoed⟩
    · exact ⟨h.echoFile, h.wrBuf, h.wrCount, rfl, h.writes, h.echoed⟩
  unfold deinitOutput
  refine (hout.write [10] hwiped).bind fun r r' hr => ?_
  obtain ⟨written, io₁⟩ := r
  obtain ⟨_, io₁'⟩ := r'
  obtain ⟨rfl, h₁⟩ := hr
  cases written with
  | false => exact .ok ⟨rfl, h₁⟩
  | true =>
    have hclosing : Same (ResultAlike Io.EchoAlike) (nrlIoWriteEscape P t .keypadLocal io₁)
        (nrlIoWriteEscape P t .keypadLocal io₁') := by
      unfold nrlIoWriteEscape
      split
      · exact .ok ⟨rfl, h₁⟩
      · exact hout.write _ h₁
    refine hclosing.bind fun r r' hr => ?_
    obtain ⟨written, io₂⟩ := r
    obtain ⟨_, io₂'⟩ := r'
    obtain ⟨rfl, h₂⟩ := hr
    cases written with
    | false => exact .ok ⟨rfl, h₂⟩
    | true => exact hout.flush h₂

/-- Two sessions that have shown the same leave the same output behind. -/
theorem deinit_alike {s s' : Screen} (hio : s.io.EchoAlike s'.io) (hsame : s.io.SameTerminal s'.io) :
    Same (fun r r' => r.2.world.echoed = r'.2.world.echoed) (deinit P mode { p with screen := s })
      (deinit P mode { p with screen := s' }) := by
  unfold deinit
  obtain ⟨p₁, hattrs, hcalls₁, hrest, -⟩ :=
    restoreAttrs_served { p with screen := s, escapeTable := nrlManipClearCustomTable }
  obtain ⟨p₁', hattrs', hcalls₁', hrest', -⟩ :=
    restoreAttrs_served { p with screen := s', escapeTable := nrlManipClearCustomTable }
  have hworld : ∀ s : Screen,
      Process.world { p with screen := s, escapeTable := nrlManipClearCustomTable } = s.io.world :=
    fun _ => rfl
  have hready : s'.io.world.attrsRestored = s.io.world.attrsRestored := by
    rw [World.attrsRestored, World.attrsRestored, hsame.isTty, hsame.calls]
  have hsignalCalls : s'.io.world.restoreCalls = s.io.world.restoreCalls := by
    rw [World.restoreCalls, World.restoreCalls, hsame.isTty, hsame.calls]
  rw [hworld] at hattrs hrest
  rw [hworld, hready] at hattrs' hrest'
  rw [hsignalCalls] at hrest'
  have hecho₁ : p₁.screen.io.EchoAlike p₁'.screen.io :=
    hcalls₁.echoAlike.symm.trans (hio.trans hcalls₁'.echoAlike)
  dsimp only
  rw [hattrs, hattrs']
  cases hrestored : s.io.world.attrsRestored with
  | false => exact .ok hecho₁.echoed
  | true =>
    obtain ⟨p₂, hsignals, hsets⟩ := restoreSignals_served restoreOrder p₁
    obtain ⟨p₂', hsignals', hsets'⟩ := restoreSignals_served restoreOrder p₁'
    have hecho₂ : p₂.screen.io.EchoAlike p₂'.screen.io :=
      hsets.calls.echoAlike.symm.trans (hecho₁.trans hsets'.calls.echoAlike)
    have hterminfo : p₂'.terminfo = p₂.terminfo :=
      (hsets'.calls.terminfo.trans hcalls₁'.terminfo).trans (hsets.calls.terminfo.trans hcalls₁.terminfo).symm
    rw [hrest hrestored] at hsignals
    rw [hrest' hrestored] at hsignals'
    dsimp only [Bool.not_true, Bool.false_eq_true, if_false]
    rw [deinitChain_eq, hsignals, hsignals']
    cases decide (served s.io.world.restoreCalls restoreOrder.length = restoreOrder.length) with
    | false => exact .ok hecho₂.echoed
    | true =>
      dsimp only [Bool.not_true, Bool.false_eq_true, if_false]
      rw [hterminfo]
      exact (deinitOutput_alike p₂.terminfo hecho₂).bind fun _ _ hr => .ok hr.2.echoed

/-- **Without an echo** nothing of a session is shown, whatever happens in it. -/
theorem session_off {events events' : List Event} {p₁ p₂ : Process}
    (h₁ : session P env config .off events p = .ok p₁)
    (h₂ : session P env config .off events' p = .ok p₂) : p₁.world.echoed = p₂.world.echoed := by
  unfold session at h₁ h₂
  obtain ⟨⟨ready, q⟩, hinit, h₁⟩ := Run.bind_eq_ok.mp h₁
  rw [hinit, Run.ok_bind] at h₂
  cases ready with
  | false =>
    obtain rfl := Except.ok.inj h₁
    obtain rfl := Except.ok.inj h₂
    rfl
  | true =>
    obtain ⟨-, -, hoff⟩ := (init_opens .off p).of_ok hinit rfl
    obtain ⟨hdisabled, hcount⟩ := hoff rfl
    obtain ⟨e₁, hevents₁, h₁⟩ := Run.bind_eq_ok.mp h₁
    obtain ⟨e₂, hevents₂, h₂⟩ := Run.bind_eq_ok.mp h₂
    have hecho : ∀ {events : List Event} {e : Editor}, Run.exec (Event.perform P q.terminfo q.escapeTable
        config.customIgnoreDefault) events { line := emptyLine, screen := q.screen } = .ok e →
        q.screen.io.EchoAlike e.screen.io ∧ q.screen.io.SameTerminal e.screen.io := fun h =>
      ⟨Event.exec_frame (Io.OffKeeps.frame P) (fun _ _ _ _ => ⟨rfl, rfl, rfl, rfl, rfl, rfl⟩) h hdisabled
          hcount,
        Event.exec_frame (Io.SameTerminal.frame P) (fun _ _ => ⟨rfl, rfl, rfl, rfl⟩) h⟩
    obtain ⟨hecho₁, hsame₁⟩ := hecho hevents₁
    obtain ⟨hecho₂, hsame₂⟩ := hecho hevents₂
    have hsame : e₁.screen.io.SameTerminal e₂.screen.io :=
      ⟨hsame₂.isTty.trans hsame₁.isTty.symm, hsame₂.calls.trans hsame₁.calls.symm,
        hsame₂.attrs.trans hsame₁.attrs.symm, hsame₂.actions.trans hsame₁.actions.symm⟩
    have hends : Same (fun r r' => r.2.world.echoed = r'.2.world.echoed)
        (deinit P .off { q with screen := e₁.screen }) (deinit P .off { q with screen := e₂.screen }) :=
      deinit_alike (hecho₁.symm.trans hecho₂) hsame
    obtain ⟨r₁, hdeinit₁, h₁⟩ := Run.bind_eq_ok.mp h₁
    obtain ⟨r₂, hdeinit₂, h₂⟩ := Run.bind_eq_ok.mp h₂
    obtain ⟨r₂', hdeinit₂', hechoed⟩ := hends.of_ok hdeinit₁
    obtain rfl := Except.ok.inj (hdeinit₂.symm.trans hdeinit₂')
    obtain rfl := Except.ok.inj h₁
    obtain rfl := Except.ok.inj h₂
    exact hechoed

/-- **Behind asterisks** sessions that differ in their code points alone go the same way. -/
theorem session_hidden (hmode : mode ≠ .on) (htable : p.escapeTable = nrlManipClearCustomTable)
    {events events' : List Event} (hevents : List.Forall₂ Event.Veiled events events') :
    Same (fun p₁ p₂ => p₁.world.echoed = p₂.world.echoed) (session P env config mode events p)
      (session P env config mode events' p) := by
  unfold session
  cases hinit : init P env config mode p with
  | error f => exact .error f
  | ok r =>
    obtain ⟨ready, q⟩ := r
    cases ready with
    | false => exact .ok rfl
    | true =>
      have hclear : q.escapeTable = nrlManipClearCustomTable := by
        obtain ⟨_, _, -, -, hq⟩ := init_preface P env config hinit
        rw [hq, if_neg fun h => hmode h.1, htable]
      obtain ⟨hq, -⟩ := (init_opens mode p).of_ok hinit rfl
      have hQ := alike_eq P
      have hstart : Editor.Hidden P Eq { line := emptyLine, screen := q.screen }
          { line := emptyLine, screen := q.screen } :=
        ⟨⟨⟨rfl, rfl, rfl, rfl⟩, rfl, rfl⟩, by rw [hq]; exact hmode, fun _ => hQ⟩
      have hevent : ∀ event event' (e e' : Editor), event.Veiled event' → e.Hidden P Eq e' →
          Same (Editor.Hidden P Eq)
            (Event.perform P q.terminfo q.escapeTable config.customIgnoreDefault event e)
            (Event.perform P q.terminfo q.escapeTable config.customIgnoreDefault event' e') := by
        intro event event' e e' hevent h
        obtain ⟨hrender, hio⟩ := h.veiled.screen
        cases hevent with
        | resize replies =>
          refine .ok ⟨⟨h.veiled.line, ?_, ?_⟩, h.mode, fun _ => hQ⟩
          · exact congrArg (fun r : Render => { r with resizeFlag := true }) hrender
          · exact congrArg (fun io : Io => { io with world := { io.world with reads := replies } }) hio
        | input type hescape htext hmore =>
          rw [hclear]
          exact evalRound_hidden hQ.toAlikeOutput q.terminfo config.customIgnoreDefault type hescape htext
            hmore h
      refine (Run.exec_same hevent hevents hstart).bind fun e e' h => ?_
      have hscreen : e.screen = e'.screen := by
        obtain ⟨line, render, io⟩ := e
        obtain ⟨line', render', io'⟩ := e'
        obtain ⟨rfl, rfl⟩ := h.veiled.screen
        rfl
      rw [hscreen]
      exact (Same.refl (Q := Eq) (fun _ => rfl) _).bind fun _ _ hr => .ok (by rw [hr])

theorem checkArgs_code {config : Config} {mode : EchoMode} (h : checkArgs config = some mode) :
    EchoMode.ofCode config.echoMode = some mode := by
  unfold checkArgs at h
  split at h
  · cases h
  · exact h

/-- **Secrets do not reach the echo file.** From a process without leftover handlers, what
two silent sessions write is the same whatever their events are, and what two obscured
ones write is the same when their events differ in the code points alone. -/
theorem secrets_unechoed (hargs : checkArgs config = some mode)
    (htable : p.escapeTable = nrlManipClearCustomTable) :
    (config.echoMode = 0 → ∀ events events' p₁ p₂, session P env config mode events p = .ok p₁ →
      session P env config mode events' p = .ok p₂ → p₁.world.echoed = p₂.world.echoed) ∧
    (config.echoMode = 2 → ∀ events events', List.Forall₂ Event.Veiled events events' → ∀ p₁,
      session P env config mode events p = .ok p₁ →
        ∃ p₂, session P env config mode events' p = .ok p₂ ∧ p₁.world.echoed = p₂.world.echoed) := by
  have hcode := checkArgs_code hargs
  constructor
  · intro hoff events events' p₁ p₂ h₁ h₂
    rw [hoff] at hcode
    obtain rfl : .off = mode := Option.some.inj hcode
    exact session_off h₁ h₂
  · intro hobscured events events' hevents p₁ h₁
    rw [hobscured] at hcode
    obtain rfl : .obscured = mode := Option.some.inj hcode
    exact (session_hidden (by decide) htable hevents).of_ok h₁

/-! ### Calls are sessions -/

/-- The inputs of the rounds of a loop. -/
def roundEvents (rounds : List Round) : List Event :=
  (rounds.filter fun r => r.type ≠ .stop).map fun r => .input r.type r.buffer

/-- The loop of a call goes the way of its inputs. The induction is on the rounds; a read
changes nothing that is shown. -/
theorem readLoop_events {t : Terminfo} {root : DfaNode} {ignoreDefault : Bool} {fuel : Nat}
    {buffer buffer' : InputBuf} {e e₁ e' : Editor}
    (h : readLoop P t root nrlManipClearCustomTable ignoreDefault fuel buffer e = .ok (buffer', e₁))
    (hidden : e.Hidden P Io.EchoAlike e') :
    ∃ rounds e₁', loopRounds P t root nrlManipClearCustomTable ignoreDefault fuel buffer e = .ok rounds ∧
      Run.exec (Event.perform P t nrlManipClearCustomTable ignoreDefault) (roundEvents rounds) e' = .ok e₁' ∧
      e₁.Hidden P Io.EchoAlike e₁' := by
  induction fuel generalizing buffer e e' with
  | zero => cases h
  | succ fuel ih =>
    obtain ⟨type, buffer₁, io, hread, hround⟩ := readLoop_cases h
    have hio : e.screen.io.EchoAlike io :=
      .of_readsFrom ((nrlIoRead_ends (F := fun _ => True) P root buffer e.screen.io).of_ok hread)
    have hread' : Editor.Hidden P Io.EchoAlike { e with screen := { e.screen with io } } e' :=
      ⟨⟨hidden.veiled.line, hidden.veiled.screen.1, hio.symm.trans hidden.veiled.screen.2⟩, hidden.mode,
        hidden.queries⟩
    rcases hround with ⟨hstop, -, rfl, hrounds⟩ | ⟨hstop, buffer₂, e₂, heval, hrest, hcons⟩
    · refine ⟨_, e', hrounds, ?_, hread'⟩
      simp [roundEvents, hstop]
    · have hsame : Same (Editor.Hidden P Io.EchoAlike)
          ((evalRound P t nrlManipClearCustomTable ignoreDefault type buffer₁
            { e with screen := { e.screen with io } }).map Prod.snd)
          ((evalRound P t nrlManipClearCustomTable ignoreDefault type buffer₁ e').map Prod.snd) :=
        evalRound_hidden (Io.EchoAlike.alikeOutput P) t ignoreDefault type rfl rfl rfl hread'
      rw [heval] at hsame
      obtain ⟨e₂', heval', hidden₂⟩ := hsame.of_ok rfl
      obtain ⟨rounds, e₁', hrounds, hevents, hend⟩ := ih hrest hidden₂
      have hfirst : roundEvents (⟨type, buffer₁, e.line⟩ :: rounds) =
          .input type buffer₁ :: roundEvents rounds := by
        simp [roundEvents, hstop]
      refine ⟨_, e₁', hcons rounds hrounds, ?_, hend⟩
      rw [hfirst]
      exact Run.exec_cons_ok.mpr ⟨e₂', heval', hevents⟩

/-- A secret call of `nanorl` shows what a session with its inputs shows. -/
theorem nanorl_session {fuel : Nat} {p' : Process} {result : NanorlResult} (hmode : config.echoMode ≠ 1)
    (htable : p.escapeTable = nrlManipClearCustomTable) (hflag : p.screen.render.resizeFlag = false)
    (hbegun : startOf P env config p = .begun) (h : nanorl P fuel env config p = .ok (result, p')) :
    ∃ mode p₁ rounds p'', checkArgs config = some mode ∧
      init P env config mode p.started = .ok (true, p₁) ∧
      loopRounds P p₁.terminfo p₁.root p₁.escapeTable config.customIgnoreDefault fuel freshBuffer
        { line := emptyLine, screen := p₁.screen } = .ok rounds ∧
      session P env config mode (roundEvents rounds) p.started = .ok p'' ∧
      p'.world.echoed = p''.world.echoed := by
  rcases nanorl_cases h with ⟨hstart, -⟩ | ⟨hstart, -⟩ |
    ⟨-, mode, p₁, buffer, e, done, ⟨hargs, hinit, hloop⟩, hdeinit, -⟩
  · simp [hstart] at hbegun
  · simp [hstart] at hbegun
  · have hon : mode ≠ .on := fun hon => hmode ((checkArgs_on hargs).mp hon)
    have hclear : p₁.escapeTable = nrlManipClearCustomTable := by
      obtain ⟨_, _, -, -, hp₁⟩ := init_preface P env config hinit
      rw [hp₁, if_neg fun h => hon h.1]
      exact htable
    obtain ⟨hecho, hresize, -⟩ := (init_opens mode p.started).of_ok hinit rfl
    have hquiet : p₁.screen.render.resizeFlag = false := hresize.trans hflag
    have hstart : Editor.Hidden P Io.EchoAlike { line := emptyLine, screen := p₁.screen }
        { line := emptyLine, screen := p₁.screen } :=
      ⟨⟨⟨rfl, rfl, rfl, rfl⟩, rfl, .refl _⟩, by rw [hecho]; exact hon,
        fun hset => by simp [hquiet] at hset⟩
    rw [hclear] at hloop
    obtain ⟨rounds, e', hrounds, hevents, hend⟩ := readLoop_events hloop hstart
    have hsame : p₁.screen.io.SameTerminal e.screen.io := (Io.SameTerminal.frame P).readLoop hloop
    have hsame' : p₁.screen.io.SameTerminal e'.screen.io :=
      Event.exec_frame (Io.SameTerminal.frame P) (fun _ _ => ⟨rfl, rfl, rfl, rfl⟩) hevents
    have hboth : e.screen.io.SameTerminal e'.screen.io :=
      ⟨hsame'.isTty.trans hsame.isTty.symm, hsame'.calls.trans hsame.calls.symm,
        hsame'.attrs.trans hsame.attrs.symm, hsame'.actions.trans hsame.actions.symm⟩
    have hends : Same (fun r r' => r.2.world.echoed = r'.2.world.echoed)
        (deinit P mode { p₁ with screen := e.screen }) (deinit P mode { p₁ with screen := e'.screen }) :=
      deinit_alike hend.veiled.screen.2 hboth
    obtain ⟨r', hdeinit', hechoed⟩ := hends.of_ok hdeinit
    refine ⟨mode, p₁, rounds, r'.2, hargs, hinit, by rw [hclear]; exact hrounds, ?_, hechoed⟩
    unfold session
    rw [hinit, Run.ok_bind]
    rw [← hclear] at hevents
    exact Run.bind_eq_ok.mpr ⟨e', hevents, Run.bind_eq_ok.mpr ⟨r', hdeinit', rfl⟩⟩

end Sessions

/-- The default configuration with asterisks. -/
def obscuredConf : Config := { defaultConf with echoMode := 2 }

/-- One character and a left key, on an xterm. -/
def typedCharacter (c : Uchar) : List Event :=
  [.input .text { freshBuffer with text := [c] },
    .input .escape { freshBuffer with escape := ⟨TerminfoInput.keyLeft.id⟩ }]

/-- `a` and `b` behind an asterisk. -/
theorem secrets_unechoed_xterm : ∃ p₁ p₂,
    session referencePlatform (bareEnvironment (ascii "xterm")) obscuredConf .obscured (typedCharacter 97)
        { staticProcess [] with screen := xtermScreen } = .ok p₁ ∧
      session referencePlatform (bareEnvironment (ascii "xterm")) obscuredConf .obscured (typedCharacter 98)
        { staticProcess [] with screen := xtermScreen } = .ok p₂ ∧
      p₁.world.echoed ≠ [] ∧ p₁.world.echoed = p₂.world.echoed := by
  have hshown : (session referencePlatform (bareEnvironment (ascii "xterm")) obscuredConf .obscured
      (typedCharacter 97) { staticProcess [] with screen := xtermScreen }).map
        (fun p => p.world.echoed.contains 42) = .ok true := by
    decide +kernel
  obtain ⟨p₁, hsession, hasterisk⟩ := Run.map_eq_ok.mp hshown
  have hevents : List.Forall₂ Event.Veiled (typedCharacter 97) (typedCharacter 98) :=
    .cons (.input .text rfl rfl rfl) (.cons (.input .escape rfl rfl rfl) .nil)
  obtain ⟨p₂, hsession₂, hechoed⟩ := (secrets_unechoed rfl rfl).2 rfl _ _ hevents p₁ hsession
  refine ⟨p₁, p₂, hsession, hsession₂, fun hempty => ?_, hechoed⟩
  rw [hempty] at hasterisk
  cases hasterisk

end Nanorl
