import Nanorl.Sound.Drawing

/-!
# Nanorl.Sound.Frame

What a session leaves alone.

Everything `render.c` and `manip.c` do to the static data of `io.c`, and to the world
behind it, goes through five operations: `nrl_io_write`, `nrl_io_flush`,
`nrl_io_raw_read`, the size request and `nrl_io_read`. A preorder these keep
(`Io.Frame`) is kept by every step of a session and by the read loop, whatever is drawn.
Queries of the terminal need the first four only (`Io.QueryFrame`).
-/

namespace Nanorl

open Run (Ends)

/-- A preorder on the data of `io.c` that its operations keep. -/
structure Io.Frame (P : Platform) (R : Io → Io → Prop) : Prop where
  refl : ∀ io, R io io
  trans : ∀ {io₁ io₂ io₃}, R io₁ io₂ → R io₂ io₃ → R io₁ io₃
  write : ∀ data io, Ends (fun _ => True) (fun r => R io r.2) (nrlIoWrite P data io)
  flush : ∀ io, Ends (fun _ => True) (fun r => R io r.2) (nrlIoFlush P io)
  rawRead : ∀ size io, Ends (fun _ => True) (fun r => R io r.2) (nrlIoRawRead P size io)
  winsize : ∀ io, R io { io with world := io.world.winsize.2 }
  read : ∀ root buffer io, Ends (fun _ => True) (fun r => R io r.2.2) (nrlIoRead P root buffer io)

/-- A preorder that its output and the replies to it keep. -/
structure Io.QueryFrame (P : Platform) (R : Io → Io → Prop) : Prop extends Io.OutputFrame P R where
  rawRead : ∀ size io, Ends (fun _ => True) (fun r => R io r.2) (nrlIoRawRead P size io)
  winsize : ∀ io, R io { io with world := io.world.winsize.2 }

namespace Io.QueryFrame

variable {P : Platform} {R : Io → Io → Prop} (hR : Io.QueryFrame P R) (t : Terminfo)
include hR

/-! ### Queries -/

theorem readResponse (lastChar : Byte) (fuel : Nat) (resBuf : List Byte) (io : Io) :
    Ends (fun _ => True) (fun r => R io r.2) (readResponse P lastChar fuel resBuf io) := by
  induction fuel generalizing resBuf io with
  | zero => exact .error trivial
  | succ fuel ih =>
    unfold Nanorl.readResponse
    refine (hR.rawRead cprResBufSize io).bind fun r hread => ?_
    obtain ⟨bytes, io'⟩ := r
    cases bytes with
    | none => exact .ok hread
    | some bytes =>
      dsimp only
      split
      · exact .error trivial
      · split
        · exact .error trivial
        · split
          · exact .ok hread
          · exact (ih _ io').mono fun _ => hR.trans hread

theorem receiveReport (io : Io) :
    Ends (fun _ => True) (fun r => R io r.2) (receiveReport P t io) := by
  unfold Nanorl.receiveReport
  split
  · exact .error trivial
  · split
    · exact .error trivial
    · refine (hR.readResponse _ _ _ io).bind fun r hread => ?_
      obtain ⟨resBuf, io'⟩ := r
      cases resBuf with
      | none => exact .ok hread
      | some resBuf => exact (Ends.any _).bind fun _ _ => .ok hread

theorem queryCursor (io : Io) :
    Ends (fun _ => True) (fun r => R io r.2) (queryCursor P t io) := by
  unfold Nanorl.queryCursor
  split
  · exact .error trivial
  · refine (hR.write _ io).bind fun r hwrite => ?_
    obtain ⟨written, io₁⟩ := r
    cases written with
    | false => exact .ok hwrite
    | true =>
      refine (hR.flush io₁).bind fun r hflush => ?_
      obtain ⟨flushed, io₂⟩ := r
      cases flushed with
      | false => exact .ok (hR.trans hwrite hflush)
      | true => exact (hR.receiveReport t io₂).mono fun _ => hR.trans (hR.trans hwrite hflush)

theorem querySize (buf : Pos2d) (s : Screen) :
    Ends (fun _ => True) (fun r => R s.io r.2.2.io) (querySize P t buf s) := by
  have hsize := hR.winsize s.io
  unfold Nanorl.querySize
  generalize s.io.world.winsize = reply at hsize
  obtain ⟨_ | ⟨rows, cols⟩, world⟩ := reply
  · refine (hR.queryCursor t _).bind fun r hsaved => ?_
    obtain ⟨saved, io₁⟩ := r
    replace hsaved := hR.trans hsize hsaved
    cases saved with
    | none => exact .ok hsaved
    | some savedPos =>
      refine (hR.moveCursor2d t _ _).bind fun r hmove => ?_
      obtain ⟨moved, s₁⟩ := r
      replace hmove := hR.trans hsaved hmove
      cases moved with
      | false => exact .ok hmove
      | true =>
        refine (hR.queryCursor t s₁.io).bind fun r hcorner => ?_
        obtain ⟨corner, io₂⟩ := r
        replace hcorner := hR.trans hmove hcorner
        cases corner with
        | none => exact .ok hcorner
        | some corner =>
          refine (hR.moveCursor2d t _ _).bind fun r hback => ?_
          obtain ⟨moved, s₂⟩ := r
          cases moved <;> exact .ok (hR.trans hcorner hback)
  · exact .ok hsize

/-- The queries of `nrl_render_init`. -/
theorem renderInit (mode : EchoMode) (echoFile : Int) (s : Screen) :
    Ends (fun _ => True) (fun r => R s.io r.2.io) (nrlRenderInit P t mode echoFile s) := by
  unfold nrlRenderInit
  dsimp only
  split
  · refine (hR.queryCursor t s.io).bind fun r hquery => ?_
    obtain ⟨cursorPos, io⟩ := r
    cases cursorPos with
    | none => exact .ok hquery
    | some cursorPos => exact (hR.querySize t _ _).bind fun _ hsize => .ok (hR.trans hquery hsize)
  · exact .ok (hR.refl s.io)

theorem requery (s : Screen) :
    Ends (fun _ => True) (fun s' => R s.io s'.io) (requery P t s) := by
  unfold Nanorl.requery
  split
  · refine (hR.queryCursor t s.io).bind fun r hquery => ?_
    obtain ⟨cursorPos, io⟩ := r
    exact (hR.querySize t _ _).bind fun _ hsize => .ok (hR.trans hquery hsize)
  · exact .ok (hR.refl s.io)

end Io.QueryFrame

namespace Io.Frame

variable {P : Platform} {R : Io → Io → Prop} (hR : Io.Frame P R) (t : Terminfo)
include hR

/-- In particular queries keep it. -/
theorem queries : Io.QueryFrame P R := ⟨⟨hR.refl, hR.trans, hR.write, hR.flush⟩, hR.rawRead, hR.winsize⟩

theorem renderRedraw (e : Editor) :
    Ends (fun _ => True) (fun e' => R e.screen.io e'.screen.io) (nrlRenderRedraw P t e) := by
  unfold nrlRenderRedraw
  refine (hR.queries.requery t e.screen).bind fun s₁ h₁ => ?_
  refine (hR.queries.redrawByMode t _).bind fun e₂ h₂ => ?_
  exact (hR.queries.screenFlush _).bind fun _ h₃ => .ok (hR.trans h₁ (hR.trans h₂ h₃))

/-! ### Runs -/

variable {t}

/-- The step. -/
theorem perform {step : Step} {e e' : Editor} (h : step.perform P t e = .ok e') :
    R e.screen.io e'.screen.io := by
  cases step with
  | notify =>
    obtain rfl := Except.ok.inj h
    exact hR.refl e.screen.io
  | read root buffer =>
    obtain ⟨r, hread, h⟩ := Run.bind_eq_ok.mp h
    obtain rfl := Except.ok.inj h
    exact (hR.read root buffer e.screen.io).of_ok hread
  | call op =>
    by_cases hop : op = .edit .redraw
    · subst hop
      exact (hR.renderRedraw t e).of_ok h
    · cases hsyncs : op.syncs e.line with
      | false =>
        rw [(CursorOp.perform_quiet P t hop hsyncs).of_ok h]
        exact hR.refl e.screen.io
      | true =>
        obtain ⟨finish, hfinish, hperform⟩ := CursorOp.perform_syncs P t hsyncs
        have hcall : op.perform P t e = .ok e' := h
        rw [hperform] at hcall
        obtain ⟨e₁, hsync, hrest⟩ := Run.bind_eq_ok.mp hcall
        rw [(hfinish e₁).of_ok hrest]
        exact (hR.queries.renderSyncCursors t
          { e with line := { e.line with cursor := op.target e.line } }).of_ok hsync

theorem exec {steps : List Step} {e e' : Editor} (h : Run.exec (Step.perform P t) steps e = .ok e') :
    R e.screen.io e'.screen.io :=
  Run.exec_invariant (I := fun e' : Editor => R e.screen.io e'.screen.io)
    (fun _ _ _ hI hstep => hR.trans hI (hR.perform hstep)) (hR.refl e.screen.io) h

/-- A round of the loop. -/
theorem evalRound {table : EscapeTable} {ignoreDefault : Bool} {type : InputType} {buffer : InputBuf}
    {e : Editor} {r : InputBuf × Editor}
    (h : evalRound P t table ignoreDefault type buffer e = .ok r) : R e.screen.io r.2.screen.io := by
  obtain ⟨buffer', -, hround⟩ := evalRound_calls P t table ignoreDefault type buffer e
  rw [hround] at h
  have hcalls : Ends (fun _ => True) (fun e' => R e.screen.io e'.screen.io) (do
      let ops ← inputCalls t table ignoreDefault type buffer
      let e ← Run.exec (CursorOp.perform P t) ops e
      if !buffer.more && e.line.dirty then nrlRenderRedraw P t e else pure e) := by
    refine (Ends.any _).bind fun ops _ => ?_
    have hops : Ends (fun _ => True) (fun e' => R e.screen.io e'.screen.io)
        (Run.exec (CursorOp.perform P t) ops e) := by
      rw [← exec_calls]
      exact ⟨fun hexec => hR.exec hexec, fun _ => trivial⟩
    refine hops.bind fun e₁ h₁ => ?_
    split
    · exact (hR.renderRedraw t e₁).mono fun _ => hR.trans h₁
    · exact .ok h₁
  generalize (do
      let ops ← inputCalls t table ignoreDefault type buffer
      let e ← Run.exec (CursorOp.perform P t) ops e
      if !buffer.more && e.line.dirty then nrlRenderRedraw P t e else pure e) = x at h hcalls
  cases x with
  | error f => cases h
  | ok e' =>
    obtain rfl := Except.ok.inj h
    exact hcalls.of_ok rfl

/-- The run. -/
theorem readLoop {root : DfaNode} {table : EscapeTable} {ignoreDefault : Bool} {fuel : Nat}
    {buffer buffer' : InputBuf} {e e' : Editor}
    (h : readLoop P t root table ignoreDefault fuel buffer e = .ok (buffer', e')) :
    R e.screen.io e'.screen.io := by
  obtain ⟨steps, -, hsteps⟩ := (readLoop_steps P t table ignoreDefault root fuel buffer e).of_ok h
  exact hR.exec hsteps

end Io.Frame

end Nanorl
