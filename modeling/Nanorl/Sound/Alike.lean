import Nanorl.Sound.Loop

/-!
# Nanorl.Sound.Alike

What a session depends on.

As in `Nanorl.Sound.Frame`, the output, the queries and the drawing look at the data of
`io.c` through few operations. A relation between two such data that `nrl_io_write` and
`nrl_io_flush` respect (`Io.AlikeOutput`) is respected by every move, and one that the
requests respect too (`Io.Alike`) by the queries: on related data they fail alike, or
come to the same and leave related data.
-/

namespace Nanorl

open Run (Same)

/-- The same result on related data. -/
def ResultAlike {α : Type} (Q : Io → Io → Prop) (r r' : α × Io) : Prop := r.1 = r'.1 ∧ Q r.2 r'.2

/-- A relation on the data of `io.c` that its output respects. -/
structure Io.AlikeOutput (P : Platform) (Q : Io → Io → Prop) : Prop where
  write : ∀ (data : List Byte) {io io' : Io}, Q io io' →
    Same (ResultAlike Q) (nrlIoWrite P data io) (nrlIoWrite P data io')
  flush : ∀ {io io' : Io}, Q io io' → Same (ResultAlike Q) (nrlIoFlush P io) (nrlIoFlush P io')

/-- A relation that output and requests respect. -/
structure Io.Alike (P : Platform) (Q : Io → Io → Prop) : Prop extends Io.AlikeOutput P Q where
  rawRead : ∀ (size : Nat) {io io' : Io}, Q io io' →
    Same (ResultAlike Q) (nrlIoRawRead P size io) (nrlIoRawRead P size io')
  winsize : ∀ {io io' : Io}, Q io io' → io.world.winsize.1 = io'.world.winsize.1 ∧
    Q { io with world := io.world.winsize.2 } { io' with world := io'.world.winsize.2 }
  pendingReads : ∀ {io io' : Io}, Q io io' → io.world.pendingReads = io'.world.pendingReads

/-- The same screen over related data. -/
def Screen.Alike (Q : Io → Io → Prop) (s s' : Screen) : Prop := s.render = s'.render ∧ Q s.io s'.io

theorem Screen.alike {Q : Io → Io → Prop} (render : Render) {io io' : Io} (h : Q io io') :
    Screen.Alike Q { render, io } { render, io := io' } := ⟨rfl, h⟩

/-! ### Output -/

namespace Io.AlikeOutput

variable {P : Platform} {Q : Io → Io → Prop} (hQ : Io.AlikeOutput P Q) (t : Terminfo)
include hQ

theorem screenWrite (data : List Byte) {s s' : Screen} (h : s.Alike Q s') :
    Same (Screen.Alike Q) (s.write P data) (s'.write P data) :=
  (hQ.write data h.2).bind fun _ _ hio => .ok ⟨h.1, hio.2⟩

theorem screenFlush {s s' : Screen} (h : s.Alike Q s') :
    Same (Screen.Alike Q) (s.flush P) (s'.flush P) :=
  (hQ.flush h.2).bind fun _ _ hio => .ok ⟨h.1, hio.2⟩

theorem writeTimes (c : Byte) (count : Nat) {s s' : Screen} (h : s.Alike Q s') :
    Same (Screen.Alike Q) (s.writeTimes P c count) (s'.writeTimes P c count) := by
  induction count generalizing s s' with
  | zero => exact .ok h
  | succ count ih => exact (hQ.screenWrite [c] h).bind fun _ _ h₁ => ih h₁

theorem moveCursor2d (location : Pos2d) {s s' : Screen} (h : s.Alike Q s') :
    Same (fun r r' => r.1 = r'.1 ∧ Screen.Alike Q r.2 r'.2) (moveCursor2d P t location s)
      (moveCursor2d P t location s') := by
  obtain ⟨render, io⟩ := s
  obtain ⟨_, io'⟩ := s'
  obtain ⟨rfl, hio⟩ := h
  unfold Nanorl.moveCursor2d
  split
  · exact .error _
  · refine (Same.refl (Q := Eq) (fun _ => rfl) _).bind fun moveCmd _ hcmd => ?_
    subst hcmd
    cases moveCmd with
    | none => exact .error _
    | some moveCmd =>
      refine (hQ.write moveCmd hio).bind fun r r' hwrite => ?_
      obtain ⟨written, io₁⟩ := r
      obtain ⟨_, io₁'⟩ := r'
      obtain ⟨rfl, hio₁⟩ := hwrite
      cases written with
      | false => exact .ok ⟨rfl, rfl, hio₁⟩
      | true =>
        refine (hQ.flush hio₁).bind fun r r' hflush => ?_
        obtain ⟨flushed, io₂⟩ := r
        obtain ⟨_, io₂'⟩ := r'
        obtain ⟨rfl, hio₂⟩ := hflush
        cases flushed <;> exact .ok ⟨rfl, rfl, hio₂⟩

end Io.AlikeOutput

/-! ### Queries -/

namespace Io.Alike

variable {P : Platform} {Q : Io → Io → Prop} (hQ : Io.Alike P Q) (t : Terminfo)
include hQ

theorem readResponse (lastChar : Byte) (fuel : Nat) (resBuf : List Byte) {io io' : Io}
    (h : Q io io') : Same (ResultAlike Q) (readResponse P lastChar fuel resBuf io)
      (readResponse P lastChar fuel resBuf io') := by
  induction fuel generalizing resBuf io io' with
  | zero => exact .error _
  | succ fuel ih =>
    unfold Nanorl.readResponse
    refine (hQ.rawRead cprResBufSize h).bind fun r r' hread => ?_
    obtain ⟨bytes, io₁⟩ := r
    obtain ⟨_, io₁'⟩ := r'
    obtain ⟨rfl, hio⟩ := hread
    cases bytes with
    | none => exact .ok ⟨rfl, hio⟩
    | some bytes =>
      dsimp only
      split
      · exact .error _
      · split
        · exact .error _
        · split
          · exact .ok ⟨rfl, hio⟩
          · exact ih _ hio

theorem receiveReport {io io' : Io} (h : Q io io') :
    Same (ResultAlike Q) (receiveReport P t io) (receiveReport P t io') := by
  unfold Nanorl.receiveReport
  split
  · exact .error _
  · split
    · exact .error _
    · rw [hQ.pendingReads h]
      refine (hQ.readResponse _ _ _ h).bind fun r r' hread => ?_
      obtain ⟨resBuf, io₁⟩ := r
      obtain ⟨_, io₁'⟩ := r'
      obtain ⟨rfl, hio⟩ := hread
      cases resBuf with
      | none => exact .ok ⟨rfl, hio⟩
      | some resBuf =>
        refine (Same.refl (Q := Eq) (fun _ => rfl) (positionOf P _ resBuf)).bind fun position _ hposition => ?_
        exact .ok ⟨congrArg some hposition, hio⟩

theorem queryCursor {io io' : Io} (h : Q io io') :
    Same (ResultAlike Q) (queryCursor P t io) (queryCursor P t io') := by
  unfold Nanorl.queryCursor
  split
  · exact .error _
  · refine (hQ.write _ h).bind fun r r' hwrite => ?_
    obtain ⟨written, io₁⟩ := r
    obtain ⟨_, io₁'⟩ := r'
    obtain ⟨rfl, hio₁⟩ := hwrite
    cases written with
    | false => exact .ok ⟨rfl, hio₁⟩
    | true =>
      refine (hQ.flush hio₁).bind fun r r' hflush => ?_
      obtain ⟨flushed, io₂⟩ := r
      obtain ⟨_, io₂'⟩ := r'
      obtain ⟨rfl, hio₂⟩ := hflush
      cases flushed with
      | false => exact .ok ⟨rfl, hio₂⟩
      | true => exact hQ.receiveReport t hio₂

theorem querySize (buf : Pos2d) {s s' : Screen} (h : s.Alike Q s') :
    Same (fun r r' => r.1 = r'.1 ∧ r.2.1 = r'.2.1 ∧ Screen.Alike Q r.2.2 r'.2.2)
      (querySize P t buf s) (querySize P t buf s') := by
  obtain ⟨render, io⟩ := s
  obtain ⟨_, io'⟩ := s'
  obtain ⟨rfl, hio⟩ := h
  obtain ⟨hsize, hworld⟩ := hQ.winsize hio
  unfold Nanorl.querySize
  dsimp only
  generalize io.world.winsize = reply at hsize hworld
  generalize io'.world.winsize = reply' at hsize hworld
  obtain ⟨size, world⟩ := reply
  obtain ⟨_, world'⟩ := reply'
  subst hsize
  cases size with
  | some size => exact .ok ⟨rfl, rfl, rfl, hworld⟩
  | none =>
    refine (hQ.queryCursor t hworld).bind fun r r' hsaved => ?_
    obtain ⟨saved, io₁⟩ := r
    obtain ⟨_, io₁'⟩ := r'
    obtain ⟨rfl, hio₁⟩ := hsaved
    cases saved with
    | none => exact .ok ⟨rfl, rfl, rfl, hio₁⟩
    | some savedPos =>
      refine (hQ.toAlikeOutput.moveCursor2d t _ (Screen.alike render hio₁)).bind fun r r' hmove => ?_
      obtain ⟨moved, render₂, io₂⟩ := r
      obtain ⟨_, _, io₂'⟩ := r'
      obtain ⟨rfl, rfl, hio₂⟩ := hmove
      cases moved with
      | false => exact .ok ⟨rfl, rfl, rfl, hio₂⟩
      | true =>
        refine (hQ.queryCursor t hio₂).bind fun r r' hcorner => ?_
        obtain ⟨corner, io₃⟩ := r
        obtain ⟨_, io₃'⟩ := r'
        obtain ⟨rfl, hio₃⟩ := hcorner
        cases corner with
        | none => exact .ok ⟨rfl, rfl, rfl, hio₃⟩
        | some corner =>
          refine (hQ.toAlikeOutput.moveCursor2d t _ (Screen.alike _ hio₃)).bind fun r r' hback => ?_
          obtain ⟨moved, s₄⟩ := r
          obtain ⟨_, s₄'⟩ := r'
          obtain ⟨rfl, hs₄⟩ := hback
          cases moved <;> exact .ok ⟨rfl, rfl, hs₄⟩

/-- The queries of `nrl_render_init`. -/
theorem renderInit (mode : EchoMode) (echoFile : Int) {s s' : Screen} (h : s.Alike Q s') :
    Same (fun r r' => r.1 = r'.1 ∧ Screen.Alike Q r.2 r'.2) (nrlRenderInit P t mode echoFile s)
      (nrlRenderInit P t mode echoFile s') := by
  obtain ⟨render, io⟩ := s
  obtain ⟨_, io'⟩ := s'
  obtain ⟨rfl, hio⟩ := h
  unfold nrlRenderInit
  dsimp only
  split
  · refine (hQ.queryCursor t hio).bind fun r r' hquery => ?_
    obtain ⟨cursorPos, io₁⟩ := r
    obtain ⟨_, io₁'⟩ := r'
    obtain ⟨rfl, hio₁⟩ := hquery
    cases cursorPos with
    | none => exact .ok ⟨rfl, rfl, hio₁⟩
    | some cursorPos =>
      refine (hQ.querySize t _ (Screen.alike _ hio₁)).bind fun r r' hsize => ?_
      obtain ⟨queried, termSize, s₂⟩ := r
      obtain ⟨_, _, s₂'⟩ := r'
      obtain ⟨rfl, rfl, hs₂⟩ := hsize
      exact .ok ⟨rfl, by rw [hs₂.1], hs₂.2⟩
  · exact .ok ⟨rfl, rfl, hio⟩

end Io.Alike

end Nanorl
