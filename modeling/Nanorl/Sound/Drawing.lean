import Nanorl.Sound.Loop

/-!
# Nanorl.Sound.Drawing

What drawing leaves alone.

Drawing and moving get to the static data of `io.c` through `nrl_io_write` and `nrl_io_flush`
alone. A preorder that these two keep (`Io.OutputFrame`) is kept by every redraw and every
synchronisation of the cursors in which no query is made.
-/

namespace Nanorl

open Run (Ends)

/-- A preorder on the data of `io.c` that its output keeps. -/
structure Io.OutputFrame (P : Platform) (R : Io → Io → Prop) : Prop where
  refl : ∀ io, R io io
  trans : ∀ {io₁ io₂ io₃}, R io₁ io₂ → R io₂ io₃ → R io₁ io₃
  write : ∀ data io, Ends (fun _ => True) (fun r => R io r.2) (nrlIoWrite P data io)
  flush : ∀ io, Ends (fun _ => True) (fun r => R io r.2) (nrlIoFlush P io)

namespace Io.OutputFrame

variable {P : Platform} {R : Io → Io → Prop} (hR : Io.OutputFrame P R) (t : Terminfo)
include hR

/-! ### Output -/

theorem screenWrite (data : List Byte) (s : Screen) :
    Ends (fun _ => True) (fun s' => R s.io s'.io) (s.write P data) :=
  (hR.write data s.io).bind fun _ h => .ok h

theorem screenFlush (s : Screen) :
    Ends (fun _ => True) (fun s' => R s.io s'.io) (s.flush P) :=
  (hR.flush s.io).bind fun _ h => .ok h

theorem writeTimes (c : Byte) (count : Nat) (s : Screen) :
    Ends (fun _ => True) (fun s' => R s.io s'.io) (s.writeTimes P c count) := by
  induction count generalizing s with
  | zero => exact .ok (hR.refl s.io)
  | succ count ih =>
    exact (hR.screenWrite [c] s).bind fun s' h => (ih s').mono fun _ => hR.trans h

theorem moveCursor2d (location : Pos2d) (s : Screen) :
    Ends (fun _ => True) (fun r => R s.io r.2.io) (moveCursor2d P t location s) := by
  unfold Nanorl.moveCursor2d
  split
  · exact .error trivial
  · refine (Ends.any _).bind fun moveCmd _ => ?_
    cases moveCmd with
    | none => exact .error trivial
    | some moveCmd =>
      refine (hR.write moveCmd s.io).bind fun r hwrite => ?_
      obtain ⟨written, io⟩ := r
      cases written with
      | false => exact .ok hwrite
      | true =>
        refine (hR.flush io).bind fun r hflush => ?_
        obtain ⟨flushed, io'⟩ := r
        cases flushed <;> exact .ok (hR.trans hwrite hflush)

/-! ### Moving and drawing -/

theorem moveToPosNormal (pos : Nat) (e : Editor) :
    Ends (fun _ => True) (fun e' => R e.screen.io e'.screen.io) (moveToPosNormal P t pos e) :=
  (Ends.any _).bind fun _ _ => (Ends.any _).bind fun _ _ =>
    (hR.moveCursor2d t _ e.screen).bind fun _ h => .ok h

theorem moveToPosObscured (pos : Nat) (e : Editor) :
    Ends (fun _ => True) (fun e' => R e.screen.io e'.screen.io) (moveToPosObscured P t pos e) :=
  (Ends.any _).bind fun _ _ => (hR.moveCursor2d t _ e.screen).bind fun _ h => .ok h

theorem afterDrawing (width : Int) (count : Nat) (s : Screen) :
    Ends (fun _ => True) (fun s' => R s.io s'.io) (afterDrawing P width count s) := by
  have hforce : ∀ s : Screen, Ends (fun _ => True) (fun s' => R s.io s'.io) (forceScroll P s) := by
    intro s
    unfold forceScroll
    split
    · exact (hR.screenWrite [10] s).bind fun s₁ h₁ => (hR.screenFlush s₁).mono fun _ => hR.trans h₁
    · exact .ok (hR.refl s.io)
  have hscroll : ∀ s : Screen, Ends (fun _ => True) (fun s' => R s.io s'.io) (handleScroll P s) := by
    intro s
    unfold handleScroll
    dsimp only
    split
    · exact .ok (hR.refl s.io)
    · exact (hforce s).bind fun _ h => .ok h
  unfold Nanorl.afterDrawing
  refine (Ends.any _).bind fun cursorPos _ => ?_
  refine (hscroll _).bind fun s₁ h₁ => ?_
  exact (hR.writeTimes 32 _ s₁).bind fun _ h₂ => .ok (hR.trans h₁ h₂)

theorem redrawNormal (e : Editor) :
    Ends (fun _ => True) (fun e' => R e.screen.io e'.screen.io) (redrawNormal P t e) := by
  unfold Nanorl.redrawNormal
  split
  · split
    · exact .error trivial
    · exact (hR.screenWrite _ e.screen).bind fun _ h => .ok h
  · refine (hR.moveToPosNormal t 0 e).bind fun e₁ h₁ => ?_
    refine (hR.screenWrite _ e₁.screen).bind fun s₁ h₂ => ?_
    refine (Ends.any _).bind fun _ _ => ?_
    refine (hR.afterDrawing _ _ s₁).bind fun s₂ h₃ => ?_
    exact (hR.moveToPosNormal t _ _).mono fun _ h₄ => hR.trans h₁ (hR.trans h₂ (hR.trans h₃ h₄))

theorem redrawObscured (e : Editor) :
    Ends (fun _ => True) (fun e' => R e.screen.io e'.screen.io) (redrawObscured P t e) := by
  unfold Nanorl.redrawObscured
  dsimp only
  split
  · exact (hR.writeTimes 42 _ e.screen).bind fun _ h => .ok h
  · refine (hR.moveToPosObscured t 0 e).bind fun e₁ h₁ => ?_
    refine (hR.writeTimes 42 _ e₁.screen).bind fun s₁ h₂ => ?_
    refine (hR.afterDrawing _ _ s₁).bind fun s₂ h₃ => ?_
    exact (hR.moveToPosObscured t _ _).mono fun _ h₄ => hR.trans h₁ (hR.trans h₂ (hR.trans h₃ h₄))

theorem redrawByMode (e : Editor) :
    Ends (fun _ => True) (fun e' => R e.screen.io e'.screen.io) (redrawByMode P t e) := by
  unfold Nanorl.redrawByMode
  split
  · exact hR.redrawNormal t e
  · exact hR.redrawObscured t e
  · exact .ok (hR.refl e.screen.io)

theorem renderSyncCursors (e : Editor) :
    Ends (fun _ => True) (fun e' => R e.screen.io e'.screen.io) (nrlRenderSyncCursors P t e) := by
  have hmove : Ends (fun _ => True) (fun e' => R e.screen.io e'.screen.io)
      (moveByMode P t e.line.cursor e) := by
    unfold moveByMode
    split
    · exact hR.moveToPosNormal t _ e
    · exact hR.moveToPosObscured t _ e
    · exact .ok (hR.refl e.screen.io)
  unfold nrlRenderSyncCursors
  refine (Ends.any _).bind fun _ _ => ?_
  exact hmove.bind fun e₁ h₁ => (hR.screenFlush e₁.screen).bind fun _ h₂ => .ok (hR.trans h₁ h₂)

/-- A redraw behind which no resize is looked after. -/
theorem renderRedraw {e : Editor} (hcalm : e.screen.render.resizeFlag = false) :
    Ends (fun _ => True) (fun e' => R e.screen.io e'.screen.io) (nrlRenderRedraw P t e) := by
  have hrequery : requery P t e.screen = .ok e.screen := by
    rw [requery, if_neg (by simp [hcalm])]
  unfold nrlRenderRedraw
  rw [hrequery, Run.ok_bind]
  refine (hR.redrawByMode t _).bind fun e₂ h₂ => ?_
  exact (hR.screenFlush _).bind fun _ h₃ => .ok (hR.trans h₂ h₃)

end Io.OutputFrame

end Nanorl
