import Nanorl.Lib.Zipper
import Nanorl.Sound.Screen
import Nanorl.Model.Session

/-!
# Nanorl.Sound.Edit

The line editor refines the two-list editor of `Nanorl.Lib.Zipper`.

Every edit of `manip.c` is matched by the list operation of the same name, and
drawing is matched by nothing: `nrl_render_redraw` takes its terminator off again
and `nrl_render_sync_cursors` moves the render cursor only. Since a two-list text
has its cursor within it, no run gets a vector call out of its range.
-/

namespace Nanorl

open Run (Ends)

/-- What a caller does with a line. -/
inductive EditOp
  | insert (text : List Uchar)
  | escape (key : TerminfoInput)
  | redraw
  | sync
  deriving Repr, DecidableEq

/-- One call into `manip.c` or `render.c`. -/
def EditOp.perform (P : Platform) (t : Terminfo) : EditOp → Editor → Except Fault Editor
  | .insert text, e => nrlManipInsertText P text e
  | .escape key, e => nrlManipEvalEscape P t key.id e
  | .redraw, e => nrlRenderRedraw P t e
  | .sync, e => nrlRenderSyncCursors P t e

/-- The list operation behind a key. -/
def zipperKey (z : Zipper Uchar) : TerminfoInput → Zipper Uchar
  | .keyLeft => z.moveLeft
  | .keyRight => z.moveRight
  | .keyBackspace => z.backspace
  | .keyDelete => z.delete
  | .keyHome => z.home
  | .keyEnd => z.toEnd

/-- The list operation behind a call. -/
def zipperOp (z : Zipper Uchar) : EditOp → Zipper Uchar
  | .insert text => z.insert text
  | .escape key => zipperKey z key
  | .redraw | .sync => z

/-- The line holds the text of the zipper, with the cursor where the two lists meet. -/
structure LineData.Shows (line : LineData) (z : Zipper Uchar) : Prop where
  buffer : line.buffer = z.toList
  cursor : line.cursor = z.cursor

theorem LineData.Shows.cursor_le {line : LineData} {z : Zipper Uchar} (h : line.Shows z) :
    line.cursor ≤ line.buffer.length := by
  rw [h.buffer, h.cursor]
  exact z.cursor_le_length

theorem LineData.SameText.shows {line line' : LineData} {z : Zipper Uchar}
    (h : line.SameText line') (hz : line.Shows z) : line'.Shows z :=
  ⟨h.buffer.trans hz.buffer, h.cursor.trans hz.cursor⟩

section Keys

variable (P : Platform) (t : Terminfo) {e : Editor} {z : Zipper Uchar}

/-- Text goes in at a cursor that is within the line. -/
theorem nrlManipInsertText_eq (text : List Uchar) (h : e.line.cursor ≤ e.line.buffer.length) :
    nrlManipInsertText P text e = .ok { e with line := { e.line with
      buffer := e.line.buffer.take e.line.cursor ++ text ++ e.line.buffer.drop e.line.cursor
      cursor := e.line.cursor + text.length
      dirty := true } } := by
  unfold nrlManipInsertText vecBulkInsert
  rw [if_pos h]
  dsimp only
  rw [P.assert_of _ (by decide)]
  rfl

theorem nrlManipInsertText_ends (text : List Uchar) (h : e.line.Shows z) :
    Ends DisplayFault (fun e' => e'.line.Shows (z.insert text)) (nrlManipInsertText P text e) := by
  rw [nrlManipInsertText_eq P text h.cursor_le]
  refine .ok ⟨?_, ?_⟩
  · rw [z.toList_insert, ← h.buffer, ← h.cursor]
  · rw [z.cursor_insert, ← h.cursor]

/-- A cursor that has moved over the same text is synchronised. -/
theorem syncCursors_ends {cursor : Nat} {z' : Zipper Uchar} (h : e.line.Shows z)
    (htext : z'.toList = z.toList) (hcursor : cursor = z'.cursor) :
    Ends DisplayFault (fun e' => e'.line.Shows z')
      (nrlRenderSyncCursors P t { e with line := { e.line with cursor } }) :=
  (nrlRenderSyncCursors_ends P t _ (fun _ => by decide) fun _ => by decide).mono fun _ hsync =>
    hsync.text.shows ⟨h.buffer.trans htext.symm, hcursor⟩

theorem escapeLeft_ends (h : e.line.Shows z) :
    Ends DisplayFault (fun e' => e'.line.Shows z.moveLeft) (escapeLeft P t e) := by
  unfold escapeLeft
  split
  · exact syncCursors_ends P t h z.toList_moveLeft (by rw [z.cursor_moveLeft, h.cursor])
  · refine .ok ⟨h.buffer.trans z.toList_moveLeft.symm, ?_⟩
    have hcursor := h.cursor
    rw [z.cursor_moveLeft]
    omega

theorem escapeRight_ends (h : e.line.Shows z) :
    Ends DisplayFault (fun e' => e'.line.Shows z.moveRight) (escapeRight P t e) := by
  have hcursor := z.cursor_moveRight
  rw [← h.buffer, ← h.cursor] at hcursor
  unfold escapeRight
  split
  · rename_i hlt
    exact syncCursors_ends P t h z.toList_moveRight (by rw [hcursor, if_pos hlt])
  · rename_i hge
    exact .ok ⟨h.buffer.trans z.toList_moveRight.symm, by rw [hcursor, if_neg hge]⟩

/-- The entry under the cursor goes, if there is one. -/
theorem escapeDelete_eq (e : Editor) :
    escapeDelete P e = .ok (if e.line.cursor < e.line.buffer.length then
      { e with line := { e.line with buffer := e.line.buffer.eraseIdx e.line.cursor, dirty := true } }
      else e) := by
  unfold escapeDelete vecErase
  split
  · dsimp only
    rw [P.assert_of _ (by decide)]
    rfl
  · rfl

theorem escapeDelete_ends (h : e.line.Shows z) :
    Ends DisplayFault (fun e' => e'.line.Shows z.delete) (escapeDelete P e) := by
  have htext := z.toList_delete
  rw [← h.buffer, ← h.cursor] at htext
  rw [escapeDelete_eq]
  split
  · exact .ok ⟨htext.symm, h.cursor.trans z.cursor_delete.symm⟩
  · rename_i hge
    rw [List.eraseIdx_of_length_le (Nat.le_of_not_lt hge)] at htext
    exact .ok ⟨htext.symm, h.cursor.trans z.cursor_delete.symm⟩

theorem escapeBackspace_ends (h : e.line.Shows z) :
    Ends DisplayFault (fun e' => e'.line.Shows z.backspace) (escapeBackspace P t e) := by
  unfold escapeBackspace
  split
  · rename_i hpos
    rw [z.backspace_eq (by rw [← h.cursor]; exact hpos)]
    exact (escapeLeft_ends P t h).bind fun e₁ h₁ => escapeDelete_ends P h₁
  · rename_i hzero
    rw [z.backspace_of_cursor_eq_zero (by rw [← h.cursor]; omega)]
    exact .ok h

theorem escapeHome_ends (h : e.line.Shows z) :
    Ends DisplayFault (fun e' => e'.line.Shows z.home) (escapeHome P t e) :=
  syncCursors_ends P t h z.toList_home z.cursor_home.symm

theorem escapeEnd_ends (h : e.line.Shows z) :
    Ends DisplayFault (fun e' => e'.line.Shows z.toEnd) (escapeEnd P t e) :=
  syncCursors_ends P t h z.toList_toEnd (by rw [z.cursor_toEnd, h.buffer])

/-- Each key runs its own function. -/
theorem nrlManipEvalEscape_key (key : TerminfoInput) (e : Editor) :
    nrlManipEvalEscape P t key.id e =
      match key with
      | .keyLeft => escapeLeft P t e
      | .keyRight => escapeRight P t e
      | .keyBackspace => escapeBackspace P t e
      | .keyDelete => escapeDelete P e
      | .keyHome => escapeHome P t e
      | .keyEnd => escapeEnd P t e := by
  cases key <;> rfl

theorem nrlManipEvalEscape_ends (key : TerminfoInput) (h : e.line.Shows z) :
    Ends DisplayFault (fun e' => e'.line.Shows (zipperKey z key))
      (nrlManipEvalEscape P t key.id e) := by
  rw [nrlManipEvalEscape_key]
  cases key with
  | keyLeft => exact escapeLeft_ends P t h
  | keyRight => exact escapeRight_ends P t h
  | keyBackspace => exact escapeBackspace_ends P t h
  | keyDelete => exact escapeDelete_ends P h
  | keyHome => exact escapeHome_ends P t h
  | keyEnd => exact escapeEnd_ends P t h

theorem EditOp.perform_ends (op : EditOp) (h : e.line.Shows z) :
    Ends DisplayFault (fun e' => e'.line.Shows (zipperOp z op)) (op.perform P t e) := by
  cases op with
  | insert text => exact nrlManipInsertText_ends P text h
  | escape key => exact nrlManipEvalEscape_ends P t key h
  | redraw =>
    exact (nrlRenderRedraw_ends P t e fun _ _ _ => by decide).mono fun _ hdraw => hdraw.text.shows h
  | sync =>
    exact (nrlRenderSyncCursors_ends P t e (fun _ => by decide) fun _ => by decide).mono
      fun _ hsync => hsync.text.shows h

end Keys

/-- **Refinement.** From the empty line, whatever the screen, every run of edits and
drawing that comes to an end leaves the text and the cursor of the zipper behind,
and a run that does not is never one with a vector call out of range. -/
theorem editor_refines_zipper (P : Platform) (t : Terminfo) (screen : Screen) (ops : List EditOp) :
    (∀ e, Run.exec (EditOp.perform P t) ops { line := emptyLine, screen } = .ok e →
      e.line.buffer = (ops.foldl zipperOp .empty).toList ∧
      e.line.cursor = (ops.foldl zipperOp .empty).cursor ∧
      e.line.cursor ≤ e.line.buffer.length) ∧
    ∀ f, Run.exec (EditOp.perform P t) ops { line := emptyLine, screen } = .error f →
      f ≠ .assertion .vectorStatus := by
  have h : Ends DisplayFault (fun e => e.line.Shows (ops.foldl zipperOp .empty))
      (Run.exec (EditOp.perform P t) ops { line := emptyLine, screen }) :=
    Run.exec_simulation (R := fun (e : Editor) z => e.line.Shows z)
      (fun op e z hz => op.perform_ends P t hz) ⟨rfl, rfl⟩
  exact ⟨fun e he => ⟨(h.of_ok he).buffer, (h.of_ok he).cursor, (h.of_ok he).cursor_le⟩,
    fun f hf => h.of_error hf⟩

end Nanorl
