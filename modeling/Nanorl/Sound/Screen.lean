import Nanorl.Model.Render

/-!
# Nanorl.Sound.Screen

What the drawing functions do to the line and to the position of the cursor.

Every function of `render.c` gets its triple, over any predicate on faults that
allows the faults of the functions it calls (`IoFaults`, `DrawFaults`); a division by
zero it has to allow only where there are no columns. What is written does not matter
here, only whether a write is complete: `move_cursor_2d` keeps its books only then.
-/

namespace Nanorl

open Run (Ends)

/-- The faults of reading and writing are allowed. -/
class IoFaults (F : Fault → Prop) : Prop where
  assertion : ∀ a, a ≠ .vectorStatus ∧ a ≠ .termSmart → F (.assertion a)
  outOfBounds : F .outOfBounds
  uninitialised : F .uninitialised
  outOfFuel : F .outOfFuel

/-- The faults of drawing on a screen that has columns are allowed. -/
class DrawFaults (F : Fault → Prop) : Prop extends IoFaults F where
  nullDeref : F .nullDeref

/-- A fault other than an insertion or an erasure out of the vector's range. -/
def DisplayFault (f : Fault) : Prop := f ≠ .assertion .vectorStatus

instance (f : Fault) : Decidable (DisplayFault f) := inferInstanceAs (Decidable (_ ≠ _))

instance : DrawFaults DisplayFault where
  assertion a ha h := ha.1 (Fault.assertion.inj h)
  outOfBounds := by decide
  uninitialised := by decide
  outOfFuel := by decide
  nullDeref := by decide

instance : DrawFaults fun _ => True where
  assertion _ _ := trivial
  outOfBounds := trivial
  uninitialised := trivial
  outOfFuel := trivial
  nullDeref := trivial

/-- The asserts on the line and on the widths of its characters. -/
def Assertion.OnLine (a : Assertion) : Prop :=
  a = .vectorStatus ∨ a = .termSmart ∨ a = .charWidth ∨ a = .lineWidth

instance (a : Assertion) : Decidable a.OnLine := inferInstanceAs (Decidable (_ ∨ _))

/-- The faults of reading and writing are allowed, but no assert on the line need be. -/
class PlainFaults (F : Fault → Prop) : Prop where
  assertion : ∀ a : Assertion, ¬ a.OnLine → F (.assertion a)
  outOfBounds : F .outOfBounds
  uninitialised : F .uninitialised
  outOfFuel : F .outOfFuel

/-- The faults of a query are allowed, too. -/
class QueryFaults (F : Fault → Prop) : Prop extends PlainFaults F where
  nullDeref : F .nullDeref

instance {F : Fault → Prop} [IoFaults F] : PlainFaults F where
  assertion a ha := IoFaults.assertion a ⟨fun h => ha (.inl h), fun h => ha (.inr (.inl h))⟩
  outOfBounds := IoFaults.outOfBounds
  uninitialised := IoFaults.uninitialised
  outOfFuel := IoFaults.outOfFuel

instance {F : Fault → Prop} [DrawFaults F] : QueryFaults F where
  nullDeref := DrawFaults.nullDeref

section Io

variable {F : Fault → Prop} [PlainFaults F]

theorem assert_ends (P : Platform) {a : Assertion} (ha : ¬ a.OnLine) (b : Bool) :
    Ends F (fun _ => b = true ∨ P.ndebug = true) (P.assert a b) :=
  ⟨Platform.assert_ok.mp, fun h => P.assert_error h ▸ PlainFaults.assertion a ha⟩

/-! ### Formats -/

theorem formatLoop_ends (fmt : List Byte) (s : FormatState) :
    Ends F (fun _ => True) (formatLoop fmt s) := by
  fun_induction formatLoop fmt s with
  | case1 | case4 | case5 | case8 => exact .ok trivial
  | case3 => exact .error PlainFaults.outOfBounds
  | case2 | case6 | case7 | case9 | case10 => assumption

theorem parseEnd_ends (s : ParseState) : Ends F (fun _ => True) (parseEnd s) := by
  unfold parseEnd
  split
  · split
    · exact .ok trivial
    · exact .error PlainFaults.uninitialised
  · exact .ok trivial

theorem parseLoop_ends (fmt data : List Byte) (s : ParseState) :
    Ends F (fun _ => True) (parseLoop fmt data s) := by
  fun_induction parseLoop fmt data s with
  | case1 data s => exact parseEnd_ends s
  | case5 => exact .error PlainFaults.outOfBounds
  | _ => first | assumption | exact .ok trivial

/-! ### Output -/

/-- Every write that is still to come is complete. -/
def World.WritesComplete (w : World) : Prop := ∀ r ∈ w.writes, r = .complete

theorem World.write_complete {w : World} (h : w.WritesComplete) (data : List Byte) :
    (w.write data).1 = data.length ∧ (w.write data).2.WritesComplete := by
  obtain ⟨errno, reads, writes, echoed, stray, isTty, calls, winsizes, attrs, actions⟩ := w
  cases writes with
  | nil => exact ⟨rfl, h⟩
  | cons r ws =>
    obtain rfl : r = .complete := h r List.mem_cons_self
    exact ⟨rfl, fun r hr => h r (List.mem_cons_of_mem _ hr)⟩

/-- The result of an output function: if all writes are complete, it succeeds. -/
def Completes (io : Io) (r : Bool × Io) : Prop :=
  io.world.WritesComplete → r.1 = true ∧ r.2.world.WritesComplete

theorem nrlIoFlush_ends (P : Platform) (io : Io) :
    Ends F (Completes io) (nrlIoFlush P io) := by
  unfold nrlIoFlush
  refine (assert_ends P (by decide) _).bind fun _ _ => ?_
  split
  · exact .ok fun h => ⟨rfl, h⟩
  · have hw := fun h => World.write_complete (w := io.world) h (slice io.wrBuf 0 io.wrCount)
    generalize io.world.write (slice io.wrBuf 0 io.wrCount) = result at hw ⊢
    obtain ⟨written, world⟩ := result
    dsimp only
    split
    · rename_i hne
      refine .ok fun h => ?_
      have hlen := (hw h).1
      rw [length_slice] at hlen
      exact absurd hlen hne
    · exact .ok fun h => ⟨rfl, (hw h).2⟩

theorem bufferData_ends (data : List Byte) (io : Io) :
    Ends F (Completes io) (bufferData data io) := by
  unfold bufferData
  split
  · refine .ok fun h => ?_
    obtain ⟨hn, hc⟩ := World.write_complete h data
    exact ⟨decide_eq_true hn, hc⟩
  · split
    · exact .ok fun h => ⟨rfl, h⟩
    · exact .error PlainFaults.outOfBounds

theorem nrlIoWrite_ends (P : Platform) (data : List Byte) (io : Io) :
    Ends F (Completes io) (nrlIoWrite P data io) := by
  unfold nrlIoWrite
  split
  · split
    · refine (nrlIoFlush_ends P io).bind fun ⟨flushed, io'⟩ hflush => ?_
      cases flushed with
      | true => exact (bufferData_ends data io').mono fun r hr h => hr (hflush h).2
      | false => exact .ok fun h => absurd (hflush h).1 Bool.false_ne_true
    · exact bufferData_ends data io
  · exact .ok fun h => ⟨rfl, h⟩

end Io

theorem World.write_cases (w : World) (data : List Byte) : ∃ errno writes echoed,
    (w.write data).2 = { w with errno, writes, echoed } := by
  unfold World.write
  split <;> exact ⟨_, _, _, rfl⟩

/-- Some output: nothing else is done to the data of `io.c` and to the world. -/
def Io.Writes (io io' : Io) : Prop :=
  ∃ wrBuf wrCount errno writes echoed, io' = { io with
    wrBuf, wrCount, world := { io.world with errno, writes, echoed } }

theorem Io.Writes.refl (io : Io) : io.Writes io := ⟨_, _, _, _, _, rfl⟩

theorem Io.Writes.trans {io₁ io₂ io₃ : Io} (h : io₁.Writes io₂) (h' : io₂.Writes io₃) :
    io₁.Writes io₃ := by
  obtain ⟨_, _, _, _, _, rfl⟩ := h
  obtain ⟨wrBuf, wrCount, errno, writes, echoed, rfl⟩ := h'
  exact ⟨wrBuf, wrCount, errno, writes, echoed, rfl⟩

section Writes

variable (P : Platform)

theorem nrlIoFlush_writes (io : Io) : Ends (fun _ => True) (fun r => io.Writes r.2) (nrlIoFlush P io) := by
  unfold nrlIoFlush
  refine (Ends.any _).bind fun _ _ => ?_
  split
  · exact .ok (.refl io)
  · obtain ⟨errno, writes, echoed, hworld⟩ := io.world.write_cases (slice io.wrBuf 0 io.wrCount)
    dsimp only
    rw [hworld]
    split <;> exact .ok ⟨_, _, _, _, _, rfl⟩

theorem bufferData_writes (data : List Byte) (io : Io) :
    Ends (fun _ => True) (fun r => io.Writes r.2) (bufferData data io) := by
  unfold bufferData
  split
  · obtain ⟨errno, writes, echoed, hworld⟩ := io.world.write_cases data
    dsimp only
    rw [hworld]
    exact .ok ⟨_, _, _, _, _, rfl⟩
  · split
    · exact .ok ⟨_, _, _, _, _, rfl⟩
    · exact .error trivial

theorem nrlIoWrite_writes (data : List Byte) (io : Io) :
    Ends (fun _ => True) (fun r => io.Writes r.2) (nrlIoWrite P data io) := by
  unfold nrlIoWrite
  split
  · split
    · refine (nrlIoFlush_writes P io).bind fun r hflush => ?_
      obtain ⟨flushed, io₁⟩ := r
      cases flushed with
      | false => exact .ok hflush
      | true => exact (bufferData_writes data io₁).mono fun _ => hflush.trans
    · exact bufferData_writes data io
  · exact .ok (.refl io)

end Writes

/-! ### Screens -/

def Screen.WritesComplete (s : Screen) : Prop := s.io.world.WritesComplete

/-- Output only: the books of `render.c` are as they were. -/
structure Screen.Outputs (s s' : Screen) : Prop where
  render : s'.render = s.render
  complete : s.WritesComplete → s'.WritesComplete

theorem Screen.Outputs.trans {s₁ s₂ s₃ : Screen} (h : s₁.Outputs s₂) (h' : s₂.Outputs s₃) :
    s₁.Outputs s₃ :=
  ⟨h'.render.trans h.render, fun hc => h'.complete (h.complete hc)⟩

theorem Screen.Outputs.refl (s : Screen) : s.Outputs s := ⟨rfl, id⟩

section Screen

variable (P : Platform) (t : Terminfo) {F : Fault → Prop}

section Output

variable [PlainFaults F]

theorem Screen.write_ends (data : List Byte) (s : Screen) :
    Ends F s.Outputs (s.write P data) :=
  (nrlIoWrite_ends P data s.io).bind fun _ h => .ok ⟨rfl, fun hc => (h hc).2⟩

theorem Screen.flush_ends (s : Screen) : Ends F s.Outputs (s.flush P) :=
  (nrlIoFlush_ends P s.io).bind fun _ h => .ok ⟨rfl, fun hc => (h hc).2⟩

theorem Screen.writeTimes_ends (c : Byte) (count : Nat) (s : Screen) :
    Ends F s.Outputs (s.writeTimes P c count) := by
  induction count generalizing s with
  | zero => exact .ok (.refl s)
  | succ count ih =>
    exact (s.write_ends P [c]).bind fun s' h => (ih s').mono fun _ => h.trans

end Output

theorem linearOffsetTo2d_ends (termSize origin : Pos2d) (pos : Int)
    (hdiv : termSize.col = 0 → F .divByZero) :
    Ends F (fun p => linearOffsetTo2d termSize origin pos = .ok p)
      (linearOffsetTo2d termSize origin pos) := by
  refine ⟨id, fun h => ?_⟩
  unfold linearOffsetTo2d at h
  dsimp only at h
  split at h
  · cases h
  · split at h
    · rename_i hzero
      exact Except.error.inj h ▸ hdiv hzero
    · cases h

/-- The outcome of a move to `location`: only a complete one is entered in the books. -/
structure Moves (location : Pos2d) (s : Screen) (r : Bool × Screen) : Prop where
  render : r.2.render = if r.1 then { s.render with cursorPos := location } else s.render
  complete : s.WritesComplete → r.1 = true ∧ r.2.WritesComplete

theorem moveCursor2d_ends [QueryFaults F] (location : Pos2d) (s : Screen) :
    Ends F (Moves location s) (moveCursor2d P t location s) := by
  unfold moveCursor2d
  split
  · exact .error QueryFaults.nullDeref
  · unfold nrlTerminfoStringFormat
    split
    · exact .error PlainFaults.outOfBounds
    · refine (formatLoop_ends _ _).bind fun moveCmd _ => ?_
      cases moveCmd with
      | none => exact .error QueryFaults.nullDeref
      | some moveCmd =>
        refine (nrlIoWrite_ends P moveCmd s.io).bind fun ⟨written, io⟩ hwrite => ?_
        cases written with
        | false => exact .ok ⟨rfl, fun h => absurd (hwrite h).1 Bool.false_ne_true⟩
        | true =>
          refine (nrlIoFlush_ends P io).bind fun ⟨flushed, io'⟩ hflush => ?_
          cases flushed with
          | false => exact .ok ⟨rfl, fun h => absurd (hflush (hwrite h).2).1 Bool.false_ne_true⟩
          | true => exact .ok ⟨rfl, fun h => ⟨rfl, (hflush (hwrite h).2).2⟩⟩

/-- The books after `handle_scroll`. -/
def Render.scrolledUp (r : Render) : Render :=
  let rowsScrolled := int32 (r.cursorPos.row - r.termSize.row + 1)
  if rowsScrolled ≤ 0 then r
  else { r with
    cursorPos := { r.cursorPos with row := uint32 (r.cursorPos.row - rowsScrolled) }
    scrolled := r.scrolled + rowsScrolled.toNat }

theorem forceScroll_ends [PlainFaults F] (s : Screen) : Ends F s.Outputs (forceScroll P s) := by
  unfold forceScroll
  split
  · exact (s.write_ends P [10]).bind fun s' h => (s'.flush_ends P).mono fun _ => h.trans
  · exact .ok (.refl s)

theorem handleScroll_ends [PlainFaults F] (s : Screen) :
    Ends F
      (fun s' => s'.render = s.render.scrolledUp ∧ (s.WritesComplete → s'.WritesComplete))
      (handleScroll P s) := by
  unfold handleScroll Render.scrolledUp
  dsimp only
  split
  · exact .ok ⟨rfl, id⟩
  · refine (forceScroll_ends P s).bind fun s' h => .ok ⟨?_, h.complete⟩
    dsimp only
    rw [h.render]

/-- The books after a redraw has drawn `width` columns. -/
structure Draws (width : Int) (s s' : Screen) : Prop where
  render : ∃ cursorPos, linearOffsetTo2d s.render.termSize s.render.cursorPos width = .ok cursorPos ∧
    s'.render = { ({ s.render with cursorPos } : Render).scrolledUp with
      lastRenderedWidth := uint32 width }
  complete : s.WritesComplete → s'.WritesComplete

theorem afterDrawing_ends [PlainFaults F] (width : Int) (count : Nat) (s : Screen)
    (hdiv : s.render.termSize.col = 0 → F .divByZero) :
    Ends F (Draws width s) (afterDrawing P width count s) := by
  unfold afterDrawing
  refine (linearOffsetTo2d_ends _ _ _ hdiv).bind fun cursorPos hpos => ?_
  refine (handleScroll_ends P _).bind fun s₁ h₁ => ?_
  refine (Screen.writeTimes_ends P 32 _ s₁).bind fun s₂ h₂ => ?_
  refine .ok ⟨⟨cursorPos, hpos, ?_⟩, fun hc => h₂.complete (h₁.2 hc)⟩
  dsimp only
  rw [h₂.render, h₁.1]

/-! ### Queries -/

section Queries

variable [PlainFaults F]

theorem readResponse_ends (lastChar : Byte) (fuel : Nat) (resBuf : List Byte) (io : Io) :
    Ends F (fun _ => True) (readResponse P lastChar fuel resBuf io) := by
  induction fuel generalizing resBuf io with
  | zero => exact .error PlainFaults.outOfFuel
  | succ fuel ih =>
    have hraw : Ends F (fun _ => True) (nrlIoRawRead P cprResBufSize io) :=
      (assert_ends P (by decide) _).bind fun _ _ =>
        (assert_ends P (by decide) _).bind fun _ _ => .ok trivial
    unfold readResponse
    refine hraw.bind fun ⟨bytes, io'⟩ _ => ?_
    cases bytes with
    | none => exact .ok trivial
    | some bytes =>
      dsimp only
      split
      · exact .error PlainFaults.outOfBounds
      · split
        · exact .error PlainFaults.outOfBounds
        · split
          · exact .ok trivial
          · exact ih _ _

theorem positionOf_ends (cprRes resBuf : List Byte) : Ends F (fun _ => True) (positionOf P cprRes resBuf) := by
  have htarget : ∀ target, Ends F (fun _ => True) (readTarget target) := by
    rintro (_ | n)
    · exact .error PlainFaults.uninitialised
    · exact .ok trivial
  unfold positionOf
  refine (assert_ends P (by decide) _).bind fun _ _ => ?_
  split
  · exact .error PlainFaults.outOfBounds
  · refine (parseLoop_ends _ _ _).bind fun ⟨res, rowTarget, colTarget⟩ _ => ?_
    refine (htarget rowTarget).bind fun rowBuf _ => (assert_ends P (by decide) _).bind fun _ _ => ?_
    exact (htarget colTarget).bind fun colBuf _ => (assert_ends P (by decide) _).bind fun _ _ => .ok trivial

/-- Without the format of a report there is nothing to scan it with. -/
theorem receiveReport_ends (io : Io)
    (hnull : nrlLookupSpecial t TerminfoSpecial.user6.id = none → F .nullDeref) :
    Ends F (fun _ => True) (receiveReport P t io) := by
  unfold receiveReport
  split
  · rename_i hnone
    exact .error (hnull hnone)
  · split
    · exact .error PlainFaults.outOfBounds
    · refine (readResponse_ends P _ _ _ io).bind fun ⟨resBuf, io₁⟩ _ => ?_
      cases resBuf with
      | none => exact .ok trivial
      | some resBuf => exact (positionOf_ends P _ resBuf).bind fun _ _ => .ok trivial

theorem queryCursor_ends (io : Io)
    (hnull : nrlLookupSpecial t TerminfoSpecial.user7.id = none ∨
      nrlLookupSpecial t TerminfoSpecial.user6.id = none → F .nullDeref) :
    Ends F (fun _ => True) (queryCursor P t io) := by
  unfold queryCursor
  split
  · rename_i hnone
    exact .error (hnull (.inl hnone))
  · refine (nrlIoWrite_ends P _ io).bind fun ⟨written, io₁⟩ _ => ?_
    cases written with
    | false => exact .ok trivial
    | true =>
      refine (nrlIoFlush_ends P io₁).bind fun ⟨flushed, io₂⟩ _ => ?_
      cases flushed with
      | false => exact .ok trivial
      | true => exact receiveReport_ends P t io₂ fun hnone => hnull (.inr hnone)

end Queries

/-- The dimensions are returned; of the books only the position changes. -/
theorem querySize_ends [QueryFaults F] (buf : Pos2d) (s : Screen) :
    Ends F (fun r => ∃ cursorPos, r.2.2.render = { s.render with cursorPos })
      (querySize P t buf s) := by
  unfold querySize
  generalize s.io.world.winsize = reply
  obtain ⟨_ | ⟨rows, cols⟩, world⟩ := reply
  · refine (queryCursor_ends P t _ fun _ => QueryFaults.nullDeref).bind fun ⟨saved, io⟩ _ => ?_
    cases saved with
    | none => exact .ok ⟨_, rfl⟩
    | some savedPos =>
      refine (moveCursor2d_ends P t _ _).bind fun ⟨moved, s₁⟩ h₁ => ?_
      cases moved with
      | false => exact .ok ⟨_, h₁.render⟩
      | true =>
        refine (queryCursor_ends P t _ fun _ => QueryFaults.nullDeref).bind fun ⟨corner, io₁⟩ _ => ?_
        cases corner with
        | none => exact .ok ⟨_, h₁.render⟩
        | some buf =>
          refine (moveCursor2d_ends P t _ _).bind fun ⟨moved, s₂⟩ h₂ => ?_
          cases moved with
          | false => exact .ok ⟨_, h₂.render.trans h₁.render⟩
          | true => exact .ok ⟨savedPos, h₂.render.trans (congrArg
              (fun r : Render => { r with cursorPos := savedPos }) h₁.render)⟩
  · exact .ok ⟨_, rfl⟩

/-- A query after a resize; without one nothing changes. -/
structure Requeries (s s' : Screen) : Prop where
  requery : requery P t s = .ok s'
  render : ∃ cursorPos termSize, s'.render = { s.render with cursorPos, termSize }
  same : s.render.resizeFlag = false → s' = s

theorem requery_ends [QueryFaults F] (s : Screen) :
    Ends F (Requeries P t s) (requery P t s) := by
  suffices h : Ends F (fun s' => (∃ cursorPos termSize,
      s'.render = { s.render with cursorPos, termSize }) ∧ (s.render.resizeFlag = false → s' = s))
      (requery P t s) from
    ⟨fun hs => ⟨hs, (h.of_ok hs).1, (h.of_ok hs).2⟩, h.of_error⟩
  unfold requery
  split
  · rename_i hflag
    refine (queryCursor_ends P t s.io fun _ => QueryFaults.nullDeref).bind fun ⟨cursorPos, io⟩ _ => ?_
    refine (querySize_ends P t _ _).bind fun ⟨_, termSize, s₁⟩ ⟨pos, hrender⟩ =>
      .ok ⟨⟨pos, termSize, ?_⟩, ?_⟩
    · dsimp only at hrender ⊢
      rw [hrender]
    · intro hresize
      rw [hresize] at hflag
      exact absurd hflag (by simp)
  · exact .ok ⟨⟨_, _, rfl⟩, fun _ => rfl⟩

/-- What a successful `nrl_render_init` has entered in the books. -/
structure Opens (mode : EchoMode) (s s' : Screen) : Prop where
  echoMode : s'.render.echoMode = mode
  termSmart : s'.render.termSmart = nrlTermIsSmart t
  resizeFlag : s'.render.resizeFlag = s.render.resizeFlag
  scrolled : s'.render.scrolled = 0

theorem nrlRenderInit_ends [QueryFaults F] (mode : EchoMode) (echoFile : Int) (s : Screen) :
    Ends F (fun r => r.1 = true → Opens t mode s r.2)
      (nrlRenderInit P t mode echoFile s) := by
  unfold nrlRenderInit
  dsimp only
  split
  · refine (queryCursor_ends P t s.io fun _ => QueryFaults.nullDeref).bind fun ⟨cursorPos, io⟩ _ => ?_
    cases cursorPos with
    | none => exact .ok fun h => absurd h Bool.false_ne_true
    | some cursorPos =>
      refine (querySize_ends P t _ _).bind fun ⟨queried, size, s'⟩ ⟨cursorPos', hrender⟩ => .ok fun _ => ?_
      dsimp only at hrender
      refine ⟨?_, ?_, ?_, ?_⟩ <;> dsimp only <;> rw [hrender]
  · exact .ok fun _ => ⟨rfl, rfl, rfl, rfl⟩

theorem nrlRenderInit_ok {mode : EchoMode} {echoFile : Int} {s s' : Screen}
    (h : nrlRenderInit P t mode echoFile s = .ok (true, s')) : Opens t mode s s' :=
  (nrlRenderInit_ends (F := fun _ => True) P t mode echoFile s).of_ok h rfl

/-! ### The line -/

/-- The text and the cursor of the line stay as they are. -/
structure LineData.SameText (line line' : LineData) : Prop where
  buffer : line'.buffer = line.buffer
  cursor : line'.cursor = line.cursor

/-- Where a move of the render cursor to `pos` ends and how wide it is. -/
abbrev Steps := Nat → LineData → Except Fault (Nat × Int)

/-- The steps of `move_to_pos_normal`. -/
def normalSteps : Steps := fun pos line =>
  stepCursor P line.buffer pos (decide (int32 (int32 pos - int32 line.renderCursor) > 0))
    (line.buffer.length + 1) line.renderCursor 0

/-- The steps of `move_to_pos_obscured`. -/
def obscuredSteps : Steps := fun pos line =>
  let offset := int32 (int32 pos - int32 line.renderCursor)
  .ok (uint32 (int32 line.renderCursor + offset), offset)

/-- A move of the render cursor to `pos` that ends at `renderCursor`. -/
structure MovesTo (steps : Steps) (pos : Nat) (e e' : Editor) (renderCursor : Nat)
    (location : Pos2d) (moved : Bool) : Prop where
  stepped : ∃ moveWidth, steps pos e.line = .ok (renderCursor, moveWidth) ∧
    linearOffsetTo2d e.screen.render.termSize e.screen.render.cursorPos moveWidth = .ok location
  line : e'.line = { e.line with renderCursor }
  moves : Moves location e.screen (moved, e'.screen)

/-- A move of the render cursor to `pos`. -/
def Reaches (steps : Steps) (pos : Nat) (e e' : Editor) : Prop :=
  ∃ renderCursor location moved, MovesTo steps pos e e' renderCursor location moved

/-- The failures of the asserts on widths are allowed where a character or the text has
none. -/
structure WidthFaults (P : Platform) (F : Fault → Prop) (text : List Uchar) : Prop where
  charWidth : ∀ c ∈ text, P.ucwidth c = -1 → F (.assertion .charWidth)
  lineWidth : ∀ n, P.ucswidth (text.take n) = -1 → F (.assertion .lineWidth)

theorem WidthFaults.of_draw {P : Platform} [DrawFaults F] (text : List Uchar) : WidthFaults P F text :=
  ⟨fun _ _ _ => IoFaults.assertion _ (by decide), fun _ _ => IoFaults.assertion _ (by decide)⟩

theorem WidthFaults.of_append {P : Platform} {text rest : List Uchar}
    (h : WidthFaults P F (text ++ rest)) : WidthFaults P F text := by
  refine ⟨fun c hc => h.charWidth c (List.mem_append_left _ hc), fun n hn => ?_⟩
  refine h.lineWidth (min n text.length) ?_
  rw [List.take_append_of_le_length (Nat.min_le_right _ _), ← hn]
  congr 1
  rcases Nat.le_total n text.length with hle | hle
  · rw [Nat.min_eq_left hle]
  · rw [Nat.min_eq_right hle, List.take_length, List.take_of_length_le hle]

theorem stepCursor_widths [QueryFaults F] {buffer : List Uchar} (hwidths : WidthFaults P F buffer)
    (pos : Nat) (dirFwd : Bool) (fuel renderCursor : Nat) (moveWidth : Int) :
    Ends F
      (fun r => stepCursor P buffer pos dirFwd fuel renderCursor moveWidth = .ok r)
      (stepCursor P buffer pos dirFwd fuel renderCursor moveWidth) := by
  refine ⟨id, fun {f} => ?_⟩
  induction fuel generalizing renderCursor moveWidth with
  | zero =>
    intro h
    exact Except.error.inj h ▸ PlainFaults.outOfFuel
  | succ fuel ih =>
    rw [stepCursor]
    intro h
    split at h
    · cases h
    · dsimp only at h
      split at h
      · exact Except.error.inj h ▸ QueryFaults.nullDeref
      · rename_i step hstep
        rcases Run.bind_eq_error.mp h with hassert | ⟨u, -, h⟩
        · rw [P.assert_error hassert]
          refine hwidths.charWidth step (List.mem_of_getElem? hstep) ?_
          by_contra hne
          rw [P.assert_of _ (decide_eq_true hne)] at hassert
          cases hassert
        · split at h <;> exact ih _ _ h

theorem moveToPosNormal_widths [QueryFaults F] (pos : Nat) (e : Editor)
    (hwidths : WidthFaults P F e.line.buffer)
    (hdiv : e.screen.render.termSize.col = 0 → F .divByZero) :
    Ends F (Reaches (normalSteps P) pos e) (moveToPosNormal P t pos e) := by
  unfold moveToPosNormal
  refine (stepCursor_widths P hwidths _ _ _ _ _).bind fun ⟨renderCursor, moveWidth⟩ hsteps => ?_
  refine (linearOffsetTo2d_ends _ _ _ hdiv).bind fun location hlocation => ?_
  refine (moveCursor2d_ends P t location e.screen).bind fun ⟨moved, screen⟩ hmoves => ?_
  exact .ok ⟨renderCursor, location, moved, ⟨moveWidth, hsteps, hlocation⟩, rfl, hmoves⟩

theorem moveToPosNormal_ends [DrawFaults F] (pos : Nat) (e : Editor)
    (hdiv : e.screen.render.termSize.col = 0 → F .divByZero) :
    Ends F (Reaches (normalSteps P) pos e) (moveToPosNormal P t pos e) :=
  moveToPosNormal_widths P t pos e (.of_draw _) hdiv

theorem moveToPosObscured_ends [QueryFaults F] (pos : Nat) (e : Editor)
    (hdiv : e.screen.render.termSize.col = 0 → F .divByZero) :
    Ends F (Reaches obscuredSteps pos e) (moveToPosObscured P t pos e) := by
  unfold moveToPosObscured
  refine (linearOffsetTo2d_ends _ _ _ hdiv).bind fun location hlocation => ?_
  refine (moveCursor2d_ends P t location e.screen).bind fun ⟨moved, screen⟩ hmoves => ?_
  exact .ok ⟨_, location, moved, ⟨_, rfl, hlocation⟩, rfl, hmoves⟩

/-- The steps of a move, by echo mode. Without an echo there is nothing to step over. -/
def modeSteps : EchoMode → Steps
  | .on => normalSteps P
  | .obscured => obscuredSteps
  | .off => fun _ line => .ok (line.renderCursor, 0)

/-- The width of a text on the screen, by echo mode. -/
def drawnWidth (mode : EchoMode) (text : List Uchar) : Int :=
  match mode with
  | .on => P.ucswidth text
  | .obscured => text.length
  | .off => 0

/-- Only the position changes in the books. -/
def Render.MovedTo (r r' : Render) : Prop := ∃ cursorPos, r' = { r with cursorPos }

/-- What drawing enters in the books. -/
def Render.DrawnTo (r r' : Render) : Prop :=
  ∃ cursorPos lastRenderedWidth scrolled,
    r' = { r with cursorPos, lastRenderedWidth, scrolled }

theorem Render.MovedTo.drawnTo {r r' : Render} (h : r.MovedTo r') : r.DrawnTo r' := by
  obtain ⟨cursorPos, rfl⟩ := h
  exact ⟨cursorPos, _, _, rfl⟩

theorem Render.DrawnTo.trans {r₁ r₂ r₃ : Render} (h : r₁.DrawnTo r₂) (h' : r₂.DrawnTo r₃) :
    r₁.DrawnTo r₃ := by
  obtain ⟨_, _, _, rfl⟩ := h
  obtain ⟨cursorPos, lastRenderedWidth, scrolled, rfl⟩ := h'
  exact ⟨cursorPos, lastRenderedWidth, scrolled, rfl⟩

theorem Render.DrawnTo.termSize {r r' : Render} (h : r.DrawnTo r') : r'.termSize = r.termSize := by
  obtain ⟨_, _, _, rfl⟩ := h
  rfl

theorem Render.scrolledUp_drawnTo (r : Render) : r.DrawnTo r.scrolledUp := by
  unfold Render.scrolledUp
  dsimp only
  split
  · exact ⟨_, _, _, rfl⟩
  · exact ⟨_, r.lastRenderedWidth, _, rfl⟩

theorem Draws.drawnTo {width : Int} {s s' : Screen} (h : Draws width s s') :
    s.render.DrawnTo s'.render := by
  obtain ⟨⟨cursorPos, -, hrender⟩, -⟩ := h
  obtain ⟨cursorPos', lastRenderedWidth, scrolled, hup⟩ :=
    Render.scrolledUp_drawnTo { s.render with cursorPos }
  rw [hrender, hup]
  exact ⟨cursorPos', uint32 width, scrolled, rfl⟩

theorem Reaches.line {steps : Steps} {pos : Nat} {e e' : Editor} (h : Reaches steps pos e e') :
    ∃ renderCursor, e'.line = { e.line with renderCursor } := by
  obtain ⟨renderCursor, location, moved, h⟩ := h
  exact ⟨renderCursor, h.line⟩

theorem Reaches.movedTo {steps : Steps} {pos : Nat} {e e' : Editor} (h : Reaches steps pos e e') :
    e.screen.render.MovedTo e'.screen.render := by
  obtain ⟨renderCursor, location, moved, h⟩ := h
  have hrender := h.moves.render
  cases moved with
  | true => exact ⟨location, hrender⟩
  | false => exact ⟨e.screen.render.cursorPos, hrender⟩

theorem Reaches.sameText {steps : Steps} {pos : Nat} {e e' : Editor} (h : Reaches steps pos e e') :
    e.line.SameText e'.line := by
  obtain ⟨renderCursor, hline⟩ := h.line
  rw [hline]
  exact ⟨rfl, rfl⟩

/-- A move of both cursors of a line, by echo mode. -/
structure Retraces (pos : Nat) (e e' : Editor) : Prop where
  line : ∃ renderCursor, e'.line = { e.line with renderCursor }
  render : e.screen.render.MovedTo e'.screen.render
  reaches : e.screen.render.echoMode ≠ .off →
    Reaches (modeSteps P e.screen.render.echoMode) pos e e'

theorem moveByMode_widths [QueryFaults F] (pos : Nat) (e : Editor)
    (hwidths : WidthFaults P F e.line.buffer)
    (hdiv : e.screen.render.termSize.col = 0 → F .divByZero) :
    Ends F (Retraces P pos e) (moveByMode P t pos e) := by
  have hreaches : ∀ {steps e'}, Reaches steps pos e e' →
      steps = modeSteps P e.screen.render.echoMode → Retraces P pos e e' :=
    fun h hsteps => ⟨h.line, h.movedTo, fun _ => hsteps ▸ h⟩
  unfold moveByMode
  split
  · rename_i hmode
    exact (moveToPosNormal_widths P t pos e hwidths hdiv).mono fun _ h => hreaches h (by rw [hmode]; rfl)
  · rename_i hmode
    exact (moveToPosObscured_ends P t pos e hdiv).mono fun _ h => hreaches h (by rw [hmode]; rfl)
  · rename_i hmode
    exact .ok ⟨⟨_, rfl⟩, ⟨_, rfl⟩, fun h => absurd hmode h⟩

theorem moveByMode_ends [DrawFaults F] (pos : Nat) (e : Editor)
    (hdiv : e.screen.render.termSize.col = 0 → F .divByZero) :
    Ends F (Retraces P pos e) (moveByMode P t pos e) :=
  moveByMode_widths P t pos e (.of_draw _) hdiv

theorem moveByMode_ok {pos : Nat} {e e' : Editor} (h : moveByMode P t pos e = .ok e') :
    Retraces P pos e e' :=
  (moveByMode_ends (F := fun _ => True) P t pos e fun _ => trivial).of_ok h

/-- `nrl_render_sync_cursors`. -/
structure Syncs (e e' : Editor) : Prop where
  line : ∃ renderCursor, e'.line = { e.line with renderCursor }
  render : e.screen.render.MovedTo e'.screen.render
  reaches : e.screen.render.echoMode ≠ .off →
    ∃ e₁, Reaches (modeSteps P e.screen.render.echoMode) e.line.cursor e e₁ ∧
      e'.line = e₁.line ∧ e₁.screen.Outputs e'.screen

theorem Syncs.text {e e' : Editor} (h : Syncs P e e') : e.line.SameText e'.line := by
  obtain ⟨renderCursor, hline⟩ := h.line
  rw [hline]
  exact ⟨rfl, rfl⟩

theorem nrlRenderSyncCursors_widths [QueryFaults F] (e : Editor)
    (hwidths : WidthFaults P F e.line.buffer)
    (hsmart : e.screen.render.termSmart = false → F (.assertion .termSmart))
    (hdiv : e.screen.render.termSize.col = 0 → F .divByZero) :
    Ends F (Syncs P e) (nrlRenderSyncCursors P t e) := by
  have hassert : Ends F (fun _ => True) (P.assert .termSmart e.screen.render.termSmart) := by
    refine ⟨fun _ => trivial, fun h => ?_⟩
    rw [P.assert_error h]
    cases htermSmart : e.screen.render.termSmart with
    | false => exact hsmart htermSmart
    | true =>
      rw [P.assert_of _ htermSmart] at h
      cases h
  unfold nrlRenderSyncCursors
  refine hassert.bind fun _ _ => ?_
  refine (moveByMode_widths P t e.line.cursor e hwidths hdiv).bind fun e₁ h₁ => ?_
  refine (e₁.screen.flush_ends P).bind fun screen hflush => ?_
  exact .ok ⟨h₁.line, hflush.render.symm ▸ h₁.render,
    fun hmode => ⟨e₁, h₁.reaches hmode, rfl, hflush⟩⟩

theorem nrlRenderSyncCursors_ends [DrawFaults F] (e : Editor)
    (hsmart : e.screen.render.termSmart = false → F (.assertion .termSmart))
    (hdiv : e.screen.render.termSize.col = 0 → F .divByZero) :
    Ends F (Syncs P e) (nrlRenderSyncCursors P t e) :=
  nrlRenderSyncCursors_widths P t e (.of_draw _) hsmart hdiv

theorem nrlRenderSyncCursors_ok {e e' : Editor} (h : nrlRenderSyncCursors P t e = .ok e') :
    Syncs P e e' :=
  (nrlRenderSyncCursors_ends (F := fun _ => True) P t e (fun _ => trivial) fun _ => trivial).of_ok h

/-! ### Redraws -/

/-- The drawing of a line on a smart terminal, whose buffer ends in the pushed
terminator: to its beginning, over its width, to its cursor. -/
def Draws.OfLine (steps : Steps) (width : List Uchar → Int) (e e' : Editor) : Prop :=
  ∃ e₁ s₁ s₂, Reaches steps 0 e e₁ ∧ e₁.screen.Outputs s₁ ∧
    Draws (width (e.line.buffer.take (e.line.buffer.length - 1))) s₁ s₂ ∧
    Reaches steps e.line.cursor
      { line := { e.line with renderCursor := e.line.buffer.length - 1 }, screen := s₂ } e'

theorem Draws.OfLine.sameText {steps : Steps} {width : List Uchar → Int} {e e' : Editor}
    (h : Draws.OfLine steps width e e') : e.line.SameText e'.line := by
  obtain ⟨e₁, s₁, s₂, -, -, -, h⟩ := h
  exact ⟨h.sameText.buffer, h.sameText.cursor⟩

theorem Draws.OfLine.drawnTo {steps : Steps} {width : List Uchar → Int} {e e' : Editor}
    (h : Draws.OfLine steps width e e') : e.screen.render.DrawnTo e'.screen.render := by
  obtain ⟨e₁, s₁, s₂, hstart, hout, hdraws, hend⟩ := h
  have hdrawn := hdraws.drawnTo
  rw [hout.render] at hdrawn
  exact hstart.movedTo.drawnTo.trans (hdrawn.trans hend.movedTo.drawnTo)

/-- The drawing of a line, with the steps and widths of an echo mode. -/
structure Redrawn (steps : Steps) (width : List Uchar → Int) (e e' : Editor) : Prop where
  text : e.line.SameText e'.line
  render : e.screen.render.DrawnTo e'.screen.render
  ofLine : e.screen.render.termSmart = true → e.screen.render.echoMode ≠ .off →
    Draws.OfLine steps width e e'

theorem Screen.Outputs.drawnTo {s s' : Screen} (h : s.Outputs s') : s.render.DrawnTo s'.render :=
  h.render ▸ ⟨_, _, _, rfl⟩

/-- A redraw on a terminal that is not smart only writes. -/
theorem Redrawn.of_outputs {steps : Steps} {width : List Uchar → Int} {e : Editor} {screen : Screen}
    (hsmart : e.screen.render.termSmart = false) (h : e.screen.Outputs screen) :
    Redrawn steps width e { e with screen } :=
  ⟨⟨rfl, rfl⟩, h.drawnTo, fun h _ => absurd (hsmart.symm.trans h) Bool.false_ne_true⟩

theorem Redrawn.of_ofLine {steps : Steps} {width : List Uchar → Int} {e e' : Editor}
    (h : Draws.OfLine steps width e e') : Redrawn steps width e e' :=
  ⟨h.sameText, h.drawnTo, fun _ _ => h⟩

theorem redrawNormal_widths [QueryFaults F] (e : Editor) (hwidths : WidthFaults P F e.line.buffer)
    (hdiv : e.screen.render.termSize.col = 0 → F .divByZero) :
    Ends F (Redrawn (normalSteps P) P.ucswidth e) (redrawNormal P t e) := by
  unfold redrawNormal
  cases hsmart : e.screen.render.termSmart with
  | false =>
    rw [if_pos (by decide)]
    split
    · exact .error PlainFaults.outOfBounds
    · exact (e.screen.write_ends P _).bind fun _ h => .ok (.of_outputs hsmart h)
  | true =>
    rw [if_neg (by decide)]
    refine (moveToPosNormal_widths P t 0 e hwidths hdiv).bind fun e₁ h₁ => ?_
    have hbuffer : e₁.line.buffer = e.line.buffer := h₁.sameText.buffer
    rw [← hbuffer] at hwidths
    refine (e₁.screen.write_ends P _).bind fun s₁ hs₁ => ?_
    have hassert : ∀ width : Int, (width = -1 → F (.assertion .lineWidth)) →
        Ends F (fun _ => True) (P.assert .lineWidth (width ≠ -1)) := by
      refine fun width hwidth => ⟨fun _ => trivial, fun h => ?_⟩
      rw [P.assert_error h]
      refine hwidth ?_
      by_contra hne
      rw [P.assert_of _ (decide_eq_true hne)] at h
      cases h
    refine (hassert _ (hwidths.lineWidth _)).bind fun _ _ => ?_
    have hsize : s₁.render.termSize = e.screen.render.termSize := by
      rw [hs₁.render]
      exact h₁.movedTo.drawnTo.termSize
    refine (afterDrawing_ends P _ _ s₁ (hsize ▸ hdiv)).bind fun s₂ hs₂ => ?_
    refine (moveToPosNormal_widths P t _
      { line := { e₁.line with renderCursor := e₁.line.buffer.length - 1 }, screen := s₂ } hwidths
      (hs₂.drawnTo.termSize.trans hsize ▸ hdiv)).mono fun e' he' => ?_
    refine .of_ofLine ⟨e₁, s₁, s₂, h₁, hs₁, ?_⟩
    obtain ⟨renderCursor, hline⟩ := h₁.line
    rw [hline] at hs₂ he'
    exact ⟨hs₂, he'⟩

theorem redrawObscured_ends [QueryFaults F] (e : Editor)
    (hdiv : e.screen.render.termSize.col = 0 → F .divByZero) :
    Ends F (Redrawn obscuredSteps (fun text => (text.length : Int)) e) (redrawObscured P t e) := by
  unfold redrawObscured
  dsimp only
  cases hsmart : e.screen.render.termSmart with
  | false => exact (e.screen.writeTimes_ends P 42 _).bind fun _ h => .ok (.of_outputs hsmart h)
  | true =>
    refine (moveToPosObscured_ends P t 0 e hdiv).bind fun e₁ h₁ => ?_
    refine (e₁.screen.writeTimes_ends P 42 _).bind fun s₁ hs₁ => ?_
    have hsize : s₁.render.termSize = e.screen.render.termSize := by
      rw [hs₁.render]
      exact h₁.movedTo.drawnTo.termSize
    refine (afterDrawing_ends P _ _ s₁ (hsize ▸ hdiv)).bind fun s₂ hs₂ => ?_
    refine (moveToPosObscured_ends P t _ _ (hs₂.drawnTo.termSize.trans hsize ▸ hdiv)).mono fun e' he' => ?_
    refine .of_ofLine ⟨e₁, s₁, s₂, h₁, hs₁, ?_⟩
    obtain ⟨renderCursor, hline⟩ := h₁.line
    rw [hline] at he'
    refine ⟨?_, he'⟩
    dsimp only
    rw [List.length_take, Nat.min_eq_left (Nat.sub_le _ _)]
    exact hs₂

theorem redrawByMode_widths [QueryFaults F] (e : Editor) (hwidths : WidthFaults P F e.line.buffer)
    (hdiv : e.screen.render.termSize.col = 0 → F .divByZero) :
    Ends F (Redrawn (modeSteps P e.screen.render.echoMode) (drawnWidth P e.screen.render.echoMode) e)
      (redrawByMode P t e) := by
  unfold redrawByMode
  cases hmode : e.screen.render.echoMode with
  | on => exact redrawNormal_widths P t e hwidths hdiv
  | obscured => exact redrawObscured_ends P t e hdiv
  | off => exact .ok ⟨⟨rfl, rfl⟩, ⟨_, _, _, rfl⟩, fun _ h => absurd hmode h⟩

theorem redrawByMode_ends [DrawFaults F] (e : Editor)
    (hdiv : e.screen.render.termSize.col = 0 → F .divByZero) :
    Ends F (Redrawn (modeSteps P e.screen.render.echoMode) (drawnWidth P e.screen.render.echoMode) e)
      (redrawByMode P t e) :=
  redrawByMode_widths P t e (.of_draw _) hdiv

/-- `nrl_render_redraw`. -/
structure Redraws (e e' : Editor) : Prop where
  text : e.line.SameText e'.line
  requeried : ∃ s r, Requeries P t e.screen s ∧ s.render.DrawnTo r ∧
    e'.screen.render = { r with resizeFlag := false }
  behind : e.screen.render.termSmart = true → e.screen.render.echoMode ≠ .off →
    ∃ s e₁, Requeries P t e.screen s ∧ Draws.OfLine (modeSteps P e.screen.render.echoMode)
        (drawnWidth P e.screen.render.echoMode)
        { line := { e.line with buffer := e.line.buffer ++ [0] }, screen := s } e₁ ∧
      e'.line.renderCursor = e₁.line.renderCursor ∧
      e'.screen.render = { e₁.screen.render with resizeFlag := false } ∧
      (e₁.screen.WritesComplete → e'.screen.WritesComplete)

theorem nrlRenderRedraw_widths [QueryFaults F] (e : Editor)
    (hwidths : WidthFaults P F (e.line.buffer ++ [0]))
    (hdiv : ∀ s, Requeries P t e.screen s → s.render.termSize.col = 0 → F .divByZero) :
    Ends F (Redraws P t e) (nrlRenderRedraw P t e) := by
  unfold nrlRenderRedraw
  refine (requery_ends P t e.screen).bind fun screen hscreen => ?_
  refine (redrawByMode_widths P t _ hwidths (hdiv screen hscreen)).bind fun e₁ h₁ => ?_
  refine (Screen.flush_ends P _).bind fun s' hs' => ?_
  refine .ok ⟨⟨?_, h₁.text.cursor⟩, ⟨screen, e₁.screen.render, hscreen, h₁.render, hs'.render⟩, ?_⟩
  · show e₁.line.buffer.eraseIdx (e₁.line.buffer.length - 1) = e.line.buffer
    rw [h₁.text.buffer]
    simp [List.eraseIdx_append_of_length_le]
  · intro hsmart hmode
    obtain ⟨_, _, hrequeried⟩ := hscreen.render
    have hsteps : screen.render.echoMode = e.screen.render.echoMode := by rw [hrequeried]
    have hdraws := h₁.ofLine (by rw [hrequeried]; exact hsmart) (by rw [hrequeried]; exact hmode)
    dsimp only at hdraws
    rw [hsteps] at hdraws
    exact ⟨screen, e₁, hscreen, hdraws, rfl, hs'.render, hs'.complete⟩

theorem nrlRenderRedraw_ends [DrawFaults F] (e : Editor)
    (hdiv : ∀ s, Requeries P t e.screen s → s.render.termSize.col = 0 → F .divByZero) :
    Ends F (Redraws P t e) (nrlRenderRedraw P t e) :=
  nrlRenderRedraw_widths P t e (.of_draw _) hdiv

theorem nrlRenderRedraw_ok {e e' : Editor} (h : nrlRenderRedraw P t e = .ok e') :
    Redraws P t e e' :=
  (nrlRenderRedraw_ends (F := fun _ => True) P t e fun _ _ _ => trivial).of_ok h

/-- Without a resize the line is drawn on the screen there is. -/
theorem Redraws.drawn {e e' : Editor} (h : Redraws P t e e') (hresize : e.screen.render.resizeFlag = false)
    (hsmart : e.screen.render.termSmart = true) (hmode : e.screen.render.echoMode ≠ .off) :
    ∃ e₁, Draws.OfLine (modeSteps P e.screen.render.echoMode) (drawnWidth P e.screen.render.echoMode)
        { e with line := { e.line with buffer := e.line.buffer ++ [0] } } e₁ ∧
      e'.line.renderCursor = e₁.line.renderCursor ∧
      e'.screen.render = { e₁.screen.render with resizeFlag := false } ∧
      (e₁.screen.WritesComplete → e'.screen.WritesComplete) := by
  obtain ⟨s, e₁, hrequeries, hdraws⟩ := h.behind hsmart hmode
  obtain rfl := hrequeries.same hresize
  exact ⟨e₁, hdraws⟩

/-- A redraw does not decide anew whether the terminal is smart and what is echoed. -/
theorem Redraws.terminal {e e' : Editor} (h : Redraws P t e e') :
    e'.screen.render.termSmart = e.screen.render.termSmart ∧
      e'.screen.render.echoMode = e.screen.render.echoMode := by
  obtain ⟨s, r, hrequeries, ⟨_, _, _, hdrawn⟩, hrender⟩ := h.requeried
  obtain ⟨_, _, hrequeried⟩ := hrequeries.render
  rw [hrender, hdrawn, hrequeried]
  exact ⟨rfl, rfl⟩

end Screen

end Nanorl
