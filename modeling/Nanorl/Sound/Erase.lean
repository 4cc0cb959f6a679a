import Nanorl.Sound.Display
import Nanorl.Sound.Loop

/-!
# Nanorl.Sound.Erase

What a redraw blanks out behind the line.

`redraw_normal` writes the line and then blanks over what the line before has left there
(`redraw_erases`). The line before is remembered by its columns (`Remembers`), but of the
new line the characters are counted: so the blanks are as many as the columns to cover if
the line has as many columns as characters, or if neither exceeds what has been drawn
(`erasesExactly_iff`).
-/

namespace Nanorl

open Run (Ends)

section Erase

variable (P : Platform) (t : Terminfo)

/-! ### The loop that erases -/

/-- A redraw in echo mode on a smart terminal up to the loop that erases. -/
def redrawToErasing (e : Editor) : Except Fault Screen := do
  let screen ← requery P t e.screen
  let e₁ ← moveToPosNormal P t 0 { line := { e.line with buffer := e.line.buffer ++ [0] }, screen }
  let screen ← e₁.screen.write P (P.utf8Encode (cstr (e.line.buffer ++ [0])))
  let wrWidth := P.ucswidth e.line.buffer
  P.assert .lineWidth (wrWidth ≠ -1)
  let cursorPos ← linearOffsetTo2d screen.render.termSize screen.render.cursorPos wrWidth
  handleScroll P { screen with render := { screen.render with cursorPos } }

/-- The rounds of that loop. -/
def eraseRounds (r : Render) (line : LineData) : Nat :=
  (int32 (int32 r.lastRenderedWidth - line.buffer.length)).toNat

/-- The redraw behind that loop. -/
def redrawBehindErasing (line : LineData) (s : Screen) : Except Fault Editor := do
  let e ← moveToPosNormal P t line.cursor
    { line := { line with buffer := line.buffer ++ [0], renderCursor := line.buffer.length }
      screen := { s with render := { s.render with
        lastRenderedWidth := uint32 (P.ucswidth line.buffer) } } }
  let line := { e.line with buffer := e.line.buffer.eraseIdx (e.line.buffer.length - 1), dirty := false }
  let screen := { e.screen with render := { e.screen.render with resizeFlag := false } }
  let screen ← screen.flush P
  pure { line, screen }

variable {P t} {e e' : Editor}

/-- A redraw writes as many blanks as the loop has rounds, between these two parts. -/
theorem redraw_erases (hsmart : e.screen.render.termSmart = true)
    (hmode : e.screen.render.echoMode = .on) :
    nrlRenderRedraw P t e = (do
      let s ← redrawToErasing P t e
      let s' ← s.writeTimes P 32 (eraseRounds s.render e.line)
      redrawBehindErasing P t e.line s') := by
  rw [nrlRenderRedraw, redrawToErasing, bind_assoc]
  cases hrequery : requery P t e.screen with
  | error f => rw [Run.error_bind, Run.error_bind]
  | ok s =>
    obtain ⟨cursorPos, termSize, hrender⟩ :=
      ((requery_ends (F := fun _ => True) P t e.screen).of_ok hrequery).render
    have hsmart' : s.render.termSmart = true := by rw [hrender]; exact hsmart
    have hmode' : s.render.echoMode = .on := by rw [hrender]; exact hmode
    have hcount : (e.line.buffer ++ [(0 : Uchar)]).length - 1 = e.line.buffer.length := by simp
    have htake : (e.line.buffer ++ [(0 : Uchar)]).take e.line.buffer.length = e.line.buffer := by simp
    rw [Run.ok_bind, Run.ok_bind, redrawByMode]
    dsimp only
    rw [hmode']
    dsimp only
    rw [redrawNormal]
    dsimp only
    rw [hsmart', if_neg (by decide), bind_assoc, bind_assoc]
    cases hmove : moveToPosNormal P t 0
        { line := { e.line with buffer := e.line.buffer ++ [0] }, screen := s } with
    | error f => rw [Run.error_bind, Run.error_bind]
    | ok e₁ =>
      obtain ⟨renderCursor, hline⟩ :=
        ((moveToPosNormal_ends (F := fun _ => True) P t 0 _ fun _ => trivial).of_ok hmove).line
      -- only the render cursor of the line has moved
      dsimp only [Run.ok_bind]
      rw [hline, hcount, htake]
      simp only [afterDrawing, eraseRest, eraseRounds, redrawBehindErasing, bind_assoc, Run.ok_bind,
        Run.pure_eq_ok]

/-- Up to the loop the width drawn last is still the old one. -/
theorem redrawToErasing_width {s : Screen} (h : redrawToErasing P t e = .ok s) :
    s.render.lastRenderedWidth = e.screen.render.lastRenderedWidth := by
  obtain ⟨s₁, hrequery, h⟩ := Run.bind_eq_ok.mp h
  obtain ⟨e₁, hmove, h⟩ := Run.bind_eq_ok.mp h
  obtain ⟨s₂, hwrite, h⟩ := Run.bind_eq_ok.mp h
  obtain ⟨_, -, h⟩ := Run.bind_eq_ok.mp h
  obtain ⟨cursorPos, -, h⟩ := Run.bind_eq_ok.mp h
  obtain ⟨_, _, hrequeried⟩ := ((requery_ends (F := fun _ => True) P t e.screen).of_ok hrequery).render
  obtain ⟨_, hmoved⟩ :=
    ((moveToPosNormal_ends (F := fun _ => True) P t 0 _ fun _ => trivial).of_ok hmove).movedTo
  have hwritten := ((e₁.screen.write_ends (F := fun _ => True) P _).of_ok hwrite).render
  have hscrolled := ((handleScroll_ends (F := fun _ => True) P _).of_ok h).1
  calc s.render.lastRenderedWidth = s₂.render.lastRenderedWidth := by
        rw [hscrolled, Render.scrolledUp]
        dsimp only
        split <;> rfl
    _ = s₁.render.lastRenderedWidth := by rw [hwritten, hmoved]
    _ = e.screen.render.lastRenderedWidth := by rw [hrequeried]

/-- Behind it the width of the new line is entered. -/
theorem redrawBehindErasing_width {line : LineData} {s : Screen}
    (h : redrawBehindErasing P t line s = .ok e') :
    e'.screen.render.lastRenderedWidth = uint32 (P.ucswidth line.buffer) := by
  obtain ⟨e₁, hmove, h⟩ := Run.bind_eq_ok.mp h
  obtain ⟨s₁, hflush, h⟩ := Run.bind_eq_ok.mp h
  obtain rfl := Except.ok.inj h
  obtain ⟨_, hmoved⟩ :=
    ((moveToPosNormal_ends (F := fun _ => True) P t _ _ fun _ => trivial).of_ok hmove).movedTo
  have hflushed := ((Screen.flush_ends (F := fun _ => True) P _).of_ok hflush).render
  dsimp only
  rw [hflushed]
  dsimp only
  rw [hmoved]

/-! ### The line before -/

/-- The line as the last redraw has drawn it. -/
def Step.drawn : Step → Editor → List Uchar → List Uchar
  | .call (.edit .redraw), e, _ => e.line.buffer
  | _, _, drawn => drawn

theorem Step.drawn_of_ne {op : CursorOp} (hop : op ≠ .edit .redraw) (e : Editor) (drawn : List Uchar) :
    (Step.call op).drawn e drawn = drawn :=
  CursorOp.of_ne hop (fun _ _ => rfl) (fun _ => rfl) (fun _ => rfl) rfl

/-- The invariant: in echo mode on a smart terminal, the books have the width of the line
drawn last. -/
structure Remembers (P : Platform) (s : List Uchar × Editor) : Prop where
  termSmart : s.2.screen.render.termSmart = true
  echoMode : s.2.screen.render.echoMode = .on
  width : s.2.screen.render.lastRenderedWidth = uint32 (P.ucswidth s.1)

/-- The step. -/
theorem Remembers.perform {step : Step} {s s' : List Uchar × Editor} (h : Remembers P s)
    (hstep : Run.recorded (Step.perform P t) Step.drawn step s = .ok s') : Remembers P s' := by
  obtain ⟨drawn, e⟩ := s
  obtain ⟨e', hperform, rfl⟩ := Run.map_eq_ok.mp hstep
  obtain ⟨hsmart, hmode⟩ := Step.perform_terminal P t hperform
  refine ⟨hsmart.trans h.termSmart, hmode.trans h.echoMode, ?_⟩
  dsimp only
  cases step with
  | notify =>
    obtain rfl := Except.ok.inj hperform
    exact h.width
  | read root buffer =>
    obtain ⟨_, -, hperform⟩ := Run.bind_eq_ok.mp hperform
    obtain rfl := Except.ok.inj hperform
    exact h.width
  | call op =>
    by_cases hop : op = .edit .redraw
    · subst hop
      have hredraw : nrlRenderRedraw P t e = .ok e' := hperform
      rw [redraw_erases h.termSmart h.echoMode] at hredraw
      obtain ⟨s₁, -, hredraw⟩ := Run.bind_eq_ok.mp hredraw
      obtain ⟨s₂, -, hredraw⟩ := Run.bind_eq_ok.mp hredraw
      exact redrawBehindErasing_width hredraw
    · -- between redraws a call moves the cursor at most
      obtain ⟨cursorPos, hrender⟩ := CursorOp.perform_movedTo P t hop hperform
      rw [Step.drawn_of_ne hop, hrender]
      exact h.width

/-! ### The blanks -/

/-- With this many blanks behind a line of `wNew` columns, of the `wPrev` columns drawn
before none stays, and none behind both is written. -/
structure ErasesExactly (wPrev wNew : Int) (blanks : Nat) : Prop where
  eq_max : (blanks : Int) = max 0 (wPrev - wNew)
  none_stays : wPrev ≤ wNew + blanks
  none_beyond : wNew + blanks ≤ max wPrev wNew

/-- The number of characters does for the width of the line: nothing is to be erased and
the loop is not entered, or both are the same for a number of 32 bits. -/
def CountServes (wPrev wNew : Int) (count : Nat) : Prop :=
  if wPrev ≤ wNew then (wPrev - count) % 2 ^ 32 = 0 ∨ 2 ^ 31 ≤ (wPrev - count) % 2 ^ 32
  else wPrev - wNew < 2 ^ 31 ∧ (wNew - count) % 2 ^ 32 = 0

/-- Of lines below `2 ^ 31`: one column a character, or never more than has been drawn. -/
theorem countServes_short {wPrev wNew : Int} {count : Nat} (hprev : 0 ≤ wPrev ∧ wPrev < 2 ^ 31)
    (hnew : 0 ≤ wNew ∧ wNew < 2 ^ 31) (hcount : count < 2 ^ 31) :
    CountServes wPrev wNew count ↔ wNew = count ∨ (wPrev ≤ wNew ∧ wPrev ≤ count) := by
  unfold CountServes
  split
  · omega
  · omega

theorem erasesExactly_iff_countServes {wPrev wNew : Int} {count : Nat} :
    ErasesExactly wPrev wNew (int32 (wPrev - count)).toNat ↔ CountServes wPrev wNew count := by
  have hmod := Int.emod_nonneg (wPrev - count) (by decide : (2 ^ 32 : Int) ≠ 0)
  have hlt := Int.emod_lt_of_pos (wPrev - count) (by decide : (0 : Int) < 2 ^ 32)
  have hround : ErasesExactly wPrev wNew (int32 (wPrev - count)).toNat ↔
      ((int32 (wPrev - count)).toNat : Int) = max 0 (wPrev - wNew) :=
    ⟨fun h => h.eq_max, fun h => ⟨h, by omega, by omega⟩⟩
  rw [hround, int32, Int.bmod_def]
  unfold CountServes
  split
  · split <;> omega
  · split <;> omega

/-- In terms of the line before, the loop mixes its columns with the characters of the new
line. -/
theorem eraseRounds_remembered {r : Render} {line : LineData} {wPrev : Int}
    (h : r.lastRenderedWidth = uint32 wPrev) :
    eraseRounds r line = (int32 (wPrev - line.buffer.length)).toNat := by
  have hmod : (0 : Int) ≤ wPrev % 2 ^ 32 := Int.emod_nonneg _ (by decide)
  have hint : int32 (uint32 wPrev) = int32 wPrev := by
    rw [uint32, Int.toNat_of_nonneg hmod]
    exact Int.emod_bmod _ _
  rw [eraseRounds, h, hint, Int.sub_eq_add_neg, int32_add, Int.sub_eq_add_neg]

end Erase

/-- **What is erased.** In every run in echo mode on a smart terminal, a redraw writes
behind the new text the blanks of its loop, and these are exactly the columns by which the
line has become narrower, if and only if the number of its characters serves as its width. -/
theorem erasesExactly_iff {P : Platform} (hwidth : P.WidthLaw) {t : Terminfo} {echoFile : Int}
    {s s₀ : Screen} (hinit : nrlRenderInit P t .on echoFile s = .ok (true, s₀))
    (hsmart : nrlTermIsSmart t = true) {steps : List Step} {drawn : List Uchar} {e : Editor}
    (hrun : Run.exec (Run.recorded (Step.perform P t) Step.drawn) steps
      ([], { line := emptyLine, screen := s₀ }) = .ok (drawn, e))
    (hchars : ∀ c ∈ drawn, 0 ≤ P.ucwidth c) {s₁ : Screen} (hto : redrawToErasing P t e = .ok s₁) :
    nrlRenderRedraw P t e = (do
        let s₂ ← s₁.writeTimes P 32 (eraseRounds s₁.render e.line)
        redrawBehindErasing P t e.line s₂) ∧
      (ErasesExactly (textWidth P .on drawn) (textWidth P .on e.line.buffer)
          (eraseRounds s₁.render e.line) ↔
        CountServes (textWidth P .on drawn) (textWidth P .on e.line.buffer) e.line.buffer.length) := by
  have hopens := nrlRenderInit_ok P t hinit
  have hstart : Remembers P (([], { line := emptyLine, screen := s₀ }) : List Uchar × Editor) := by
    refine ⟨hopens.termSmart.trans hsmart, hopens.echoMode, ?_⟩
    rw [hwidth [] nofun]
    exact nrlRenderInit_width hinit
  have hremembers : Remembers P (drawn, e) :=
    Run.exec_invariant (fun _ _ _ h hstep => h.perform hstep) hstart hrun
  refine ⟨?_, ?_⟩
  · rw [redraw_erases hremembers.termSmart hremembers.echoMode, hto, Run.ok_bind]
  · have hremembered : s₁.render.lastRenderedWidth = uint32 (textWidth P .on drawn) := by
      rw [redrawToErasing_width hto, hremembers.width, hwidth drawn hchars]
      rfl
    rw [eraseRounds_remembered hremembered]
    exact erasesExactly_iff_countServes

/-- A platform on which `日` and `本` take two columns and a combining accent takes none. -/
def widePlatform : Platform := referencePlatform.withWidths fun uc =>
  if uc = 0x65e5 ∨ uc = 0x672c then 2 else if uc = 0x301 then 0 else referenceWidth uc

theorem widePlatform_width : widePlatform.WidthLaw := referencePlatform.withWidths_width _

/-- What these steps leave on xterm, with the line drawn last. -/
def wideRun (steps : List Step) : Except Fault (List Uchar × Editor) := do
  let (_, s₀) ← nrlRenderInit widePlatform xtermTerminfo .on 1 xtermScreen
  Run.exec (Run.recorded (Step.perform widePlatform xtermTerminfo) Step.drawn) steps
    ([], { line := emptyLine, screen := s₀ })

/-- `日a` is drawn and loses its first character, so that one character of one column is left. -/
def narrowedSteps : List Step :=
  [.call (.edit (.insert [0x65e5, 97])), .call (.edit .redraw), .call (.edit (.escape .keyHome)),
    .call (.edit (.escape .keyDelete))]

theorem erasesExactly_narrowed : ∃ drawn e s₁, wideRun narrowedSteps = .ok (drawn, e) ∧
    redrawToErasing widePlatform xtermTerminfo e = .ok s₁ ∧
    ErasesExactly (textWidth widePlatform .on drawn) (textWidth widePlatform .on e.line.buffer)
      (eraseRounds s₁.render e.line) := by
  have hfacts : (nrlRenderInit widePlatform xtermTerminfo .on 1 xtermScreen).map (fun r =>
      (r.1, (Run.exec (Run.recorded (Step.perform widePlatform xtermTerminfo) Step.drawn) narrowedSteps
        ([], { line := emptyLine, screen := r.2 })).map fun s => (s.1, s.2.line.buffer,
          (redrawToErasing widePlatform xtermTerminfo s.2).isOk))) =
      .ok (true, .ok ([0x65e5, 97], [97], true)) := by
    decide +kernel
  obtain ⟨⟨done, s₀⟩, hinit, hfacts⟩ := Run.map_eq_ok.mp hfacts
  obtain ⟨rfl, hfacts⟩ := Prod.mk.inj hfacts
  obtain ⟨⟨drawn, e⟩, hrun, hfacts⟩ := Run.map_eq_ok.mp hfacts
  obtain ⟨hdrawn, hfacts⟩ := Prod.mk.inj hfacts
  obtain ⟨hbuffer, hok⟩ := Prod.mk.inj hfacts
  dsimp only at hdrawn hbuffer hok
  obtain ⟨s₁, hto⟩ := Run.isOk_iff.mp hok
  refine ⟨drawn, e, s₁, by rw [wideRun, hinit, Run.ok_bind]; exact hrun, hto, ?_⟩
  have hprev : textWidth widePlatform .on drawn = 3 := by rw [hdrawn]; rfl
  have hnew : textWidth widePlatform .on e.line.buffer = 1 := by rw [hbuffer]; rfl
  have hchars : ∀ c ∈ drawn, 0 ≤ widePlatform.ucwidth c := by
    rw [hdrawn]
    exact List.forall_mem_cons.mpr ⟨by decide, List.forall_mem_singleton.mpr (by decide)⟩
  refine (erasesExactly_iff widePlatform_width hinit (by decide) hrun hchars hto).2.mpr ?_
  rw [hprev, hnew, hbuffer]
  exact (countServes_short (by decide) (by decide) (by decide)).mpr (.inl rfl)

/-- A redraw behind these steps: the columns of the line before and of the line, the blanks
written, and everything it sends. -/
def wideErasing (steps : List Step) : Except Fault (Int × Int × Nat × List Byte) := do
  let (drawn, e) ← wideRun steps
  let s₁ ← redrawToErasing widePlatform xtermTerminfo e
  let e' ← nrlRenderRedraw widePlatform xtermTerminfo e
  pure (textWidth widePlatform .on drawn, textWidth widePlatform .on e.line.buffer,
    eraseRounds s₁.render e.line,
    e'.screen.io.world.echoed.drop e.screen.io.world.echoed.length)

/-- Behind `日本` a backspace makes the redraw write a blank too many; `ab` gives way to a
letter with an accent of its own, and the second column stays. -/
theorem erasing_mixes :
    wideErasing [.call (.edit (.insert [0x65e5, 0x672c])), .call (.edit .redraw),
        .call (.edit (.escape .keyBackspace))] =
      .ok (4, 2, 3, ascii "\x1b[2;1H" ++ [0xe6, 0x97, 0xa5] ++ ascii "   \x1b[2;3H") ∧
    ¬ ErasesExactly 4 2 3 ∧
    wideErasing [.call (.edit (.insert [97, 98])), .call (.edit .redraw),
        .call (.edit (.escape .keyBackspace)), .call (.edit (.escape .keyBackspace)),
        .call (.edit (.insert [101, 0x301]))] =
      .ok (2, 1, 0, ascii "\x1b[2;1He" ++ [0xcc, 0x81] ++ ascii "\x1b[2;2H") ∧
    ¬ ErasesExactly 2 1 0 := by
  refine ⟨by decide +kernel, fun h => ?_, by decide +kernel, fun h => ?_⟩
  · exact absurd h.none_beyond (by decide)
  · exact absurd h.none_stays (by decide)

end Nanorl
