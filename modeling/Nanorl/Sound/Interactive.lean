import Nanorl.Sound.Answers
import Nanorl.Sound.Display
import Nanorl.Sound.Opening
import Nanorl.Sound.Typing

/-!
# Nanorl.Sound.Interactive

What is on the screen while somebody types.

A terminal that understands the program hosts the loop as long as the line has `Room`
(`visible_hosts`): its screen is `Live`, which is to say that it shows the line whenever the
line is not dirty. The loop redraws a dirty line before it asks for the next keystroke.
-/

namespace Nanorl

/-! ### Room -/

/-- A line of one cell a character that is at least a row shorter than the screen. -/
structure Frame.Room (f : Frame) (P : Platform) (z : Zipper Uchar) : Prop where
  widths : ∀ c ∈ z.toList, cellWidth P f.mode c = 1
  points : ∀ c ∈ z.toList, c.isValidChar ∧ c ≠ 0
  rows : z.toList.length ≤ (f.size.row - 1) * f.size.col

instance (f : Frame) (P : Platform) (z : Zipper Uchar) : Decidable (f.Room P z) :=
  decidable_of_iff ((z.toList.all fun c => decide (cellWidth P f.mode c = 1 ∧ c.isValidChar ∧ c ≠ 0)) = true ∧
      z.toList.length ≤ (f.size.row - 1) * f.size.col) <| by
    rw [List.all_eq_true]
    simp only [decide_eq_true_eq]
    exact ⟨fun ⟨hall, hrows⟩ => ⟨fun c hc => (hall c hc).1, fun c hc => (hall c hc).2, hrows⟩,
      fun h => ⟨fun c hc => ⟨h.widths c hc, h.points c hc⟩, h.rows⟩⟩

/-- All cells the line can come to have numbers of 32 bits. -/
def Frame.Small (f : Frame) : Prop := f.origin + f.size.row * f.size.col < 2 ^ 31

instance (f : Frame) : Decidable f.Small := inferInstanceAs (Decidable (_ < _))

/-- What a screen that shows the line is to the loop of `nanorl`. -/
structure Frame.Live {α : Type} (f : Frame) (P : Platform) (E : Emulator α) (state : E.State) (e : Editor) :
    Prop where
  displayed : f.Displayed P E state e
  top : 0 ≤ f.firstCell e.screen
  wrCount : e.screen.io.wrCount = 0
  steady : e.screen.io.world.Steady
  shown : e.line.dirty = false → ∃ T, f.Visible E state e T

section Calls

variable {α : Type} {E : Emulator α} {P : Platform} {t : Terminfo} {f : Frame} {state : E.State}
  {e e' : Editor} {z : Zipper Uchar}

namespace Frame

theorem Live.lies (h : f.Live P E state e) (hsmall : f.Small) (hz : e.line.Shows z) (hroom : f.Room P z) :
    f.Lies P e := by
  have hrows := hroom.rows
  have hfirst : f.firstCell e.screen ≤ f.origin := by
    have : (0 : Int) ≤ f.size.col * e.screen.render.scrolled := by positivity
    rw [firstCell]
    omega
  have hmul : (f.size.row - 1) * f.size.col < f.size.row * f.size.col :=
    Nat.mul_lt_mul_of_pos_right (Nat.sub_one_lt_of_lt f.rows_pos) f.cols_pos
  unfold Small at hsmall
  refine ⟨by rw [hz.buffer]; exact hroom.widths, h.top, ?_⟩
  rw [hz.buffer]
  have hcast : (f.size.row * f.size.col : Int) = (f.size.row * f.size.col : Nat) := by push_cast; rfl
  omega

/-- Reading does not touch what is on the screen. -/
theorem Live.of_reads (h : f.Live P E state e) {io : Io} (hfrom : e.screen.io.ReadsFrom io) :
    f.Live P E state { e with screen := { e.screen with io } } := by
  have hsteady := hfrom.world.steady h.steady
  have houtput : io.output = e.screen.io.output := by
    rw [Io.output, Io.output, hfrom.world.echoed, hfrom.wrBuf, hfrom.wrCount]
  have hbooks := h.displayed.books
  have hecho := h.displayed.echoing
  obtain ⟨T, text, hdisplays, hrest⟩ := h.displayed.shown
  refine ⟨⟨⟨hbooks.placed.of_render rfl hsteady.writes, hbooks.renderCursor_le, hbooks.cursor_le⟩,
      ⟨?_, ?_, ?_, ?_⟩, T, text, ?_, hrest⟩,
    h.top, hfrom.wrCount.trans h.wrCount, hsteady, fun hclean => ?_⟩
  · rw [hfrom.echoFile]
    exact hecho.echoFile
  · rw [hfrom.echoEnabled]
    exact hecho.echoEnabled
  · rw [hfrom.wrCount]
    exact hecho.wrCount
  · exact hsteady.writes
  · rw [houtput]
    exact hdisplays
  · obtain ⟨T, hvisible⟩ := h.shown hclean
    refine ⟨T, ?_, hvisible.shows, hvisible.next⟩
    rw [hfrom.world.echoed]
    exact hvisible.displays

/-- Nothing has been sent, and the line is to be drawn. -/
theorem Live.of_dirty (h : f.Live P E state e) {line : LineData} (hdirty : line.dirty = true)
    (hbooks : f.Books P { e with line }) : f.Live P E state { e with line } where
  displayed := h.displayed.stays (.refl h.displayed.echoing) hbooks
  top := h.top
  wrCount := h.wrCount
  steady := h.steady
  shown := fun hclean => absurd (hdirty.symm.trans hclean) (by decide)

/-- What has only been sent leaves the reader and the calls as they were. -/
theorem Live.of_sends (h : f.Live P E state e) {data : List Byte}
    (hsends : e.screen.io.Sends data e'.screen.io) (hdisplayed : f.Displayed P E state e')
    (htop : 0 ≤ f.firstCell e'.screen) (hzero : e'.screen.io.wrCount = 0)
    (hshown : e'.line.dirty = false → ∃ T, f.Visible E state e' T) : f.Live P E state e' :=
  ⟨hdisplayed, htop, hzero, hsends.steady h.steady, hshown⟩

/-- The cursor goes to a place in the line. -/
theorem Live.sync (hE : E.Understands P t) (h : f.Live P E state e) (hlies : f.Lies P e) {cursor : Nat}
    (hcursor : cursor ≤ e.line.buffer.length) :
    ∃ e', nrlRenderSyncCursors P t { e with line := { e.line with cursor } } = .ok e' ∧
      f.Live P E state e' ∧ e'.line = { e.line with cursor, renderCursor := cursor } ∧
      e.screen.io.Draws e'.screen.io := by
  have hbooks := h.displayed.books
  have htop := hlies.top
  have hbottom := hlies.bottom
  obtain ⟨location, s₁, hmove, hto, hcol, hat⟩ := hbooks.placed.moves hE
    (e := { e with line := { e.line with cursor } }) h.displayed.echoing e.line.buffer.length cursor
    (Nat.le_refl _) (by dsimp only; omega) (by simpa using hlies.widths)
    (hbooks.renderCursor_le.trans hbooks.cursor_le) hcursor (by dsimp only; omega) (by dsimp only; omega)
  obtain ⟨hat, -⟩ := hat (by dsimp only; omega)
  obtain ⟨moveCmd, hsends₁, hconveys⟩ := hto.sends
  obtain ⟨s₂, hflush, hsends₂, hzero⟩ := s₁.flush_sends P (hsends₁.echoing h.displayed.echoing)
  have hsends := hsends₁.trans hsends₂.io
  rw [List.append_nil] at hsends
  have hsync : nrlRenderSyncCursors P t { e with line := { e.line with cursor } } =
      .ok { line := { e.line with cursor, renderCursor := cursor }, screen := s₂ } := by
    rw [nrlRenderSyncCursors, P.assert_of _ hbooks.placed.termSmart, Run.ok_bind]
    dsimp only at hmove ⊢
    rw [hmove, Run.ok_bind, hflush]
    rfl
  have hscrolled : s₂.render.scrolled = e.screen.render.scrolled := by rw [hsends₂.render, hto.render]
  have hfirst : f.firstCell s₂ = f.firstCell e.screen := by rw [firstCell, firstCell, hscrolled]
  have hstays : f.Stays E e.screen s₂ := ⟨hscrolled, by rw [hsends₂.render, hto.render], moveCmd, _, hsends,
    hconveys, fun _ _ _ h => h.address _ _⟩
  obtain ⟨hbooks', hline⟩ := hbooks.sync hlies.fits hcursor hsync
  refine ⟨_, hsync, h.of_sends hsends (h.displayed.stays hstays hbooks') (hfirst ▸ h.top) hzero ?_, hline,
    hsends.draws⟩
  intro hclean
  obtain ⟨T, hvisible⟩ := h.shown hclean
  have hechoed : s₂.io.world.echoed = e.screen.io.world.echoed ++ moveCmd := by
    rw [← Io.output_of_flushed hzero, hsends.output, Io.output_of_flushed h.wrCount]
  have hshows := hvisible.shows
  refine ⟨T.address location.row location.col, ?_, ?_, ?_⟩
  · rw [show Screen.io _ = s₂.io from rfl, hechoed, List.foldl_append]
    exact hconveys _ _ hvisible.displays
  · dsimp only
    rw [hscrolled]
    exact hshows.address _ _
  · have hroom := hshows.room
    rw [length_shown E f.visible] at hroom
    have hrow : location.row < T.rows := by
      rw [hshows.rows]
      by_contra hge
      have hmul : (f.size.row * f.size.col : Int) ≤ location.row * f.size.col := by
        exact_mod_cast Nat.mul_le_mul_right f.size.col (Nat.le_of_not_lt hge)
      rw [Int.add_mul, Int.mul_comm _ (f.size.col : Int)] at hroom
      dsimp only at hat
      rw [firstCell] at hat
      omega
    rw [Terminal.next_address T hrow (hcol.trans_eq hshows.cols.symm), hshows.cols]
    dsimp only at hat ⊢
    rw [hfirst]
    push_cast
    exact hat

/-- The character under the cursor goes, or nothing does. -/
theorem Live.delete (h : f.Live P E state e) :
    ∃ e', escapeDelete P e = .ok e' ∧ f.Live P E state e' ∧ e'.screen = e.screen := by
  have hdelete := escapeDelete_eq P e
  have hbooks := h.displayed.books.delete hdelete
  refine ⟨_, hdelete, ?_, by split <;> rfl⟩
  split
  · rename_i hlt
    rw [if_pos hlt] at hbooks
    exact h.of_dirty rfl hbooks
  · exact h

theorem Live.key (hE : E.Understands P t) (h : f.Live P E state e) (hlies : f.Lies P e)
    (key : TerminfoInput) :
    ∃ e', nrlManipEvalEscape P t key.id e = .ok e' ∧ f.Live P E state e' ∧
      e.screen.io.Draws e'.screen.io := by
  have hsync : ∀ {cursor}, cursor ≤ e.line.buffer.length →
      ∃ e', nrlRenderSyncCursors P t { e with line := { e.line with cursor } } = .ok e' ∧
        f.Live P E state e' ∧ e.screen.io.Draws e'.screen.io := by
    intro cursor hcursor
    obtain ⟨e', hsync, hlive, -, hdraws⟩ := h.sync hE hlies hcursor
    exact ⟨e', hsync, hlive, hdraws⟩
  have hcursor := h.displayed.books.cursor_le
  have hleft : ∃ e', escapeLeft P t e = .ok e' ∧ f.Live P E state e' ∧ e.screen.io.Draws e'.screen.io := by
    unfold escapeLeft
    split
    · exact hsync (by omega)
    · exact ⟨e, rfl, h, .refl _⟩
  have hright : ∃ e', escapeRight P t e = .ok e' ∧ f.Live P E state e' ∧ e.screen.io.Draws e'.screen.io := by
    unfold escapeRight
    split
    · rename_i hlt
      exact hsync hlt
    · exact ⟨e, rfl, h, .refl _⟩
  rw [nrlManipEvalEscape_key]
  cases key with
  | keyLeft => exact hleft
  | keyRight => exact hright
  | keyBackspace =>
    change ∃ e', (if e.line.cursor > 0 then escapeLeft P t e >>= escapeDelete P else .ok e) = _ ∧ _
    split
    · obtain ⟨e₁, hmove, hlive₁, hdraws₁⟩ := hleft
      obtain ⟨e', hgone, hlive', hscreen⟩ := hlive₁.delete
      exact ⟨e', Run.bind_eq_ok.mpr ⟨e₁, hmove, hgone⟩, hlive', hscreen ▸ hdraws₁⟩
    · exact ⟨e, rfl, h, .refl _⟩
  | keyDelete =>
    obtain ⟨e', hgone, hlive', hscreen⟩ := h.delete
    exact ⟨e', hgone, hlive', hscreen ▸ .refl _⟩
  | keyHome => exact hsync (Nat.zero_le _)
  | keyEnd => exact hsync (Nat.le_refl _)

/-- A redraw scrolls no further than a line with room needs, so its first cell stays on the
screen. -/
theorem Redrawing.top {e e' : Editor} {first stop last : Pos2d} (h : f.Redrawing P E e e' first stop last)
    (htop : 0 ≤ f.firstCell e.screen) (hrows : e.line.buffer.length ≤ (f.size.row - 1) * f.size.col) :
    0 ≤ f.firstCell e'.screen := by
  have hpos := f.rows_pos
  have hstop := h.stop_linear
  rw [firstCell] at hstop htop ⊢
  rw [h.scrolled]
  rcases Nat.le_total (stop.row + 1) f.size.row with hle | hge
  · rw [Nat.sub_eq_zero_of_le hle, Nat.add_zero]
    exact htop
  · obtain ⟨k, hk⟩ : ∃ k, stop.row = f.size.row - 1 + k := ⟨stop.row + 1 - f.size.row, by omega⟩
    have hsub : stop.row + 1 - f.size.row = k := by omega
    have hsum : ((f.size.row - 1 + k : Nat) * f.size.col : Int) =
        ((f.size.row - 1) * f.size.col : Nat) + f.size.col * k := by
      push_cast
      ring
    rw [hk, hsum] at hstop
    rw [hsub]
    push_cast
    rw [Int.mul_add]
    omega

theorem Live.redraw (hE : E.Understands P t) (hencode : P.EncodeEachLaw) (hnul : P.NulLaw)
    (hwidth : P.WidthLaw) (h : f.Live P E state e) (hlies : f.Lies P e)
    (hrows : e.line.buffer.length ≤ (f.size.row - 1) * f.size.col) :
    ∃ e', nrlRenderRedraw P t e = .ok e' ∧ f.Live P E state e' ∧ e.screen.io.Draws e'.screen.io := by
  obtain ⟨e', hredraw, hdisplayed⟩ := h.displayed.redraw hE hencode hnul hwidth hlies
  obtain ⟨T, text, -, -, hlength, hsmall⟩ := h.displayed.shown
  obtain ⟨e₁, first, stop, last, hredraw₁, hredrawing⟩ := h.displayed.books.redraw_sends hE hencode hnul
    hwidth hlies h.displayed.echoing (hlength ▸ hsmall)
  obtain rfl : e₁ = e' := Except.ok.inj (hredraw₁.symm.trans hredraw)
  have htop := hredrawing.top h.top hrows
  have htext := (nrlRenderRedraw_ok P t hredraw).text
  have hfirst : f.firstCell e₁.screen ≤ f.firstCell e.screen :=
    firstCell_le (hredrawing.scrolled ▸ Nat.le_add_right _ _)
  have hbottom := hlies.bottom
  obtain ⟨hdisplayed', -, hvisible⟩ := hdisplayed
    ⟨by rw [htext.buffer]; exact hlies.widths, htop, by rw [htext.buffer]; omega⟩
  obtain ⟨bytes, hsends, -⟩ := hredrawing.sends
  exact ⟨e₁, hredraw, h.of_sends hsends hdisplayed' htop hredrawing.wrCount fun _ => hvisible,
    hsends.draws⟩

end Frame

/-! ### Handlers -/

/-- The characters of a line. -/
def pointsOf (z : Zipper Uchar) : List Char := z.toList.map fun c => Char.ofNat c.toNat

/-- A custom key whose handler computes `edit`. -/
def handledKey (edit : List Char → Nat → List Char × Nat) (z : Zipper Uchar) : Zipper Uchar :=
  .ofList ((edit (pointsOf z) z.cursor).1.map Char.val) (edit (pointsOf z) z.cursor).2

/-- A custom key: what its handler computes, if it has one. -/
def customKey (t : Terminfo) (ignoreDefault : Bool) (edits : Nat → Option (List Char → Nat → List Char × Nat))
    (id : Nat) (z : Zipper Uchar) : Zipper Uchar :=
  match edits id with
  | some edit => handledKey edit z
  | none => unhandledKey t ignoreDefault id z

/-- The handlers of the table compute functions of code points. -/
structure EscapeTable.Computes (table : EscapeTable)
    (edits : Nat → Option (List Char → Nat → List Char × Nat)) : Prop where
  handler : ∀ {id : Nat} {handler : EscapeHandler}, table id = some handler →
    ∃ edit, edits id = some edit ∧ EditsPoints edit ∧ handler.Computes edit
  none : ∀ {id : Nat}, table id = .none → edits id = .none

theorem ofNat_val {c : Uchar} (h : c.isValidChar) : (Char.ofNat c.toNat).val = c :=
  congrArg Char.val (Char.ofNat_toNat ⟨c, h⟩)

theorem pointsOf_val (h : ∀ c ∈ z.toList, c.isValidChar) : (pointsOf z).map Char.val = z.toList := by
  rw [pointsOf, List.map_map]
  exact (List.map_congr_left fun c hc => ofNat_val (h c hc)).trans (List.map_id _)

theorem zero_notMem_pointsOf (h : ∀ c ∈ z.toList, c.isValidChar ∧ c ≠ 0) : Char.ofNat 0 ∉ pointsOf z := by
  intro hmem
  obtain ⟨c, hc, hzero⟩ := List.mem_map.mp hmem
  refine (h c hc).2 ?_
  rw [← ofNat_val (h c hc).1, hzero]
  rfl

/-- A line of such characters and a cursor in it, behind a handler. -/
theorem Frame.Live.custom (hE : E.Understands P t) (hutf8 : P.Utf8Laws) (htext : P.TextLaw)
    (h : f.Live P E state e) (hlies : f.Lies P e) (hz : e.line.Shows z)
    (hpoints : ∀ c ∈ z.toList, c.isValidChar ∧ c ≠ 0) {edit : List Char → Nat → List Char × Nat}
    (hedit : EditsPoints edit) {handler : EscapeHandler} (hhandler : handler.Computes edit)
    {table : EscapeTable} {id : Nat} (htable : table id = some handler) :
    ∃ e', nrlManipEvalCustom P t table id e = .ok (true, e') ∧ f.Live P E state e' ∧
      e'.line.Shows (handledKey edit z) ∧ e.screen.io.Draws e'.screen.io := by
  have hline := pointsOf_val fun c hc => (hpoints c hc).1
  have hzero := zero_notMem_pointsOf hpoints
  have hcursor : z.cursor ≤ (pointsOf z).length := by
    rw [pointsOf, List.length_map]
    exact z.cursor_le_length
  obtain ⟨-, hcursor'⟩ := hedit (pointsOf z) z.cursor hzero hcursor
  have hcalled := nrlManipEvalCustom_computes hutf8 htext hedit hhandler (t := t) htable
    (hz.buffer.trans hline.symm) hzero (hz.cursor ▸ hcursor)
  obtain ⟨e₁, hsync, hlive, hline₁, hdraws⟩ := h.sync hE hlies (Nat.zero_le _)
  rw [answerOf, hsync, hz.cursor] at hcalled
  have hplaced := hlive.displayed.books.placed
  rw [hline₁] at hplaced
  refine ⟨_, hcalled, hlive.of_dirty rfl ⟨?_, ?_, ?_⟩, ⟨?_, ?_⟩, hdraws⟩
  · dsimp only
    rw [hline₁]
    exact hplaced
  · dsimp only
    rw [hline₁]
    exact Nat.zero_le _
  · dsimp only
    rwa [List.length_map]
  · exact (Zipper.toList_ofList _ _).symm
  · exact (Zipper.cursor_ofList (by rwa [List.length_map])).symm

/-- **A terminal that understands the program** hosts the loop while the line has room. -/
theorem visible_hosts (hE : E.Understands P t) (hencode : P.EncodeEachLaw) (hnul : P.NulLaw)
    (hwidth : P.WidthLaw) (hutf8 : P.Utf8Laws) (htext : P.TextLaw) (hsmall : f.Small)
    {table : EscapeTable} {edits : Nat → Option (List Char → Nat → List Char × Nat)}
    (htable : table.Computes edits) (ignoreDefault : Bool) (state : E.State) :
    Hosts P t table ignoreDefault (customKey t ignoreDefault edits) True (f.Room P) (f.Live P E state) where
  read := fun h hfrom => h.of_reads hfrom
  perform := by
    intro e z op _ hI hz hroom _
    have hlies := hI.lies hsmall hz hroom
    cases op with
    | insert text =>
      have hinsert := nrlManipInsertText_eq P text hz.cursor_le
      exact ⟨_, hinsert, hI.of_dirty rfl (hI.displayed.books.insert hinsert), .refl _⟩
    | escape key => exact hI.key hE hlies key
    | redraw => exact hI.redraw hE hencode hnul hwidth hlies (hz.buffer ▸ hroom.rows)
    | sync =>
      obtain ⟨e', hsync, hlive, -, hdraws⟩ := hI.sync hE hlies hz.cursor_le
      exact ⟨e', hsync, hlive, hdraws⟩
  handled := by
    intro e z id handler hhandler hI hz hroom _
    obtain ⟨edit, hedits, hedit, hcomputes⟩ := htable.handler hhandler
    have hkey : customKey t ignoreDefault edits id z = handledKey edit z := by
      rw [customKey, hedits]
    rw [hkey]
    exact hI.custom hE hutf8 htext (hI.lies hsmall hz hroom) hz hroom.points hedit hcomputes hhandler
  unhandled := by
    intro id hid
    funext z
    rw [customKey, htable.none hid]

end Calls

end Nanorl
