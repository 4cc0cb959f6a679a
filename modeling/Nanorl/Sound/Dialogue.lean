import Nanorl.Sound.Asked
import Nanorl.Sound.Edited
import Nanorl.Sound.Example
import Nanorl.Sound.Interactive
import Nanorl.Sound.Report

/-!
# Nanorl.Sound.Dialogue

A call on a terminal that answers.

The terminal `Greets` a call with the place of its cursor and the size of its screen. From
there on it shows the line: whenever the loop waits for the next keystroke, the line typed so
far is on the screen with the cursor in its place (`typing_shown`), and the call returns the
line that is typed (`nanorl_shown`). The tab key of the example program is one of its uses
(`tabs_expanded`).
-/

namespace Nanorl

section Greets

variable {α : Type} {E : Emulator α} {P : Platform} {t : Terminfo} {f : Frame} {state : E.State}
  {config : Config} {w : World} {T : Terminal α} {replies : List (List Byte)}

/-- The terminal `T` a call starts on. It shows nothing of a query and replies to it; the screen
has the frame's size, and there are only blanks from the cursor on. -/
structure Frame.Greets (f : Frame) (P : Platform) (t : Terminfo) (E : Emulator α) (state : E.State)
    (config : Config) (w : World) (T : Terminal α) (replies : List (List Byte)) : Prop where
  smart : nrlTermIsSmart t = true
  request : ∃ request, nrlLookupSpecial t TerminfoSpecial.user7.id = some request ∧ E.Conveys request id
  displays : E.Displays ((w.echoed ++ openingBytes config t).foldl E.feed state) T
  replies : Replies P t w T f.size replies
  rows : T.rows = f.size.row
  cols : T.cols = f.size.col
  origin : f.origin = T.row * T.cols + T.col
  wrap : T.wrap = false
  blank : T.Holds f.origin []

/-- A terminal that shows nothing of the line yet shows the empty one. -/
theorem Frame.Shows.visible {e : Editor} (h : f.Shows [] e.screen.render.scrolled T)
    (hdisplays : E.Displays (e.screen.io.world.echoed.foldl E.feed state) T) (hline : e.line = emptyLine)
    (hnext : (T.next : Int) = f.firstCell e.screen) : f.Visible E state e T := by
  refine ⟨hdisplays, ?_, ?_⟩
  · rw [hline, show E.shown f.mode emptyLine.buffer = [] from
      List.length_eq_zero_iff.mp (length_shown E f.visible _)]
    exact h
  · rw [hline, hnext]
    exact (Int.add_zero _).symm

/-- Behind the queries the screen is live. -/
theorem Frame.Greets.live (hE : E.Understands P t) (h : f.Greets P t E state config w T replies) {s : Screen}
    (hwinsizes : s.io.world.winsizes = w.winsizes) (hidle : s.io.Idle)
    (hechoed : s.io.world.echoed = w.echoed ++ openingBytes config t)
    (hresize : s.render.resizeFlag = false) (hopened : s.io.Opened config) {reads : List ReadResult}
    (hreads : s.io.world.reads = replies.map .data ++ reads) (echoFile : Int) :
    ∃ s₀, nrlRenderInit P t f.mode echoFile s = .ok (true, s₀) ∧ s₀.io.Opened config ∧
      s₀.io.world.reads = reads ∧ s₀.io.world.errno ≠ .eintr ∧
      f.Live P E state { line := emptyLine, screen := s₀ } := by
  obtain ⟨request, huser7, hrequest⟩ := h.request
  obtain ⟨s₀, sent, hinit, hcursor, hsize, hasks, hreads', hshown⟩ := nrlRenderInit_replied hE f.visible h.smart
    huser7 hrequest h.wrap hidle (h.replies.congr hwinsizes) hreads echoFile
  have hidle₀ := hasks.idle hidle
  have hopens := nrlRenderInit_ok P t hinit
  have horigin : s₀.render.linear = f.origin := by
    rw [Render.linear, hcursor, hsize, h.origin, h.cols]
  have hdisplays : E.Displays (s₀.io.world.echoed.foldl E.feed state) T := by
    rw [hasks.echoed, hechoed, List.foldl_append]
    exact hshown _ h.displays
  have hstart : f.StartsOn s₀ T := ⟨h.rows, h.cols, by rw [hcursor], by rw [hcursor], h.wrap, h.blank⟩
  have hshows : f.Shows [] s₀.render.scrolled T := by
    rw [hopens.scrolled]
    exact hstart.shows hsize horigin
  have hfirst : f.firstCell s₀ = f.origin := by
    rw [Frame.firstCell, hopens.scrolled]
    simp
  have hnext : (T.next : Int) = f.firstCell s₀ := by
    rw [hfirst, h.origin, Terminal.next, h.wrap]
    push_cast
    simp
  refine ⟨s₀, hinit, ?_, hreads', hidle₀.obliging.errno, ⟨?_, ?_, hidle₀.wrCount, hidle₀.obliging.steady,
    fun _ => ⟨T, Frame.Shows.visible hshows hdisplays rfl hnext⟩⟩⟩
  · obtain ⟨_, _, _, _, _, _, hsame⟩ := hasks.same
    rw [hsame]
    exact ⟨hopened.readFile, hopened.echoFile, hopened.rdCount, hopened.rdUsed, hopened.rdPending,
      hopened.preloadData, rfl⟩
  · refine ⟨Frame.books_emptyLine hopens h.smart hresize hsize horigin hidle₀.obliging.writes,
      hidle₀.echoing, T, [], ?_, hshows, (nrlRenderInit_width hinit).symm, by simp⟩
    rw [Io.output_of_flushed hidle₀.wrCount]
    exact hdisplays
  · show 0 ≤ f.firstCell s₀
    rw [hfirst, h.origin]
    positivity

end Greets

/-! ### Typing -/

/-- What is typed with an echo: the screen has room for the line all the time, and `edits` is
what the handlers compute. -/
structure TypedCall.Shown (f : Frame) (P : Platform) (t : Terminfo) (keys : List DfaEntry)
    (edits : Nat → Option (List Char → Nat → List Char × Nat)) (c : TypedCall) : Prop
    extends c.Arrives P t keys where
  mode : checkArgs c.config = some f.mode
  handlers : (openedTable c.config f.mode nrlManipClearCustomTable).Computes edits
  room : HasRoom (customKey t c.config.customIgnoreDefault edits) (f.Room P) c.typed .empty

/-- A terminal that has read `output` shows the line `z` from its cell `first` on, and has its
cursor in place. -/
structure Frame.Presents {α : Type} (f : Frame) (E : Emulator α) (state : E.State) (output : List Byte)
    (z : Zipper Uchar) (first : Nat) (T : Terminal α) : Prop where
  displays : E.Displays (output.foldl E.feed state) T
  rows : T.rows = f.size.row
  cols : T.cols = f.size.col
  fits : first + z.toList.length < f.size.row * f.size.col
  holds : T.Holds first (E.shown f.mode z.toList)
  next : T.next = first + z.cursor

section Calls

variable {α : Type} {E : Emulator α} {P : Platform} {env : Environment} {t : Terminfo}
  {keys : List DfaEntry} {f : Frame} {state : E.State} {T : Terminal α} {replies : List (List Byte)}
  {edits : Nat → Option (List Char → Nat → List Char × Nat)} {c : TypedCall} {p : Process}

/-- What a live screen shows of a line that is drawn. -/
theorem Frame.Live.presents {e : Editor} {z : Zipper Uchar} (h : f.Live P E state e) (hz : e.line.Shows z)
    (hdrawn : e.line.dirty = false) : ∃ first T, f.Presents E state e.screen.io.world.echoed z first T := by
  obtain ⟨first, hfirst⟩ := Int.eq_ofNat_of_zero_le h.top
  obtain ⟨T, hvisible⟩ := h.shown hdrawn
  obtain ⟨hrows, hcols, hroom, origin, sheet, horigin, hcovers, htext⟩ := hvisible.shows
  have hnext := hvisible.next
  rw [hz.buffer] at hroom htext
  rw [hz.cursor] at hnext
  refine ⟨first, T, hvisible.displays, hrows, hcols, ?_, hcovers.holds htext ?_, ?_⟩
  · rw [length_shown E f.visible, Int.add_mul, Int.mul_comm _ (f.size.col : Int)] at hroom
    rw [Frame.firstCell] at hfirst
    have hcast : (f.size.row * f.size.col : Int) = (f.size.row * f.size.col : Nat) := by push_cast; rfl
    omega
  · rw [← hfirst, Frame.firstCell, horigin, hcols]
  · omega

/-- `init` for input with an echo: the loop starts on a live screen. -/
theorem init_live (hE : E.Understands P t) (hc : c.Shown f P t keys edits) (hp : p.Idle env t keys)
    (hgreets : f.Greets P t E state c.config p.world T replies)
    (hresize : p.screen.render.resizeFlag = false) {reads : List ReadResult}
    (hreads : p.world.reads = replies.map .data ++ reads) :
    ∃ p₁ s, p.Opened env c.config f.mode t keys p₁ ∧
      init P env c.config f.mode p.started = .ok (true, { p₁ with screen := s }) ∧
      s.io.Opened c.config ∧ s.io.world.reads = reads ∧ s.io.world.errno ≠ .eintr ∧
      f.Live P E state { line := emptyLine, screen := s } := by
  obtain ⟨hread, hecho⟩ := checkArgs_files hc.mode
  obtain ⟨p₁, hopens, hinit⟩ := init_idle (P := P) hecho f.mode hc.brief hp
  have hidle : p₁.screen.io.Idle := by
    refine ⟨?_, ?_, hopens.echoEnabled.trans (decide_eq_true f.visible), hopens.io.wrCount, hopens.obliging⟩
    · rw [hopens.io.echoFile]
      omega
    · rw [hopens.io.readFile]
      omega
  obtain ⟨s, hrender, hopened, hreads', herrno, hlive⟩ := hgreets.live hE hopens.winsizes hidle hopens.echoed
    (by rw [hopens.render]; exact hresize) hopens.io (hopens.reads.trans hreads) c.config.echoFile
  rw [hrender] at hinit
  exact ⟨p₁, s, hopens, hinit, hopened, hreads', herrno, hlive⟩

/-! ### The example on an xterm -/

/-- An `é`, a tab, the left key and an `a`. The reads end within the keystrokes, but for the last
two. -/
def tabCall : TypedCall where
  fuel := 5
  config := exEscapeUtf8
  typed := [.char 'é', xtermTab, xtermLeft, .char 'a']
  ending := 10
  reads := [.data [0xc3], .data [0xa9, 9, 0x1b], .data [0x4f, 0x44, 97], .data [10]]

/-- Behind the prompt, in the second row of a small xterm. -/
def promptFrame : Frame := { xtermFrame with
  size := ⟨3, 40⟩
  origin := 57
  rows_pos := by decide
  rows_lt := by decide
  cols_pos := by decide }

theorem tabCall_shown : tabCall.Shown promptFrame referencePlatform xtermTerminfo xtermKeys tabEdits :=
  ⟨⟨by decide +kernel, by decide +kernel, .inl rfl, by decide +kernel, by decide +kernel, by decide⟩, rfl,
    exEscapeUtf8_computes, by decide +kernel⟩

/-- The static data of the library, with a terminal of 3 rows and 40 columns whose cursor is behind
the prompt, and what is typed at it. -/
def answeringProcess (reads : List ReadResult) : Process where
  terminfo := .unloaded
  root := dfaRoot
  screen :=
    { render := staticRender
      io := { staticIo with world := { idleWorld with
        reads := [ascii "\x1b[2;18R"].map .data ++ reads
        isTty := true
        winsizes := [some (3, 40)] } } }
  escapeTable := nrlManipClearCustomTable
  oldAttrs := idleWorld.attrs
  oldActions := idleWorld.actions

theorem answeringProcess_idle (reads : List ReadResult) :
    (answeringProcess reads).Idle (bareEnvironment (ascii "xterm")) xtermTerminfo xtermKeys :=
  ⟨⟨fun _ hr => absurd hr List.not_mem_nil, fun _ hr => absurd hr List.not_mem_nil⟩, fun _ => rfl,
    .found rfl rfl xtermTerminfo_loadable xtermTerminfo_unambiguous (.inl rfl), rfl⟩

/-- The beginning of the second row. -/
def smallDisplay : AnsiState :=
  { pending := [], screen := promptTerminal 3 40 1 (by decide) (by decide) }

/-- Behind the prompt. -/
def promptDisplay : AnsiState := (openingBytes exEscapeUtf8 xtermTerminfo).foldl ansiEmulator.feed smallDisplay

theorem AnsiState.displays {s : AnsiState} (hpending : s.pending = []) (hblank : s.screen.blank = 32) :
    ansiEmulator.Displays s s.screen := by
  obtain ⟨pending, screen⟩ := s
  subst hpending
  exact ⟨rfl, hblank⟩

theorem promptDisplay_greets (reads : List ReadResult) :
    promptFrame.Greets referencePlatform xtermTerminfo ansiEmulator smallDisplay exEscapeUtf8
      (answeringProcess reads).world promptDisplay.screen [ascii "\x1b[2;18R"] where
  smart := by decide
  request := ⟨_, xterm_user7, xtermRequest_conveys⟩
  displays := AnsiState.displays (s := promptDisplay) (by decide +kernel) (by decide +kernel)
  replies := by
    refine .window ⟨⟨_, _, xterm_user6, rfl, rfl, ?_⟩, by decide⟩
      (show _ = [some ((3 : UInt16), (40 : UInt16))] from rfl)
    decide +kernel
  rows := by decide +kernel
  cols := by decide +kernel
  origin := by decide +kernel
  wrap := by decide +kernel
  blank := by
    have hsize : promptDisplay.screen.rows * promptDisplay.screen.cols = 120 := by decide +kernel
    have hblank : ∀ p < 120, 57 ≤ p → promptDisplay.screen.cells p = promptDisplay.screen.blank := by
      decide +kernel
    intro i p hp hlt
    change (p : Int) = 57 + i at hp
    exact hblank p (hsize ▸ hlt) (by omega)

/-! ### What is typed is shown -/

/-- **What is typed is on the screen.** However the keystrokes of a line are cut into a preload
and reads: when the bytes up to one of its keystrokes have come and no others, the loop has
taken them all, asks for the next read, and the terminal shows the line typed so far, with its
cursor in place. -/
theorem typing_shown (hlaw : P.ConsumesAnnounced) (hutf8 : P.Utf8Laws) (htext : P.TextLaw)
    (hencode : P.EncodeEachLaw) (hnul : P.NulLaw) (hwidth : P.WidthLaw) (hE : E.Understands P t)
    (hsmall : f.Small) (hc : c.Shown f P t keys edits) (hp : p.Idle env t keys)
    (hgreets : f.Greets P t E state c.config p.world T replies)
    (hresize : p.screen.render.resizeFlag = false) {rest : List ReadResult}
    (hreads : p.world.reads = replies.map .data ++ (c.reads ++ rest))
    {past later : List Keystroke} (htyped : c.typed = past ++ later) {now next : List ReadResult}
    (hsplit : c.reads = now ++ next)
    (hpast : c.config.preload.getD [] ++ deliveredAll now = typedBytes past) :
    ∃ p₁ buffer e first T', init P env c.config f.mode p.started = .ok (true, p₁) ∧
      (∀ fuel, readLoop P p₁.terminfo p₁.root p₁.escapeTable c.config.customIgnoreDefault
          (past.length + fuel) freshBuffer { line := emptyLine, screen := p₁.screen } =
        readLoop P p₁.terminfo p₁.root p₁.escapeTable c.config.customIgnoreDefault fuel buffer e) ∧
      e.screen.io.world.reads = next ++ rest ∧ e.screen.io.rdUsed = e.screen.io.rdCount ∧
      f.Presents E state e.screen.io.world.echoed
        (typedLine (customKey t c.config.customIgnoreDefault edits) past .empty) first T' := by
  obtain ⟨p₁, s, hopens, hinit, hopened, hreads₁, -, hlive⟩ := init_live hE hc hp hgreets hresize hreads
  rw [hsplit, List.append_assoc] at hreads₁
  obtain ⟨hready, hhand⟩ := hopened.cut (checkArgs_files hc.mode).1 hpast hreads₁
  have hosts := visible_hosts hE hencode hnul hwidth hutf8 htext hsmall hc.handlers
    c.config.customIgnoreDefault state
  have hmem : ∀ k ∈ past, k ∈ c.typed := fun k hk => htyped ▸ List.mem_append_left _ hk
  have hroom : HasRoom (customKey t c.config.customIgnoreDefault edits) (f.Room P) past .empty :=
    fun before hbefore => hc.room before (hbefore.trans ⟨later, htyped.symm⟩)
  obtain ⟨buffer, e, hloop, hhead, hhand'⟩ := hosts.types hlaw hutf8 hopens.hasKeys
    (fun k hk => hc.typable k (hmem k hk)) (fun _ _ _ _ => trivial) hroom
    ⟨hlive, ⟨rfl, rfl⟩, hready, fun _ => rfl⟩ freshBuffer
  have hnone := hhand' _ _ (Nat.le_refl _) hhand
  rw [Nat.sub_self] at hnone
  obtain ⟨hleft, -, hused, -⟩ := hnone.none hhead.ready.used_le
  obtain ⟨first, T', hpresents⟩ := hhead.inv.presents hhead.shows (hhead.drawn hused)
  rw [← hopens.terminfo, ← hopens.table] at hloop
  exact ⟨_, buffer, e, first, T', hinit, hloop, hleft, hused, hpresents⟩

theorem typing_shown_xterm : ∃ p₁ buffer e first T,
    init referencePlatform (bareEnvironment (ascii "xterm")) exEscapeUtf8 .on
      (answeringProcess tabCall.reads).started = .ok (true, p₁) ∧
    (∀ fuel, readLoop referencePlatform p₁.terminfo p₁.root p₁.escapeTable true (4 + fuel) freshBuffer
        { line := emptyLine, screen := p₁.screen } =
      readLoop referencePlatform p₁.terminfo p₁.root p₁.escapeTable true fuel buffer e) ∧
    e.screen.io.world.reads = [.data [10]] ∧ e.screen.io.rdUsed = e.screen.io.rdCount ∧
    promptFrame.Presents ansiEmulator smallDisplay e.screen.io.world.echoed
      (.ofList ("é   a ".toList.map Char.val) 5) first T := by
  have htyped := typing_shown referencePlatform_consumes referencePlatform_utf8 referencePlatform_text
    referencePlatform_encodeEach referencePlatform_nul referencePlatform_width ansiEmulator_understands
    (by decide) tabCall_shown (answeringProcess_idle _) (promptDisplay_greets tabCall.reads) rfl
    (show _ = [ascii "\x1b[2;18R"].map .data ++ (tabCall.reads ++ []) from rfl) (List.append_nil _).symm
    (show tabCall.reads = [.data [0xc3], .data [0xa9, 9, 0x1b], .data [0x4f, 0x44, 97]] ++ [.data [10]] from rfl)
    (by decide +kernel)
  rw [show typedLine _ tabCall.typed .empty = .ofList ("é   a ".toList.map Char.val) 5 by decide +kernel] at htyped
  exact htyped

/-- One call. The loop leaves a live screen behind it, and nothing to draw if what ends the line
comes in a read of its own. -/
theorem TypedCall.perform_shown (hlaw : P.ConsumesAnnounced) (hutf8 : P.Utf8Laws) (htext : P.TextLaw)
    (hencode : P.EncodeEachLaw) (hnul : P.NulLaw) (hwidth : P.WidthLaw) (hE : E.Understands P t)
    (hsmall : f.Small) (hc : c.Shown f P t keys edits) (hp : p.Idle env t keys)
    (hgreets : f.Greets P t E state c.config p.world T replies)
    (hresize : p.screen.render.resizeFlag = false) {rest : List ReadResult}
    (hreads : p.world.reads = replies.map .data ++ (c.reads ++ rest)) {line : Zipper Uchar}
    (hline : typedLine (customKey t c.config.customIgnoreDefault edits) c.typed .empty = line) :
    ∃ p' e, c.perform P env p =
        .ok (typedResult P (decide (c.ending = charEot)) (p.world.isTty && interrupted c.reads) line.toList, p') ∧
      p'.Idle env t keys ∧ p'.world.reads = rest ∧
      p'.world.echoed = e.screen.io.world.echoed ++ closingBytes t ∧
      f.Live P E state e ∧ e.line.Shows line ∧
      ∀ before last, c.reads = before ++ [last] → delivered last = [c.ending] → e.line.dirty = false := by
  obtain ⟨hread, hfile⟩ := checkArgs_files hc.mode
  obtain ⟨p₁, s, hopens, hinit, hopened, hreads₁, herrno, hlive⟩ := init_live hE hc hp hgreets hresize hreads
  obtain ⟨hready, hhand⟩ := hc.opened hopened hread hreads₁
  have hosts := visible_hosts hE hencode hnul hwidth hutf8 htext hsmall hc.handlers
    c.config.customIgnoreDefault state
  obtain ⟨buffer, e, hloop, heof, hlive', hshows, hleft, hdrawn⟩ := hosts.line hlaw hutf8 hopens.hasKeys
    hc.typable (fun _ _ _ _ => trivial) hc.room hc.ending (forall_mem_sequences.mpr hc.unclaimed)
    ⟨hlive, ⟨rfl, rfl⟩, hready, fun _ => rfl⟩ hc.fuel freshBuffer
  obtain ⟨hleft, herrno'⟩ := hleft _ hhand
  rw [hline] at hshows
  rw [← hopens.table] at hloop
  have hzero : (0 : Uchar) ∉ e.line.buffer := by
    rw [hshows.buffer, ← hline]
    exact fun hmem => (hc.room.all.points 0 hmem).2 rfl
  have hinterrupted : e.screen.io.world.errno = .eintr ↔ interrupted c.reads = true := by
    rw [herrno']
    exact errnoAfter_eintr herrno c.reads
  obtain ⟨p', hcall, hidle, -, -, hreads', hechoed⟩ := hopens.ends hc.mode hc.brief hinit hloop hinterrupted
    hlive'.steady hlive'.displayed.echoing.echoFile hlive'.wrCount hzero
  refine ⟨p', e, ?_, hidle, hreads'.trans hleft, hechoed, hlive', hshows, fun before last hsplit hlast => ?_⟩
  · rw [TypedCall.perform, hcall, heof, hshows.buffer]
  · have hcut := hc.cut
    rw [hsplit, deliveredAll_append, show deliveredAll [last] = [c.ending] by
      rw [deliveredAll_cons, hlast]; rfl, ← List.append_assoc] at hcut
    rw [hsplit, List.append_assoc] at hreads₁
    obtain ⟨-, hhand'⟩ := hopened.cut hread (List.append_cancel_right hcut) hreads₁
    exact hdrawn _ hhand'

/-- **Lines edited with an echo.** A call on a terminal that understands and answers it returns
the line that is typed, behind every edit of its keys and its handlers, and leaves the later
reads alone. If what ends the line comes in a read of its own, the terminal has shown the whole
line before the call goes on to its last bytes. -/
theorem nanorl_shown (hlaw : P.ConsumesAnnounced) (hutf8 : P.Utf8Laws) (htext : P.TextLaw)
    (hencode : P.EncodeEachLaw) (hnul : P.NulLaw) (hwidth : P.WidthLaw) (hE : E.Understands P t)
    (hsmall : f.Small) (hc : c.Shown f P t keys edits) (hp : p.Idle env t keys)
    (hgreets : f.Greets P t E state c.config p.world T replies)
    (hresize : p.screen.render.resizeFlag = false) {rest : List ReadResult}
    (hreads : p.world.reads = replies.map .data ++ (c.reads ++ rest)) {line : Zipper Uchar}
    (hline : typedLine (customKey t c.config.customIgnoreDefault edits) c.typed .empty = line) :
    ∃ p' output, c.perform P env p =
        .ok (typedResult P (decide (c.ending = charEot)) (p.world.isTty && interrupted c.reads) line.toList, p') ∧
      p'.Idle env t keys ∧ p'.world.reads = rest ∧ p'.world.echoed = output ++ closingBytes t ∧
      ∀ before last, c.reads = before ++ [last] → delivered last = [c.ending] →
        ∃ first T', f.Presents E state output line first T' := by
  obtain ⟨p', e, hcall, hidle, hreads', hechoed, hlive, hshows, hdrawn⟩ := TypedCall.perform_shown hlaw hutf8
    htext hencode hnul hwidth hE hsmall hc hp hgreets hresize hreads hline
  exact ⟨p', e.screen.io.world.echoed, hcall, hidle, hreads', hechoed, fun before last hsplit hlast =>
    hlive.presents hshows (hdrawn before last hsplit hlast)⟩

theorem nanorl_shown_xterm : ∃ p' output first T,
    tabCall.perform referencePlatform (bareEnvironment (ascii "xterm"))
      (answeringProcess (tabCall.reads ++ [.data [98]])) =
      .ok ({ data := some (utf8 "é   a ".toList), error := .ok }, p') ∧
    p'.world.reads = [.data [98]] ∧ p'.world.echoed = output ++ closingBytes xtermTerminfo ∧
    promptFrame.Presents ansiEmulator smallDisplay output (.ofList ("é   a ".toList.map Char.val) 5) first T := by
  obtain ⟨p', output, hcall, -, hreads, hechoed, hshown⟩ := nanorl_shown referencePlatform_consumes
    referencePlatform_utf8 referencePlatform_text referencePlatform_encodeEach referencePlatform_nul
    referencePlatform_width ansiEmulator_understands (by decide) tabCall_shown
    (answeringProcess_idle _) (promptDisplay_greets (tabCall.reads ++ [.data [98]])) rfl rfl
    (show typedLine _ tabCall.typed .empty = .ofList ("é   a ".toList.map Char.val) 5 by decide +kernel)
  obtain ⟨first, T, hpresents⟩ :=
    hshown [.data [0xc3], .data [0xa9, 9, 0x1b], .data [0x4f, 0x44, 97]] (.data [10]) rfl rfl
  refine ⟨p', output, first, T, ?_, hreads, hechoed, hpresents⟩
  rw [hcall]
  rfl

/-! ### Tabs -/

/-- **The example with tabs.** Whoever types a text with tabs at `ex_escape_utf8` gets it back
with four spaces for each of them, however its bytes arrive. -/
theorem tabs_expanded (hlaw : P.ConsumesAnnounced) (hutf8 : P.Utf8Laws) (htextLaw : P.TextLaw)
    (hencode : P.EncodeEachLaw) (hnul : P.NulLaw) (hwidth : P.WidthLaw) (hE : E.Understands P t)
    (hsmall : f.Small) (hmode : f.mode = .on) {text : List Char} (htext : TabText P keys text)
    (hspace : P.ucwidth 32 = 1) (hrows : (expandTabs text).length ≤ (f.size.row - 1) * f.size.col)
    (htab : ⟨[9], ⟨28⟩, true⟩ ∈ keys) (hnewline : ∀ entry ∈ keys, entry.sequence.head? ≠ some 10)
    (hbrief : Brief exEscapeUtf8 t) (hp : p.Idle env t keys)
    (hgreets : f.Greets P t E state exEscapeUtf8 p.world T replies)
    (hresize : p.screen.render.resizeFlag = false) {chunks : List (List Byte)} (hne : [] ∉ chunks)
    (hcut : chunks.flatten = utf8 text ++ [10]) {rest : List ReadResult}
    (hreads : p.world.reads = replies.map .data ++ (chunks.map .data ++ rest)) {fuel : Nat}
    (hfuel : text.length < fuel) :
    ∃ p', nanorl P fuel env exEscapeUtf8 p =
        .ok ({ data := some (utf8 (expandTabs text)), error := .ok }, p') ∧ p'.world.reads = rest := by
  have hzero : Char.ofNat 0 ∉ text := fun hmem => htext.ne_nul _ hmem rfl
  have hline := typedLine_tabs t hzero (z := .empty) fun c hc => absurd hc List.not_mem_nil
  have hshown : TypedCall.Shown f P t keys tabEdits
      { fuel, config := exEscapeUtf8, typed := text.map tabKeystroke, ending := 10,
        reads := chunks.map .data } := by
    refine ⟨⟨hbrief, htext.typable htab, .inl rfl, hnewline, ?_, ?_⟩, ?_, ?_, fun past hpast => ?_⟩
    · dsimp only
      rw [typedBytes_tabs, deliveredAll_data hne]
      exact hcut
    · dsimp only
      rw [List.length_map]
      exact hfuel
    · rw [hmode]
      rfl
    · dsimp only
      rw [hmode]
      exact exEscapeUtf8_computes
    · -- room behind a part of the keystrokes is room behind a part of the text
      obtain ⟨later, hsplit⟩ := hpast
      obtain ⟨front, back, rfl, rfl, -⟩ := List.map_eq_append_iff.mp hsplit.symm
      have hfront : TabText P keys front := fun c hc => htext c (List.mem_append_left _ hc)
      dsimp only
      rw [show exEscapeUtf8.customIgnoreDefault = true from rfl,
        typedLine_tabs t (fun hmem => hfront.ne_nul _ hmem rfl) fun c hc => absurd hc List.not_mem_nil]
      refine hfront.room hspace hmode (Nat.le_trans ?_ hrows)
      rw [expandTabs, expandTabs, List.flatMap_append, List.length_append]
      exact Nat.le_add_right _ _
  obtain ⟨p', e, hcall, -, hreads', -⟩ := TypedCall.perform_shown hlaw hutf8 htextLaw hencode hnul hwidth hE
    hsmall hshown hp hgreets hresize hreads hline
  have hwhole : interrupted (chunks.map .data) = false := by
    rw [interrupted, errnoAfter_data]
    rfl
  have hresult : typedResult P (decide ((10 : Byte) = charEot)) (p.world.isTty && interrupted (chunks.map .data))
      (Zipper.empty.insert ((expandTabs text).map Char.val)).toList =
        { data := some (utf8 (expandTabs text)), error := .ok } := by
    rw [Zipper.toList_insert, typedResult, hwhole, Bool.and_false,
      show decide ((10 : Byte) = charEot) = false from rfl, Bool.false_and, if_neg Bool.false_ne_true,
      show (Zipper.empty : Zipper Uchar).toList = [] from rfl, List.take_nil, List.drop_nil, List.nil_append,
      List.append_nil, hutf8.encode]
    rfl
  rw [hresult] at hcall
  exact ⟨p', hcall, hreads'⟩

theorem tabs_expanded_xterm : ∃ p',
    nanorl referencePlatform 4 (bareEnvironment (ascii "xterm")) exEscapeUtf8
      (answeringProcess [.data [97, 9], .data [0xc3], .data [0xa9, 10]]) =
      .ok ({ data := some (utf8 "a    é".toList), error := .ok }, p') ∧ p'.world.reads = [] := by
  have htext : TabText referencePlatform xtermKeys ['a', '\t', 'é'] := by decide +kernel
  have hreads : (answeringProcess [.data [97, 9], .data [0xc3], .data [0xa9, 10]]).world.reads =
      [ascii "\x1b[2;18R"].map .data ++ ([[97, 9], [0xc3], [0xa9, 10]].map .data ++ []) := rfl
  exact tabs_expanded referencePlatform_consumes referencePlatform_utf8 referencePlatform_text
    referencePlatform_encodeEach referencePlatform_nul referencePlatform_width ansiEmulator_understands
    (f := promptFrame) (by decide) rfl htext (by decide +kernel) (by decide) (by decide +kernel)
    (by decide +kernel) (by decide +kernel) (answeringProcess_idle _) (promptDisplay_greets _) rfl
    (show [] ∉ [[97, 9], [0xc3], [0xa9, 10]] by decide) (by decide) hreads (by decide)

end Calls

end Nanorl
