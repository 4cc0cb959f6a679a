import Nanorl.Sound.Capability
import Nanorl.Sound.Display
import Nanorl.Sound.Opening
import Nanorl.Sound.Report

/-!
# Nanorl.Sound.Asked

What a call asks its terminal before it shows anything.

`nrl_render_init` asks for the place of the cursor and then for the size of the screen. Where
the system does not know the size, `query_size` sends the cursor to the last cell, asks again,
and brings it back: that is the size of the screen, and the screen is as it was
(`querySize_corner`). Either way a terminal that `Greets` the call is known to the books as it is
(`Greets.renderInit`).
-/

namespace Nanorl

/-! ### Questions -/

/-- `sent` has been written and some replies have been taken; nothing else has happened, and
nothing is left in the buffer. -/
structure Io.Asks (sent : List Byte) (io io' : Io) : Prop where
  same : ∃ wrBuf errno writes echoed reads winsizes, io' = { io with
    wrBuf, wrCount := 0, world := { io.world with errno, writes, echoed, reads, winsizes } }
  echoed : io'.world.echoed = io.world.echoed ++ sent
  obliging : io'.world.Obliging

/-- An echo side that has sent everything, on a process whose calls do not fail. -/
structure Io.Idle (io : Io) : Prop where
  echoFile : io.echoFile ≠ -1
  readFile : io.readFile ≠ -1
  echoEnabled : io.echoEnabled = true
  wrCount : io.wrCount = 0
  obliging : io.world.Obliging

theorem Io.Idle.echoing {io : Io} (h : io.Idle) : io.Echoing :=
  ⟨h.echoFile, h.echoEnabled, h.wrCount ▸ Nat.zero_le _, h.obliging.writes⟩

theorem Io.Asks.idle {sent : List Byte} {io io' : Io} (h : io.Asks sent io') (hidle : io.Idle) : io'.Idle := by
  have hobliging := h.obliging
  obtain ⟨wrBuf, errno, writes, echoed, reads, winsizes, rfl⟩ := h.same
  exact ⟨hidle.echoFile, hidle.readFile, hidle.echoEnabled, rfl, hobliging⟩

theorem Io.Asks.trans {sent sent' : List Byte} {io₁ io₂ io₃ : Io} (h : io₁.Asks sent io₂)
    (h' : io₂.Asks sent' io₃) : io₁.Asks (sent ++ sent') io₃ := by
  obtain ⟨_, _, _, _, _, _, hsame⟩ := h.same
  obtain ⟨wrBuf, errno, writes, echoed, reads, winsizes, hsame'⟩ := h'.same
  refine ⟨⟨wrBuf, errno, writes, echoed, reads, winsizes, ?_⟩, ?_, h'.obliging⟩
  · rw [hsame', hsame]
  · rw [h'.echoed, h.echoed, List.append_assoc]

theorem Io.Sends.asks {data : List Byte} {io io' : Io} (h : io.Sends data io') (hidle : io.Idle)
    (hzero : io'.wrCount = 0) : io.Asks data io' := by
  have houtput := h.output
  rw [Io.output_of_flushed hzero, Io.output_of_flushed hidle.wrCount] at houtput
  refine ⟨?_, houtput, (h.serves hidle.obliging).obliging⟩
  obtain ⟨wrBuf, wrCount, writes, echoed, rfl⟩ := h.same
  obtain rfl : wrCount = 0 := hzero
  exact ⟨wrBuf, io.world.errno, writes, echoed, io.world.reads, io.world.winsizes, rfl⟩

/-- The report is an answer to `user7`, and the position in it is this one. -/
structure Locates (P : Platform) (t : Terminfo) (report : List Byte) (position : Pos2d) : Prop where
  parsed : ∃ format lastChar, nrlLookupSpecial t TerminfoSpecial.user6.id = some format ∧
    format.getLast? = some lastChar ∧ report.getLast? = some lastChar ∧
    positionOf P format report = .ok position
  length : report.length < cprResBufSize

section Asked

variable {α : Type} {E : Emulator α} {P : Platform} {t : Terminfo} {request report : List Byte}
  {reads : List ReadResult} {position : Pos2d}

/-- A query whose answer comes in one read. -/
theorem queryCursor_asks (huser7 : nrlLookupSpecial t TerminfoSpecial.user7.id = some request)
    (hlocates : Locates P t report position) {io : Io} (h : io.Idle)
    (hreads : io.world.reads = .data report :: reads) :
    ∃ io', queryCursor P t io = .ok (some position, io') ∧ io.Asks request io' ∧
      io'.world.reads = reads ∧ io'.world.winsizes = io.world.winsizes := by
  obtain ⟨format, lastChar, huser6, hformat, hlast, hposition⟩ := hlocates.parsed
  obtain ⟨io₀, hwrite, hsends₀⟩ : ∃ io', nrlIoWrite P request io = .ok (true, io') ∧
      io.Sends request io' := nrlIoWrite_sends P h.echoing (.inl h.wrCount)
  obtain ⟨io₁, hflush, hsends₁, hzero⟩ := nrlIoFlush_sends P (hsends₀.echoing h.echoing)
  have hsends := hsends₀.trans hsends₁
  rw [List.append_nil] at hsends
  have hrequest : SendsRequest P t io io₁ := ⟨request, io₀, huser7, hwrite, hflush⟩
  have hasks := hsends.asks h hzero
  have hidle := hasks.idle h
  have hreads₁ : io₁.world.reads = .data report :: reads := hsends.reads.trans hreads
  have hwinsizes : io₁.world.winsizes = io.world.winsizes := by
    obtain ⟨_, _, _, _, rfl⟩ := hsends.same
    rfl
  refine ⟨{ io₁ with world := { io₁.world with reads } }, ?_, ⟨?_, hasks.echoed, ?_⟩, rfl, hwinsizes⟩
  · rw [hrequest.queryCursor_eq, receiveReport_eq huser6 hformat,
      readResponse_whole hidle.readFile hreads₁ hlast (Nat.le_of_lt hlocates.length), Run.ok_bind]
    dsimp only
    rw [hposition]
    rfl
  · obtain ⟨wrBuf, errno, writes, echoed, _, winsizes, rfl⟩ := hasks.same
    exact ⟨wrBuf, errno, writes, echoed, reads, winsizes, rfl⟩
  · exact ⟨hidle.obliging.calls, hidle.obliging.writes, hidle.obliging.errno⟩

theorem moveCursor2d_asks (hE : E.Understands P t) {location : Pos2d} (hlocation : location.Sendable)
    {s : Screen} (h : s.io.Idle) :
    ∃ s' moveCmd, moveCursor2d P t location s = .ok (true, s') ∧
      s'.render = { s.render with cursorPos := location } ∧ s.io.Asks moveCmd s'.io ∧
      s'.io.world.reads = s.io.world.reads ∧ E.Conveys moveCmd (·.address location.row location.col) := by
  obtain ⟨s', hmove, hto⟩ := moveCursor2d_sends hE hlocation h.echoing
  obtain ⟨moveCmd, hsends, hconveys⟩ := hto.sends
  exact ⟨s', moveCmd, hmove, hto.render, hsends.asks h hto.wrCount, hsends.reads, hconveys⟩

theorem World.winsize_congr {w w' : World} (h : w'.winsizes = w.winsizes) : w'.winsize.1 = w.winsize.1 := by
  unfold World.winsize
  rw [h]
  cases w.winsizes with
  | nil => rfl
  | cons size winsizes => cases size <;> rfl

/-- A size request that fails. -/
theorem Io.Idle.asks_winsize {io : Io} (h : io.Idle) (hnone : io.world.winsize.1 = none) :
    io.Asks [] { io with world := io.world.winsize.2 } ∧ io.world.winsize.2.reads = io.world.reads := by
  have hasks : ∀ winsizes, io.Asks [] { io with world := { io.world with winsizes, errno := .enotty } } := by
    intro winsizes
    refine ⟨⟨io.wrBuf, .enotty, io.world.writes, io.world.echoed, io.world.reads, winsizes, ?_⟩,
      (List.append_nil _).symm, ⟨h.obliging.calls, h.obliging.writes, nofun⟩⟩
    rw [← h.wrCount]
  unfold World.winsize at hnone ⊢
  cases hwinsizes : io.world.winsizes with
  | nil => exact ⟨hasks [], rfl⟩
  | cons size winsizes =>
    rw [hwinsizes] at hnone
    cases size with
    | none => exact ⟨hasks winsizes, rfl⟩
    | some size => cases hnone

/-- **The size of the screen, by the place of its last cell.** The cursor goes there and comes
back. -/
theorem querySize_corner (hE : E.Understands P t)
    (huser7 : nrlLookupSpecial t TerminfoSpecial.user7.id = some request) (hrequest : E.Conveys request id)
    {T : Terminal α} (hrows : T.rows ≤ 10000) (hcols : T.cols ≤ 10000) (hwrap : T.wrap = false)
    {again corner : List Byte} (hagain : Locates P t again ⟨T.row, T.col⟩)
    (hcorner : Locates P t corner ⟨(T.address 9999 9999).row, (T.address 9999 9999).col⟩)
    {s : Screen} (h : s.io.Idle)
    (hnone : s.io.world.winsize.1 = none)
    (hreads : s.io.world.reads = .data again :: .data corner :: reads) (buf : Pos2d) :
    ∃ s' sent, querySize P t buf s = .ok (true, ⟨T.rows, T.cols⟩, s') ∧
      s'.render = { s.render with cursorPos := ⟨T.row, T.col⟩ } ∧ s.io.Asks sent s'.io ∧
      s'.io.world.reads = reads ∧
      ∀ state, E.Displays state T → E.Displays (sent.foldl E.feed state) T := by
  have hrow := T.row_lt
  have hcol := T.col_lt
  obtain ⟨hasks₀, hreads₀⟩ := h.asks_winsize hnone
  obtain ⟨io₁, hquery₁, hasks₁, hreads₁, -⟩ :=
    queryCursor_asks huser7 hagain (hasks₀.idle h) (hreads₀.trans hreads)
  have hidle₁ := hasks₁.idle (hasks₀.idle h)
  obtain ⟨s₂, moveCmd, hmove₂, hrender₂, hasks₂, hreads₂, hconveys₂⟩ := moveCursor2d_asks hE
    (show Pos2d.Sendable ⟨9999, 9999⟩ from ⟨by decide, by decide⟩) (s := { s with io := io₁ }) hidle₁
  have hidle₂ := hasks₂.idle hidle₁
  obtain ⟨io₃, hquery₃, hasks₃, hreads₃, -⟩ :=
    queryCursor_asks huser7 hcorner hidle₂ (hreads₂.trans hreads₁)
  have hidle₃ := hasks₃.idle hidle₂
  obtain ⟨s', backCmd, hmove₄, hrender₄, hasks₄, hreads₄, hconveys₄⟩ := moveCursor2d_asks hE
    (show Pos2d.Sendable ⟨T.row, T.col⟩ from ⟨by dsimp only; omega, by dsimp only; omega⟩)
    (s := { s₂ with io := io₃ }) hidle₃
  refine ⟨s', _, ?_, ?_, (((hasks₀.trans hasks₁).trans hasks₂).trans hasks₃).trans hasks₄,
    hreads₄.trans hreads₃, fun state hdisplays => ?_⟩
  · unfold querySize
    rw [show s.io.world.winsize = (none, s.io.world.winsize.2) from Prod.ext hnone rfl]
    dsimp only
    rw [hquery₁, Run.ok_bind]
    dsimp only
    rw [hmove₂, Run.ok_bind]
    dsimp only
    rw [if_neg (by decide), hquery₃, Run.ok_bind]
    dsimp only
    rw [hmove₄, Run.ok_bind]
    dsimp only
    rw [if_neg (by decide), show (T.address 9999 9999).row = min 9999 (T.rows - 1) from rfl,
      show (T.address 9999 9999).col = min 9999 (T.cols - 1) from rfl]
    have hlast : ∀ n, 0 < n → n ≤ 10000 → uint32 ((min 9999 (n - 1) : Nat) + 1 : Int) = n := by
      intro n hpos hle
      unfold uint32
      omega
    rw [hlast _ (by omega) hrows, hlast _ (by omega) hcols]
    rfl
  · rw [hrender₄]
    dsimp only
    rw [hrender₂]
  · rw [List.foldl_append, List.foldl_append, List.foldl_append, List.foldl_append]
    have hback := hconveys₄ _ _ (hrequest _ _ (hconveys₂ _ _ (hrequest _ _ hdisplays)))
    dsimp only [id] at hback
    rwa [Terminal.address_back T hwrap] at hback

/-! ### The opening of the screen -/

/-- What a terminal that shows `T` replies to the queries of `nrl_render_init`, which then takes
its screen to have this size: to one query if the system knows the size, and to three of them if
it does not. -/
inductive Replies (P : Platform) (t : Terminfo) (w : World) (T : Terminal α) : Pos2d → List (List Byte) → Prop
  | window {report : List Byte} {rows cols : UInt16} {winsizes : List (Option (UInt16 × UInt16))}
    (hreport : Locates P t report ⟨T.row, T.col⟩) (hsize : w.winsizes = some (rows, cols) :: winsizes) :
    Replies P t w T ⟨rows.toNat, cols.toNat⟩ [report]
  | corner {report again corner : List Byte} (hreport : Locates P t report ⟨T.row, T.col⟩)
    (hnone : w.winsize.1 = none) (hrows : T.rows ≤ 10000) (hcols : T.cols ≤ 10000)
    (hagain : Locates P t again ⟨T.row, T.col⟩)
    (hcorner : Locates P t corner ⟨(T.address 9999 9999).row, (T.address 9999 9999).col⟩) :
    Replies P t w T ⟨T.rows, T.cols⟩ [report, again, corner]

/-- The queries leave the screen as it is, and the books know where its cursor is and how large it
is. -/
theorem nrlRenderInit_replied (hE : E.Understands P t) {mode : EchoMode} (hmode : mode ≠ .off)
    (hsmart : nrlTermIsSmart t = true)
    (huser7 : nrlLookupSpecial t TerminfoSpecial.user7.id = some request) (hrequest : E.Conveys request id)
    {T : Terminal α} (hwrap : T.wrap = false) {s : Screen} (h : s.io.Idle) {size : Pos2d}
    {replies : List (List Byte)} (hreplies : Replies P t s.io.world T size replies)
    (hreads : s.io.world.reads = replies.map .data ++ reads) (echoFile : Int) :
    ∃ s' sent, nrlRenderInit P t mode echoFile s = .ok (true, s') ∧
      s'.render.cursorPos = ⟨T.row, T.col⟩ ∧ s'.render.termSize = size ∧ s.io.Asks sent s'.io ∧
      s'.io.world.reads = reads ∧
      ∀ state, E.Displays state T → E.Displays (sent.foldl E.feed state) T := by
  obtain ⟨render, -, -, hinit⟩ := nrlRenderInit_smart (P := P) hmode hsmart echoFile s
  cases hreplies with
  | window hreport hsize =>
    obtain ⟨io₁, hquery, hasks, hreads₁, hwinsizes⟩ := queryCursor_asks huser7 hreport h hreads
    have hidle := hasks.idle h
    rw [hquery, Run.ok_bind] at hinit
    dsimp only at hinit
    rw [querySize_replied (hwinsizes.trans hsize)] at hinit
    refine ⟨_, request, hinit, rfl, rfl, ⟨?_, hasks.echoed, ?_⟩, hreads₁, fun state => hrequest state T⟩
    · obtain ⟨wrBuf, errno, writes, echoed, reads', _, rfl⟩ := hasks.same
      exact ⟨wrBuf, errno, writes, echoed, reads', _, rfl⟩
    · exact ⟨hidle.obliging.calls, hidle.obliging.writes, hidle.obliging.errno⟩
  | corner hreport hnone hrows hcols hagain hcorner =>
    obtain ⟨io₁, hquery, hasks, hreads₁, hwinsizes⟩ := queryCursor_asks huser7 hreport h hreads
    have hnone₁ : io₁.world.winsize.1 = none := (World.winsize_congr hwinsizes).trans hnone
    obtain ⟨s', sent, hsize, hrender, hasks', hreads', hshown⟩ := querySize_corner hE huser7 hrequest hrows
      hcols hwrap hagain hcorner
      (s := { render := { render with cursorPos := ⟨T.row, T.col⟩ }, io := io₁ })
      (hasks.idle h) hnone₁ hreads₁ render.termSize
    rw [hquery, Run.ok_bind] at hinit
    dsimp only at hinit
    rw [hsize] at hinit
    refine ⟨_, request ++ sent, hinit, ?_, rfl, hasks.trans hasks', hreads', fun state hdisplays => ?_⟩
    · dsimp only
      rw [hrender]
    · rw [List.foldl_append]
      exact hshown _ (hrequest _ _ hdisplays)

/-- Replies do not depend on what else has happened. -/
theorem Replies.congr {w w' : World} {T : Terminal α} {size : Pos2d} {replies : List (List Byte)}
    (h : Replies P t w T size replies) (hsame : w'.winsizes = w.winsizes) : Replies P t w' T size replies := by
  cases h with
  | window hreport hsize => exact .window hreport (hsame.trans hsize)
  | corner hreport hnone hrows hcols hagain hcorner =>
    exact .corner hreport ((World.winsize_congr hsame).trans hnone) hrows hcols hagain hcorner

/-- **A screen of unknown size.** Where the system does not answer the size request, the reports of
a terminal of at most 10000 rows and columns give its true size and the true place of its cursor,
and leave it as it was. -/
theorem nrlRenderInit_unsized (hE : E.Understands P t) {mode : EchoMode} (hmode : mode ≠ .off)
    (hsmart : nrlTermIsSmart t = true)
    (huser7 : nrlLookupSpecial t TerminfoSpecial.user7.id = some request) (hrequest : E.Conveys request id)
    {T : Terminal α} (hwrap : T.wrap = false) (hrows : T.rows ≤ 10000) (hcols : T.cols ≤ 10000)
    {again corner : List Byte} (hreport : Locates P t report ⟨T.row, T.col⟩)
    (hagain : Locates P t again ⟨T.row, T.col⟩)
    (hcorner : Locates P t corner ⟨(T.address 9999 9999).row, (T.address 9999 9999).col⟩) {s : Screen}
    (h : s.io.Idle) (hnone : s.io.world.winsize.1 = none)
    (hreads : s.io.world.reads = [report, again, corner].map .data ++ reads) {state : E.State}
    (hdisplays : E.Displays (s.io.world.echoed.foldl E.feed state) T) (echoFile : Int) :
    ∃ s', nrlRenderInit P t mode echoFile s = .ok (true, s') ∧ s'.render.termSize = ⟨T.rows, T.cols⟩ ∧
      s'.render.cursorPos = ⟨T.row, T.col⟩ ∧ s'.io.world.reads = reads ∧ s'.io.wrCount = 0 ∧
      E.Displays (s'.io.world.echoed.foldl E.feed state) T := by
  obtain ⟨s', sent, hinit, hcursor, hsize, hasks, hreads', hshown⟩ := nrlRenderInit_replied hE hmode hsmart
    huser7 hrequest hwrap h (.corner hreport hnone hrows hcols hagain hcorner) hreads echoFile
  refine ⟨s', hinit, hsize, hcursor, hreads', (hasks.idle h).wrCount, ?_⟩
  rw [hasks.echoed, List.foldl_append]
  exact hshown _ hdisplays

end Asked

/-- A terminal shows nothing of the query of an xterm. -/
theorem xtermRequest_conveys : ansiEmulator.Conveys (ascii "\x1b[6n") id := by
  have hid : ansiControl [54] 110 = id := funext fun _ => if_neg (by decide)
  have hcommand : ansiCommand (ascii "\x1b[6n") = some id := hid ▸ rfl
  refine ansiCommand_conveys hcommand (fun _ => ⟨rfl, rfl, rfl⟩) fun n hn => ?_
  change n < 4 at hn
  obtain rfl | rfl | rfl | rfl : n = 0 ∨ n = 1 ∨ n = 2 ∨ n = 3 := by omega
  all_goals rfl

/-- The second row of an xterm whose size the system does not know. -/
def unsizedScreen : Screen := { xtermScreen with
  io := { xtermScreen.io with world := { xtermScreen.io.world with
    reads := [ascii "\x1b[2;1R", ascii "\x1b[2;1R", ascii "\x1b[24;80R"].map .data ++ [.data [97]]
    winsizes := [none] } } }

theorem nrlRenderInit_unsized_xterm : ∃ s',
    nrlRenderInit referencePlatform xtermTerminfo .on 1 unsizedScreen = .ok (true, s') ∧
      s'.render.termSize = ⟨24, 80⟩ ∧ s'.render.cursorPos = ⟨1, 0⟩ ∧ s'.io.world.reads = [.data [97]] ∧
      s'.io.wrCount = 0 ∧
      ansiEmulator.Displays (s'.io.world.echoed.foldl ansiEmulator.feed xtermDisplay) xtermDisplay.screen := by
  have hbegin : Locates referencePlatform xtermTerminfo (ascii "\x1b[2;1R") ⟨1, 0⟩ :=
    ⟨⟨_, _, xterm_user6, rfl, rfl, by decide +kernel⟩, by decide⟩
  have hcorner : Locates referencePlatform xtermTerminfo (ascii "\x1b[24;80R") ⟨23, 79⟩ :=
    ⟨⟨_, _, xterm_user6, rfl, rfl, by decide +kernel⟩, by decide⟩
  exact nrlRenderInit_unsized ansiEmulator_understands (by decide) (by decide) xterm_user7 xtermRequest_conveys
    (T := xtermDisplay.screen) rfl (by decide) (by decide) hbegin hbegin hcorner
    ⟨by decide, by decide, rfl, rfl, ⟨fun _ h => absurd h List.not_mem_nil, fun _ h => absurd h List.not_mem_nil,
      by decide⟩⟩ rfl rfl ⟨rfl, rfl⟩ 1

end Nanorl
