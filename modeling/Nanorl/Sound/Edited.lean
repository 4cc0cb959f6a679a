import Nanorl.Sound.Characters
import Nanorl.Sound.DfaShared
import Nanorl.Sound.Lines
import Nanorl.Sound.Opening
import Nanorl.Sound.Typing

/-!
# Nanorl.Sound.Edited

Lines that are edited without an echo.

A screen that echoes nothing hosts the loop whatever is typed (`silent_hosts`). So a call of
`nanorl` returns what `typedLine` makes of the keystrokes, sends its two ends and nothing in
between, and leaves the input behind the line to the next call (`nanorl_edited`).
-/

namespace Nanorl

/-! ### The loop without an echo -/

/-- Nothing is echoed of what is typed: what the file has received is `echoed`, and no call but a
read fails. -/
structure Quiet (t : Terminfo) (echoed : List Byte) (e : Editor) : Prop where
  silent : Silent e.screen
  termSmart : e.screen.render.termSmart = nrlTermIsSmart t
  steady : e.screen.io.world.Steady
  echoed : e.screen.io.world.echoed = echoed

section Silent

variable {P : Platform} {t : Terminfo} {e : Editor} {echoed : List Byte}

theorem Quiet.of_reads (h : Quiet t echoed e) {io : Io} (hfrom : e.screen.io.ReadsFrom io) :
    Quiet t echoed { e with screen := { e.screen with io } } :=
  ⟨h.silent.of_reads hfrom, h.termSmart, hfrom.world.steady h.steady, hfrom.world.echoed.trans h.echoed⟩

/-- The line and the flag of the resize are all that changes. -/
theorem Quiet.of_line (h : Quiet t echoed e) (line : LineData) (resizeFlag : Bool) :
    Quiet t echoed { line, screen := { e.screen with render := { e.screen.render with resizeFlag } } } :=
  ⟨⟨h.silent.echoMode, h.silent.echoFile, h.silent.wrCount⟩, h.termSmart, h.steady, h.echoed⟩

theorem nrlRenderSyncCursors_off (h : Silent e.screen) : nrlRenderSyncCursors P t e =
    P.assert .termSmart e.screen.render.termSmart >>= fun _ => .ok e := by
  rw [nrlRenderSyncCursors, moveByMode, h.echoMode]
  dsimp only
  rw [Run.ok_bind, Screen.flush, nrlIoFlush, P.assert_of _ (decide_eq_true h.echoFile), Run.ok_bind,
    if_pos h.wrCount]
  rfl

theorem nrlRenderSyncCursors_silent (h : Silent e.screen) (hsmart : e.screen.render.termSmart = true) :
    nrlRenderSyncCursors P t e = .ok e := by
  rw [nrlRenderSyncCursors_off h, P.assert_of _ hsmart]
  rfl

/-- A key moves the cursor in the line and nothing on the screen. -/
theorem nrlManipEvalEscape_silent (h : Silent e.screen) (hsmart : e.screen.render.termSmart = true)
    (key : TerminfoInput) :
    ∃ line, nrlManipEvalEscape P t key.id e = .ok { e with line } := by
  have hsync : ∀ cursor, nrlRenderSyncCursors P t { e with line := { e.line with cursor } } =
      .ok { e with line := { e.line with cursor } } := fun cursor =>
    nrlRenderSyncCursors_silent (e := { e with line := { e.line with cursor } }) h hsmart
  have hleft : ∃ line, escapeLeft P t e = .ok { e with line } := by
    unfold escapeLeft
    split
    · exact ⟨_, hsync _⟩
    · exact ⟨e.line, rfl⟩
  have hdelete : ∀ line, ∃ line', escapeDelete P { e with line } = .ok { e with line := line' } := by
    intro line
    rw [escapeDelete_eq]
    split <;> exact ⟨_, rfl⟩
  have hright : ∃ line, escapeRight P t e = .ok { e with line } := by
    unfold escapeRight
    split
    · exact ⟨_, hsync _⟩
    · exact ⟨e.line, rfl⟩
  have hbackspace : ∃ line, escapeBackspace P t e = .ok { e with line } := by
    unfold escapeBackspace
    split
    · obtain ⟨line, hleft⟩ := hleft
      rw [hleft]
      exact hdelete line
    · exact ⟨e.line, rfl⟩
  rw [nrlManipEvalEscape_key]
  cases key with
  | keyLeft => exact hleft
  | keyRight => exact hright
  | keyBackspace => exact hbackspace
  | keyDelete => exact hdelete e.line
  | keyHome => exact ⟨_, hsync _⟩
  | keyEnd => exact ⟨_, hsync _⟩

/-- **Without an echo** any line will do, and keys need a smart terminal. -/
theorem silent_hosts (P : Platform) (t : Terminfo) (ignoreDefault : Bool) (Room : Zipper Uchar → Prop)
    (echoed : List Byte) :
    Hosts P t nrlManipClearCustomTable ignoreDefault (unhandledKey t ignoreDefault)
      (nrlTermIsSmart t = true) Room (Quiet t echoed) where
  read := fun h hfrom => h.of_reads hfrom
  perform := by
    intro e z op hkeys hI hz _ _
    cases op with
    | insert text =>
      exact ⟨_, nrlManipInsertText_eq P text hz.cursor_le, hI.of_line _ _, .refl _⟩
    | escape key =>
      obtain ⟨line, hkey⟩ := nrlManipEvalEscape_silent (P := P) (t := t) hI.silent
        (hI.termSmart.trans hkeys) key
      exact ⟨_, hkey, hI.of_line _ _, .refl _⟩
    | redraw => exact ⟨_, nrlRenderRedraw_silent t hI.silent, hI.of_line _ _, .refl _⟩
    | sync =>
      exact ⟨e, nrlRenderSyncCursors_silent hI.silent (hI.termSmart.trans hkeys), hI, .refl _⟩
  handled := by
    intro e z id handler htable
    cases htable
  unhandled := fun _ _ => rfl

end Silent

/-! ### What is in the line -/

section Graphic

variable {P : Platform} {t : Terminfo} {keys : List DfaEntry} {ignoreDefault : Bool}

/-- A keystroke brings no control character into the line. -/
theorem lineEvent_graphic {k : Keystroke} (hk : k.Typable P keys) {z : Zipper Uchar}
    (hz : ∀ c ∈ z.toList, Graphic c) :
    ∀ c ∈ (lineEvent (unhandledKey t ignoreDefault) z k.event).toList, Graphic c := by
  have hinsert : ∀ {text : List Uchar}, (∀ c ∈ text, Graphic c) →
      ∀ c ∈ (z.insert text).toList, Graphic c :=
    fun {text} htext => @zipperOp_chars Graphic (.insert text) htext z hz
  cases k with
  | char c => exact hinsert (List.forall_mem_singleton.mpr hk.1)
  | control b => exact hinsert (caretForm_graphic _)
  | stray b => exact hinsert (List.forall_mem_singleton.mpr ⟨by decide, by decide⟩)
  | key entry =>
    change ∀ c ∈ (lineEvent _ z (keyEvent entry.custom entry.accept)).toList, _
    unfold keyEvent
    cases entry.custom with
    | false =>
      change ∀ c ∈ (((inputKey entry.accept.bits).map (zipperKey z)).getD z).toList, _
      cases inputKey entry.accept.bits with
      | none => exact hz
      | some key =>
        exact @zipperOp_chars Graphic (.escape key) (fun _ h => absurd h List.not_mem_nil) z hz
    | true =>
      change ∀ c ∈ (unhandledKey t ignoreDefault entry.accept.bits z).toList, _
      unfold unhandledKey
      split
      · exact hz
      · refine hinsert fun c hc => ?_
        obtain ⟨b, -, hb⟩ := List.mem_flatMap.mp hc
        exact caretForm_graphic _ c (spelling_eq b ▸ hb)

/-- The run. -/
theorem typedLine_graphic {typed : List Keystroke} (htyped : ∀ k ∈ typed, k.Typable P keys)
    {z : Zipper Uchar} (hz : ∀ c ∈ z.toList, Graphic c) :
    ∀ c ∈ (typedLine (unhandledKey t ignoreDefault) typed z).toList, Graphic c := by
  induction typed generalizing z with
  | nil => exact hz
  | cons k typed ih =>
    rw [List.forall_mem_cons] at htyped
    exact ih htyped.2 (lineEvent_graphic htyped.1 hz)

end Graphic

/-- What `nanorl` is to return of a line: nothing if the input ends before it has a character. -/
def typedResult (P : Platform) (eof interrupt : Bool) (line : List Uchar) : NanorlResult :=
  if eof && line.length = 0 then { data := none, error := .eof }
  else { data := some (P.utf8Encode line), error := if interrupt then .interrupt else .ok }

theorem finishLine_typed (P : Platform) (eof : Bool) {line : LineData} (hzero : (0 : Uchar) ∉ line.buffer)
    {errno : Errno} {interrupt : Bool} (herrno : errno = .eintr ↔ interrupt = true) :
    finishLine P eof line errno = typedResult P eof interrupt line.buffer := by
  rw [finishLine, typedResult, cstr_append hzero]
  simp only [herrno]

/-! ### Call after call -/

/-- The process has loaded, or will load, the description `t` and builds the tree of `keys`;
or there is no description. -/
inductive Process.Knows (env : Environment) (p : Process) : Terminfo → List DfaEntry → Prop
  | found {t : Terminfo} {envTerm : List Byte} (hload : nrlLoadTerminfo env p.terminfo = .ok (true, t))
      (henv : env.term = some envTerm) (ht : t.Loadable) (hu : t.Unambiguous envTerm)
      (hroot : p.root = dfaRoot ∨ nrlDfaBuild t envTerm dfaRoot = .ok p.root) :
      p.Knows env t (dfaEntries t envTerm)
  | missing {t : Terminfo} (hload : nrlLoadTerminfo env p.terminfo = .ok (false, t))
      (hroot : p.root = dfaRoot) : p.Knows env t []

theorem Process.Knows.of_same {env : Environment} {p p' : Process} {t : Terminfo} {keys : List DfaEntry}
    (h : p.Knows env t keys) (hterminfo : p'.terminfo = p.terminfo) (hroot : p'.root = p.root) :
    p'.Knows env t keys := by
  cases h with
  | found hload henv ht hu hroot' =>
    rw [← hterminfo] at hload
    rw [← hroot] at hroot'
    exact .found hload henv ht hu hroot'
  | missing hload hroot' =>
    rw [← hterminfo] at hload
    rw [← hroot] at hroot'
    exact .missing hload hroot'

/-- What is known is loaded, once. -/
theorem loadDfa_knows {env : Environment} {p : Process} {t : Terminfo} {keys : List DfaEntry}
    (hfresh : p.terminfo.attemptedLoad = false → p.terminfo.loadResult = false) (h : p.Knows env t keys) :
    ∃ root, loadDfa env p = .ok { p with terminfo := t, root } ∧ HasKeys t keys root ∧
      t.attemptedLoad = true ∧ ∀ p' : Process, p'.terminfo = t → p'.root = root → p'.Knows env t keys := by
  cases h with
  | @found envTerm hload henv ht hu hroot =>
    obtain ⟨hattempted, hagain⟩ := nrlLoadTerminfo_again hfresh hload
    obtain ⟨root, hfirst, hbuild⟩ : ∃ root, nrlDfaBuild t envTerm dfaRoot = .ok root ∧
        nrlDfaBuild t envTerm p.root = .ok root := by
      rcases hroot with hroot | hroot
      · obtain ⟨root, hbuild⟩ := (nrlDfaBuild_ok_iff ht envTerm).mpr hu.prefixFree
        exact ⟨root, hbuild, hroot ▸ hbuild⟩
      · exact ⟨p.root, hroot, nrlDfaBuild_self ht hroot⟩
    refine ⟨root, ?_, hasKeys_build ht hu hfirst, hattempted, fun p' hterminfo hroot' => ?_⟩
    · rw [loadDfa, hload, Run.ok_bind]
      dsimp only
      rw [if_pos rfl, henv]
      dsimp only
      rw [hbuild]
      rfl
    · rw [← hroot'] at hfirst
      refine .found ?_ henv ht hu (.inr hfirst)
      rw [hterminfo]
      exact hagain
  | missing hload hroot =>
    obtain ⟨hattempted, hagain⟩ := nrlLoadTerminfo_again hfresh hload
    refine ⟨p.root, ?_, hroot ▸ hasKeys_none t, hattempted, fun p' hterminfo hroot' => ?_⟩
    · rw [loadDfa, hload, Run.ok_bind]
      rfl
    · refine .missing ?_ (hroot'.trans hroot)
      rw [hterminfo]
      exact hagain

/-- Between two calls of a process that has no handlers, and that no system call fails but reads. -/
structure Process.Idle (env : Environment) (t : Terminfo) (keys : List DfaEntry) (p : Process) : Prop where
  steady : p.world.Steady
  fresh : p.terminfo.attemptedLoad = false → p.terminfo.loadResult = false
  knows : p.Knows env t keys
  table : p.escapeTable = nrlManipClearCustomTable

theorem Process.Idle.started {env : Environment} {t : Terminfo} {keys : List DfaEntry} {p : Process}
    (h : p.Idle env t keys) : p.started.world.Obliging := ⟨h.steady.calls, h.steady.writes, nofun⟩

/-- `p₁` is what `init` has made of `p` when it comes to the screen. -/
structure Process.Opened (env : Environment) (config : Config) (mode : EchoMode) (t : Terminfo)
    (keys : List DfaEntry) (p p₁ : Process) : Prop where
  terminfo : p₁.terminfo = t
  hasKeys : HasKeys t keys p₁.root
  attempted : t.attemptedLoad = true
  knows : ∀ p' : Process, p'.terminfo = t → p'.root = p₁.root → p'.Knows env t keys
  table : p₁.escapeTable = openedTable config mode nrlManipClearCustomTable
  io : p₁.screen.io.Opened config
  echoEnabled : p₁.screen.io.echoEnabled = decide (mode ≠ .off)
  obliging : p₁.world.Obliging
  reads : p₁.world.reads = p.world.reads
  winsizes : p₁.world.winsizes = p.world.winsizes
  echoed : p₁.world.echoed = p.world.echoed ++ openingBytes config t
  render : p₁.screen.render = p.screen.render

section Calls

variable {P : Platform} {env : Environment} {config : Config} {mode : EchoMode} {t : Terminfo}
  {keys : List DfaEntry} {p p₁ : Process}

theorem init_idle (hecho : 0 ≤ config.echoFile) (mode : EchoMode) (hbrief : Brief config t)
    (hp : p.Idle env t keys) : ∃ p₁, p.Opened env config mode t keys p₁ ∧
      init P env config mode p.started = (do
        let (ready, screen) ← nrlRenderInit P t mode config.echoFile p₁.screen
        return (ready, { p₁ with screen })) := by
  obtain ⟨root, hload, hkeys, hattempted, hagain⟩ :=
    loadDfa_knows (p := p.started) hp.fresh (hp.knows.of_same rfl rfl)
  obtain ⟨p₂, hcalls, hobliging, hinit⟩ := @init_called P env config mode _ _ hload hp.started
  have hterminfo : p₂.terminfo = t := hcalls.terminfo
  subst hterminfo
  obtain ⟨errno, calls, attrs, actions, hscreen⟩ := hcalls.screen
  obtain ⟨io, houtput, hopened, henabled, writes, hworld, hcomplete⟩ :=
    initOutput_sends P hecho mode hbrief hobliging.writes
  have hworld₂ : p₂.world = { p.started.world with errno, calls, attrs, actions } := by
    rw [Process.world, hscreen]
    rfl
  rw [hworld₂] at hworld hobliging
  have htable : p₂.escapeTable = nrlManipClearCustomTable := hcalls.escapeTable.trans hp.table
  rw [houtput, Run.ok_bind] at hinit
  dsimp only at hinit
  rw [if_neg (by decide), htable] at hinit
  refine ⟨{ p₂ with
    escapeTable := openedTable config mode nrlManipClearCustomTable
    screen := { p₂.screen with io } },
    ⟨rfl, ?_, hattempted, ?_, rfl, hopened, henabled, ⟨?_, hcomplete, ?_⟩, ?_, ?_, ?_, ?_⟩, hinit⟩
  · rw [show _ = p₂.root from rfl, hcalls.root]
    exact hkeys
  · exact fun p' hterminfo' hroot => hagain p' hterminfo' (hroot.trans hcalls.root)
  · show ∀ r ∈ io.world.calls, r = .done
    rw [hworld]
    exact hobliging.calls
  · show io.world.errno ≠ .eintr
    rw [hworld]
    exact hobliging.errno
  · show io.world.reads = _
    rw [hworld]
    rfl
  · show io.world.winsizes = _
    rw [hworld]
    rfl
  · show io.world.echoed = _
    rw [hworld]
    rfl
  · show p₂.screen.render = _
    rw [hscreen]
    rfl

/-- `init` for input without an echo: the loop starts on a quiet screen. -/
theorem init_quiet (hconfig : config.Silent) (hbrief : Brief config t) (hp : p.Idle env t keys) :
    ∃ p₁ s, p.Opened env config .off t keys p₁ ∧
      init P env config .off p.started = .ok (true, { p₁ with screen := s }) ∧
      s.io = p₁.screen.io ∧
      Quiet t (p.world.echoed ++ openingBytes config t) { line := emptyLine, screen := s } := by
  have hecho := hconfig.echoFile
  obtain ⟨p₁, hopened, hinit⟩ := init_idle (P := P) hecho .off hbrief hp
  rw [nrlRenderInit] at hinit
  dsimp only at hinit
  rw [if_neg (by simp)] at hinit
  refine ⟨p₁, _, hopened, hinit, rfl, ⟨rfl, ?_, hopened.io.wrCount⟩, rfl, hopened.obliging.steady,
    hopened.echoed⟩
  show p₁.screen.io.echoFile ≠ -1
  rw [hopened.io.echoFile]
  omega

/-- The end of a call whose loop has come to its end. -/
theorem Process.Opened.ends (h : p.Opened env config mode t keys p₁) (hargs : checkArgs config = some mode)
    (hbrief : Brief config t) {s : Screen}
    (hinit : init P env config mode p.started = .ok (true, { p₁ with screen := s }))
    {fuel : Nat} {buffer : InputBuf} {e : Editor}
    (hloop : readLoop P t p₁.root p₁.escapeTable config.customIgnoreDefault fuel freshBuffer
      { line := emptyLine, screen := s } = .ok (buffer, e))
    {interrupt : Bool} (herrno : e.screen.io.world.errno = .eintr ↔ interrupt = true)
    (hsteady : e.screen.io.world.Steady) (hecho : e.screen.io.echoFile ≠ -1) (hflushed : e.screen.io.wrCount = 0)
    (hzero : (0 : Uchar) ∉ e.line.buffer) :
    ∃ p', nanorl P fuel env config p =
        .ok (typedResult P buffer.eof (p.world.isTty && interrupt) e.line.buffer, p') ∧
      p'.Idle env t keys ∧ p'.terminfo = t ∧ p'.world.isTty = p.world.isTty ∧
      p'.world.reads = e.screen.io.world.reads ∧
      p'.world.echoed = e.screen.io.world.echoed ++ closingBytes t := by
  have hterminfo := h.terminfo
  subst hterminfo
  have hsession : Session P fuel env config p mode { p₁ with screen := s } buffer e := ⟨hargs, hinit, hloop⟩
  have htty := hsession.isTty
  obtain ⟨p', hdeinit, hechoed, hreads, htty', hsteady', hterminfo', hroot, htable⟩ :=
    deinit_sends P mode (p := { p₁ with screen := e.screen }) hsteady (hbrief.keypad false) hecho hflushed
  refine ⟨p', ?_, ⟨hsteady', ?_, h.knows p' hterminfo' hroot, htable⟩, hterminfo', htty'.trans htty, hreads,
    hechoed⟩
  · have herrno' : p'.world.errno = .eintr ↔ (p.world.isTty && interrupt) = true := by
      rw [deinit_errno hdeinit, show Process.world { p₁ with screen := e.screen } = e.screen.io.world from rfl, htty]
      cases p.world.isTty with
      | true => rw [if_pos rfl, herrno, Bool.true_and]
      | false => exact iff_of_false nofun nofun
    rw [hsession.nanorl_eq]
    dsimp only
    rw [hdeinit, Run.ok_bind]
    dsimp only
    rw [if_neg (by decide), finishLine_typed P _ hzero herrno']
  · intro hnever
    rw [hterminfo', h.attempted] at hnever
    cases hnever

end Calls

/-- The reader of a call, before bytes that are cut into its preload and its first reads. -/
theorem Io.Opened.cut {config : Config} {io : Io} (h : io.Opened config) (hread : 0 ≤ config.readFile)
    {reads rest : List ReadResult} {bytes : List Byte}
    (hcut : config.preload.getD [] ++ deliveredAll reads = bytes) (hreads : io.world.reads = reads ++ rest) :
    Ready (bytes ++ₛ readsStream rest) io ∧
      io.AtHand ⟨rest, errnoAfter reads io.world.errno⟩ bytes.length := by
  have hstream : io.source.stream = bytes ++ₛ readsStream rest := by
    rw [Io.source, h.preloadData, hreads, Source.stream, readsStream_delivered,
      ← Stream'.append_append_stream, hcut]
  have hlength : (io.preloadData.getD []).length + (deliveredAll reads).length = bytes.length := by
    rw [h.preloadData, ← hcut, List.length_append]
  refine ⟨?_, _, ⟨reads, hreads, rfl, hlength⟩, by rw [h.rdCount, h.rdUsed]⟩
  rw [← hstream]
  exact ready_of_reset (by rw [h.readFile]; omega) h.rdCount h.rdUsed h.rdPending

/-- A call with the line that somebody types at it: how the bytes arrive, and what ends the line. A
read that is the end of the input, or that fails, is an EOT. -/
structure TypedCall where
  fuel : Nat
  config : Config
  typed : List Keystroke
  ending : Byte
  reads : List ReadResult

namespace TypedCall

variable (P : Platform) (t : Terminfo)

/-- The line. -/
def line (c : TypedCall) : Zipper Uchar :=
  typedLine (unhandledKey t c.config.customIgnoreDefault) c.typed .empty

/-- What the call is to return. An interrupted read is told from others on a terminal. -/
def result (tty : Bool) (c : TypedCall) : NanorlResult :=
  typedResult P (decide (c.ending = charEot)) (tty && interrupted c.reads) (c.line t).toList

/-- What it is to send. -/
def sent (c : TypedCall) : List Byte := openingBytes c.config t ++ closingBytes t

def perform (env : Environment) (c : TypedCall) (p : Process) : Except Fault (NanorlResult × Process) :=
  nanorl P c.fuel env c.config p

/-- The line is typed on a terminal with these keys, and comes in reads of its own. -/
structure Arrives (keys : List DfaEntry) (c : TypedCall) : Prop where
  brief : Brief c.config t
  typable : ∀ k ∈ c.typed, k.Typable P keys
  ending : c.ending = 10 ∨ c.ending = charEot
  unclaimed : ∀ entry ∈ keys, entry.sequence.head? ≠ some c.ending
  cut : c.config.preload.getD [] ++ deliveredAll c.reads = typedBytes c.typed ++ [c.ending]
  fuel : c.typed.length < c.fuel

variable {P t} in
/-- The reader of the call, before its line. -/
theorem Arrives.opened {keys : List DfaEntry} {c : TypedCall} (h : c.Arrives P t keys) {io : Io}
    (hio : io.Opened c.config) (hread : 0 ≤ c.config.readFile) {rest : List ReadResult}
    (hreads : io.world.reads = c.reads ++ rest) :
    Ready (typedBytes c.typed ++ₛ Stream'.cons c.ending (readsStream rest)) io ∧
      io.AtHand ⟨rest, errnoAfter c.reads io.world.errno⟩ ((typedBytes c.typed).length + 1) := by
  obtain ⟨hready, hhand⟩ := hio.cut hread h.cut hreads
  rw [Stream'.append_append_stream] at hready
  rw [List.length_append] at hhand
  exact ⟨hready, hhand⟩

/-- It is typed without an echo, and `line_data` counts its characters in 32 bits. -/
structure Comes (keys : List DfaEntry) (c : TypedCall) : Prop extends c.Arrives P t keys where
  silent : c.config.Silent
  smart : ∀ k ∈ c.typed, ∀ id, k.event = .escape id → nrlTermIsSmart t = true
  room : HasRoom (unhandledKey t c.config.customIgnoreDefault) (fun z => z.toList.length < 2 ^ 32) c.typed .empty

end TypedCall

section Edited

variable {P : Platform} {env : Environment} {t : Terminfo} {keys : List DfaEntry} {p : Process}

/-- **One call.** -/
theorem TypedCall.perform_comes (hlaw : P.ConsumesAnnounced) (hutf8 : P.Utf8Laws) {c : TypedCall}
    (hc : c.Comes P t keys) (hp : p.Idle env t keys) {rest : List ReadResult}
    (hreads : p.world.reads = c.reads ++ rest) :
    ∃ p', c.perform P env p = .ok (c.result P t p.world.isTty, p') ∧ p'.Idle env t keys ∧ p'.terminfo = t ∧
      p'.world.isTty = p.world.isTty ∧ p'.world.reads = rest ∧
      p'.world.echoed = p.world.echoed ++ c.sent t := by
  obtain ⟨p₁, s, hopens, hinit, hio, hquiet⟩ := init_quiet hc.silent hc.brief hp
  obtain ⟨hready, hhand⟩ := hc.opened (hio ▸ hopens.io) hc.silent.readFile
    (by rw [hio]; exact hopens.reads.trans hreads)
  have hempty : LineData.Shows emptyLine .empty := ⟨rfl, rfl⟩
  have hosts := silent_hosts P t c.config.customIgnoreDefault (fun z => z.toList.length < 2 ^ 32)
    (p.world.echoed ++ openingBytes c.config t)
  obtain ⟨buffer, e, hloop, heof, hquiet', hshows, hleft, -⟩ := hosts.line hlaw hutf8 hopens.hasKeys hc.typable
    hc.smart hc.room hc.ending (forall_mem_sequences.mpr hc.unclaimed)
    ⟨hquiet, hempty, hready, fun _ => rfl⟩ hc.fuel freshBuffer
  obtain ⟨hleft, herrno⟩ := hleft _ hhand
  -- what is returned
  have hline : e.line.buffer = (c.line t).toList := hshows.buffer
  have hgraphic : ∀ c ∈ e.line.buffer, Graphic c := by
    rw [hline]
    exact typedLine_graphic hc.typable fun _ h => absurd h List.not_mem_nil
  have hzero : (0 : Uchar) ∉ e.line.buffer := fun h => absurd (hgraphic 0 h).1 (by decide)
  have htable : p₁.escapeTable = nrlManipClearCustomTable := hopens.table
  rw [← htable] at hloop
  have hinterrupted : e.screen.io.world.errno = .eintr ↔ interrupted c.reads = true := by
    rw [herrno, hio]
    exact errnoAfter_eintr hopens.obliging.errno c.reads
  obtain ⟨p', hcall, hidle, hterminfo, htty', hreads', hechoed⟩ := hopens.ends hc.silent.checkArgs hc.brief hinit
    hloop hinterrupted hquiet'.steady hquiet'.silent.echoFile hquiet'.silent.wrCount hzero
  refine ⟨p', ?_, hidle, hterminfo, htty', hreads'.trans hleft, ?_⟩
  · rw [perform, hcall, heof, hline]
    rfl
  · rw [hechoed, hquiet'.echoed, List.append_assoc]
    rfl

/-- Between the calls: the lines that are still to be typed come before `rest`, and with what
their calls send the file will have received `echoed`. -/
structure TypedCall.Ahead (P : Platform) (env : Environment) (t : Terminfo) (keys : List DfaEntry)
    (tty : Bool) (rest : List ReadResult) (echoed : List Byte) (calls : List TypedCall) (p : Process) : Prop where
  comes : ∀ c ∈ calls, c.Comes P t keys
  idle : p.Idle env t keys
  isTty : p.world.isTty = tty
  reads : p.world.reads = calls.flatMap reads ++ rest
  echoed : p.world.echoed ++ calls.flatMap (sent t) = echoed

/-- The step: a call takes its line. -/
theorem TypedCall.Ahead.perform (hlaw : P.ConsumesAnnounced) (hutf8 : P.Utf8Laws) {c : TypedCall}
    {calls : List TypedCall} {tty : Bool} {rest : List ReadResult} {echoed : List Byte}
    (h : Ahead P env t keys tty rest echoed (c :: calls) p) :
    ∃ p', c.perform P env p = .ok (c.result P t tty, p') ∧ Ahead P env t keys tty rest echoed calls p' := by
  have hreads := h.reads
  have hechoed := h.echoed
  rw [List.flatMap_cons, List.append_assoc] at hreads
  obtain ⟨p', hcall, hidle, -, htty, hreads', hechoed'⟩ :=
    TypedCall.perform_comes hlaw hutf8 (h.comes c List.mem_cons_self) h.idle hreads
  rw [h.isTty] at hcall htty
  refine ⟨p', hcall, fun c' hc' => h.comes c' (List.mem_cons_of_mem _ hc'), hidle, htty, hreads', ?_⟩
  rwa [hechoed', List.append_assoc, ← List.flatMap_cons]

/-- **Lines edited without an echo.** Call after call returns the line its keystrokes leave, with
every key doing its edit, however its bytes are cut into a preload and reads, and whether a
newline, an EOT, the end of the input, an interrupt or another failure of `read` ends it. It
sends the keypad sequences, its prompt and a newline, and nothing that depends on what is typed;
and it leaves the reads that come behind the line alone. -/
theorem nanorl_edited (hlaw : P.ConsumesAnnounced) (hutf8 : P.Utf8Laws) {calls : List TypedCall}
    (hcalls : ∀ c ∈ calls, c.Comes P t keys) (hp : p.Idle env t keys) {rest : List ReadResult}
    (hreads : p.world.reads = calls.flatMap TypedCall.reads ++ rest) :
    ∃ p', Run.outcomes (TypedCall.perform P env) calls p =
        .ok (calls.map (TypedCall.result P t p.world.isTty), p') ∧
      p'.world.reads = rest ∧ p'.world.echoed = p.world.echoed ++ calls.flatMap (TypedCall.sent t) := by
  obtain ⟨p', hrun, hahead⟩ := Run.outcomes_progress
    (fun c calls p => TypedCall.Ahead.perform (p := p) hlaw hutf8)
    (TypedCall.Ahead.mk hcalls hp rfl hreads rfl)
  have hechoed := hahead.echoed
  rw [List.flatMap_nil, List.append_nil] at hechoed
  exact ⟨p', hrun, hahead.reads, hechoed⟩

end Edited

/-- A process at a terminal that can load the description of xterm. -/
def terminalProcess (reads : List ReadResult) : Process where
  terminfo := .unloaded
  root := dfaRoot
  screen :=
    { render := staticRender
      io := { staticIo with world := { idleWorld with reads, isTty := true } } }
  escapeTable := nrlManipClearCustomTable
  oldAttrs := idleWorld.attrs
  oldActions := idleWorld.actions

theorem terminalProcess_idle (reads : List ReadResult) :
    (terminalProcess reads).Idle (bareEnvironment (ascii "xterm")) xtermTerminfo xtermKeys :=
  ⟨⟨fun _ hr => absurd hr List.not_mem_nil, fun _ hr => absurd hr List.not_mem_nil⟩, fun _ => rfl,
    .found rfl rfl xtermTerminfo_loadable xtermTerminfo_unambiguous (.inl rfl), rfl⟩

/-- An `é`, the left key and an `a`. The preload and the first read end within a keystroke. -/
def leftCall : TypedCall where
  fuel := 4
  config := { silentConf with preload := some [0xc3] }
  typed := [.char 'é', xtermLeft, .char 'a']
  ending := 10
  reads := [.data [0xa9, 0x1b], .data [0x4f, 0x44, 97, 10]]

/-- An interrupt behind a letter. -/
def interruptedCall : TypedCall where
  fuel := 2
  config := silentConf
  typed := [.char 'b']
  ending := charEot
  reads := [.data [98], .failed .eintr]

/-- The end of the input, behind nothing. -/
def endCall : TypedCall where
  fuel := 1
  config := { silentConf with assumeSmkx := true, prompt := some [62] }
  typed := []
  ending := charEot
  reads := [.data []]

theorem nanorl_edited_xterm : ∃ p', Run.outcomes
      (TypedCall.perform referencePlatform (bareEnvironment (ascii "xterm"))) [leftCall, interruptedCall, endCall]
      (terminalProcess [.data [0xa9, 0x1b], .data [0x4f, 0x44, 97, 10], .data [98], .failed .eintr, .data [],
        .data [99]]) =
        .ok ([{ data := some (utf8 ['a', 'é']), error := .ok }, { data := some [98], error := .interrupt },
          { data := none, error := .eof }], p') ∧
    p'.world.reads = [.data [99]] ∧
    p'.world.echoed = ascii "\x1b[?1h\x1b=\n\x1b[?1l\x1b>\x1b[?1h\x1b=\n\x1b[?1l\x1b>>\n\x1b[?1l\x1b>" := by
  have hleft : leftCall.Comes referencePlatform xtermTerminfo xtermKeys :=
    ⟨⟨by decide +kernel, by decide +kernel, .inl rfl, by decide +kernel, by decide +kernel, by decide⟩,
      ⟨by decide, by decide, rfl⟩, fun _ _ _ _ => by decide, by decide +kernel⟩
  have hinterrupted : interruptedCall.Comes referencePlatform xtermTerminfo xtermKeys :=
    ⟨⟨by decide +kernel, by decide +kernel, .inr rfl, by decide +kernel, by decide +kernel, by decide⟩,
      ⟨by decide, by decide, rfl⟩, fun _ _ _ _ => by decide, by decide +kernel⟩
  have hend : endCall.Comes referencePlatform xtermTerminfo xtermKeys :=
    ⟨⟨by decide +kernel, by decide +kernel, .inr rfl, by decide +kernel, by decide +kernel, by decide⟩,
      ⟨by decide, by decide, rfl⟩, fun _ h => absurd h List.not_mem_nil, by decide +kernel⟩
  have hcalls : ∀ c ∈ [leftCall, interruptedCall, endCall], c.Comes referencePlatform xtermTerminfo xtermKeys :=
    List.forall_mem_cons.mpr ⟨hleft, List.forall_mem_cons.mpr ⟨hinterrupted, List.forall_mem_cons.mpr
      ⟨hend, fun _ h => absurd h List.not_mem_nil⟩⟩⟩
  have hidle := terminalProcess_idle ([leftCall, interruptedCall, endCall].flatMap TypedCall.reads ++ [.data [99]])
  obtain ⟨p', hrun, hreads, hechoed⟩ :=
    nanorl_edited referencePlatform_consumes referencePlatform_utf8 hcalls hidle rfl
  have hresults : [leftCall, interruptedCall, endCall].map (TypedCall.result referencePlatform xtermTerminfo true) =
      [{ data := some (utf8 ['a', 'é']), error := .ok }, { data := some [98], error := .interrupt },
        { data := none, error := .eof }] := by
    decide +kernel
  have hsent : [leftCall, interruptedCall, endCall].flatMap (TypedCall.sent xtermTerminfo) =
      ascii "\x1b[?1h\x1b=\n\x1b[?1l\x1b>\x1b[?1h\x1b=\n\x1b[?1l\x1b>>\n\x1b[?1l\x1b>" := by
    decide +kernel
  rw [show (terminalProcess _).world.isTty = true from rfl, hresults] at hrun
  rw [hsent] at hechoed
  exact ⟨p', hrun, hreads, hechoed⟩

end Nanorl
