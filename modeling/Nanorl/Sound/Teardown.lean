import Nanorl.Sound.Alike
import Nanorl.Sound.Frame
import Nanorl.Sound.Lines

/-!
# Nanorl.Sound.Teardown

What a call of `nanorl` has changed when it returns.

Setting up and tearing down are two chains of terminal and signal calls, and each stops
at the first call that fails. So the outcomes of these calls say what has been
installed and what has been given back (`served`), and the steps in between, which use
none of them, keep it (`SameTerminal`). An `init` that gives up leaves what it has
installed, and a `deinit` that gives up leaves what comes behind the failed call and
does not wipe (`nanorl_asFound_iff`).
-/

namespace Nanorl

open Run (Ends Same)

/-! ### Terminal and signal calls -/

/-- How many of the next `count` calls succeed before one fails. -/
def served : List SysResult → Nat → Nat
  | _, 0 => 0
  | .failed _ :: _, _ + 1 => 0
  | calls, count + 1 => served calls.tail count + 1

theorem served_succ (calls : List SysResult) (count : Nat) :
    served calls (count + 1) = if served calls 1 = 1 then served calls.tail count + 1 else 0 := by
  rcases calls with _ | ⟨_ | e, calls⟩ <;> simp [served]

theorem World.call_served (w : World) :
    (served w.calls 1 = 1 ∧ w.call = (true, { w with calls := w.calls.tail })) ∨
      (served w.calls 1 = 0 ∧ ∃ errno, w.call = (false, { w with errno, calls := w.calls.tail })) := by
  obtain ⟨errno, reads, writes, echoed, stray, isTty, calls, winsizes, attrs, actions⟩ := w
  rcases calls with _ | ⟨_ | e, calls⟩
  · exact .inl ⟨rfl, rfl⟩
  · exact .inl ⟨rfl, rfl⟩
  · exact .inr ⟨rfl, e, rfl⟩

/-- `p'` is `p` after terminal and signal calls. -/
structure Process.Calls (p p' : Process) : Prop where
  terminfo : p'.terminfo = p.terminfo
  root : p'.root = p.root
  escapeTable : p'.escapeTable = p.escapeTable
  screen : ∃ errno calls attrs actions, p'.screen = { p.screen with io := { p.screen.io with
    world := { p.world with errno, calls, attrs, actions } } }

theorem Process.Calls.trans {p₁ p₂ p₃ : Process} (h : p₁.Calls p₂) (h' : p₂.Calls p₃) :
    p₁.Calls p₃ := by
  obtain ⟨_, _, _, _, hscreen⟩ := h.screen
  obtain ⟨errno, calls, attrs, actions, hscreen'⟩ := h'.screen
  refine ⟨h'.terminfo.trans h.terminfo, h'.root.trans h.root, h'.escapeTable.trans h.escapeTable,
    errno, calls, attrs, actions, ?_⟩
  rw [hscreen', Process.world, hscreen]

theorem Process.Calls.refl (p : Process) : p.Calls p := ⟨rfl, rfl, rfl, _, _, _, _, rfl⟩

theorem Process.Calls.isTty {p p' : Process} (h : p.Calls p') : p'.world.isTty = p.world.isTty := by
  obtain ⟨_, _, _, _, hscreen⟩ := h.screen
  rw [Process.world, hscreen]

@[simp] theorem Process.setWorld_world (p : Process) (w : World) : (p.setWorld w).world = w := rfl

@[simp] theorem Process.setWorld_oldActions (p : Process) (w : World) :
    (p.setWorld w).oldActions = p.oldActions := rfl

@[simp] theorem Process.setWorld_oldAttrs (p : Process) (w : World) :
    (p.setWorld w).oldAttrs = p.oldAttrs := rfl

/-- The world after a `sigaction` that has succeeded. -/
def World.setAction (w : World) (sig : Signal) (act : SigAction) : World :=
  { w with
    calls := w.calls.tail
    actions := fun s => if s = sig then act else w.actions s }

theorem World.sigaction_served (w : World) (sig : Signal) (act : SigAction) :
    (served w.calls 1 = 1 ∧ w.sigaction sig act = (some (w.actions sig), w.setAction sig act)) ∨
      (served w.calls 1 = 0 ∧ ∃ errno,
        w.sigaction sig act = (none, { w with errno, calls := w.calls.tail })) := by
  unfold World.sigaction
  rcases w.call_served with ⟨hserved, hcall⟩ | ⟨hserved, errno, hcall⟩
  · exact .inl ⟨hserved, by rw [hcall]; rfl⟩
  · exact .inr ⟨hserved, errno, by rw [hcall]⟩

theorem Process.calls_setWorld (p : Process) (errno : Errno) (calls : List SysResult) (attrs : Termios)
    (actions : Signal → SigAction) :
    p.Calls (p.setWorld { p.world with errno, calls, attrs, actions }) :=
  ⟨rfl, rfl, rfl, errno, calls, attrs, actions, rfl⟩

/-- The handler `init` installs for a signal. -/
def handlerOf : Signal → SigAction
  | .winch => .sigwinch
  | _ => .generic

/-- The order in which `init` installs its handlers. -/
def installOrder : List Signal := [.winch, .hup, .int, .term, .quit]

/-- The order in which `deinit` gives the old ones back. -/
def restoreOrder : List Signal := [.hup, .int, .term, .quit, .winch]

/-- The chain that `init` spells out. -/
theorem initChain_eq : [(.winch, .sigwinch), (.hup, .generic), (.int, .generic), (.term, .generic),
    (.quit, .generic)] = installOrder.map fun sig => (sig, handlerOf sig) := rfl

/-- The chain that `deinit` spells out. -/
theorem deinitChain_eq : [.hup, .int, .term, .quit, .winch] = restoreOrder := rfl

/-- The dispositions after the first `n` signals of a chain have been set. -/
structure SetsSignals (sigs : List Signal) (n : Nat) (act : Signal → SigAction) (p p' : Process) :
    Prop where
  calls : p.Calls p'
  rest : n = sigs.length → p'.world.calls = p.world.calls.drop sigs.length
  attrs : p'.world.attrs = p.world.attrs
  oldAttrs : p'.oldAttrs = p.oldAttrs
  actions : ∀ sig, p'.world.actions sig = if sig ∈ sigs.take n then act sig else p.world.actions sig

theorem SetsSignals.nil (act : Signal → SigAction) (p : Process) : SetsSignals [] 0 act p p :=
  ⟨.refl p, fun _ => rfl, rfl, rfl, by simp⟩

/-- The chain ends with a failure. -/
theorem SetsSignals.failed (sig : Signal) (sigs : List Signal) (act : Signal → SigAction) (p : Process)
    (errno : Errno) (calls : List SysResult) :
    SetsSignals (sig :: sigs) 0 act p (p.setWorld { p.world with errno, calls }) :=
  ⟨p.calls_setWorld errno calls p.world.attrs p.world.actions,
    fun h => absurd h (Nat.zero_ne_add_one _), rfl, rfl, by simp⟩

/-- The chain goes on behind a success. -/
theorem SetsSignals.cons {sig : Signal} {sigs : List Signal} {n : Nat} {act : Signal → SigAction}
    {p p₁ p' : Process} (hcalls : p.Calls p₁) (hworld : p₁.world = p.world.setAction sig (act sig))
    (hattrs : p₁.oldAttrs = p.oldAttrs) (h : SetsSignals sigs n act p₁ p') :
    SetsSignals (sig :: sigs) (n + 1) act p p' := by
  refine ⟨hcalls.trans h.calls, fun hn => ?_, ?_, h.oldAttrs.trans hattrs, fun s => ?_⟩
  · rw [h.rest (Nat.succ.inj hn), hworld]
    simp [World.setAction]
  · rw [h.attrs, hworld]
    rfl
  · rw [h.actions, hworld, List.take_succ_cons]
    by_cases hs : s = sig
    · simp [World.setAction, hs]
    · simp [World.setAction, hs]

/-- The chain of `init` installs the handlers of the signals before the first failure, and
keeps what it has found. -/
theorem setSignals_served {sigs : List Signal} (hsigs : sigs.Nodup) (p : Process) :
    ∃ p', setSignals (sigs.map fun sig => (sig, handlerOf sig)) p =
        (decide (served p.world.calls sigs.length = sigs.length), p') ∧
      SetsSignals sigs (served p.world.calls sigs.length) handlerOf p p' ∧
      ∀ sig, p'.oldActions sig = if sig ∈ sigs.take (served p.world.calls sigs.length) then
        p.world.actions sig else p.oldActions sig := by
  induction sigs generalizing p with
  | nil => exact ⟨p, rfl, .nil handlerOf p, by simp⟩
  | cons sig sigs ih =>
    obtain ⟨hfresh, hnodup⟩ := List.nodup_cons.mp hsigs
    rw [List.map_cons, setSignals, List.length_cons, served_succ]
    rcases p.world.sigaction_served sig (handlerOf sig) with ⟨hserved, hcall⟩ | ⟨hserved, errno, hcall⟩
    · rw [hcall, if_pos hserved]
      dsimp only
      generalize hfirst : Process.setWorld _ (p.world.setAction sig (handlerOf sig)) = p₁
      have hworld : p₁.world = p.world.setAction sig (handlerOf sig) := by rw [← hfirst]; rfl
      have hold₁ : ∀ s, p₁.oldActions s = if s = sig then p.world.actions sig else p.oldActions s := by
        intro s
        rw [← hfirst]
        rfl
      have hcalls : p.Calls p₁ := by
        rw [← hfirst]
        exact ⟨rfl, rfl, rfl, _, _, _, _, rfl⟩
      have htail : p₁.world.calls = p.world.calls.tail := by rw [hworld]; rfl
      obtain ⟨p', hrest, hsets, hold⟩ := ih hnodup p₁
      rw [htail] at hrest hsets hold
      refine ⟨p', by rw [hrest]; simp, hsets.cons hcalls hworld (by rw [← hfirst]; rfl), fun s => ?_⟩
      rw [hold, hold₁, hworld, List.take_succ_cons]
      by_cases hs : s = sig
      · have hnot : sig ∉ sigs.take (served p.world.calls.tail sigs.length) :=
          fun hmem => hfresh (List.mem_of_mem_take hmem)
        simp [hs, hnot]
      · simp [hs, World.setAction]
    · rw [hcall, if_neg (by omega)]
      exact ⟨_, by simp, .failed sig sigs handlerOf p errno p.world.calls.tail, by simp⟩

/-- The chain of `deinit` gives back what was found, up to the first failure. -/
theorem restoreSignals_served (sigs : List Signal) (p : Process) :
    ∃ p', restoreSignals sigs p = (decide (served p.world.calls sigs.length = sigs.length), p') ∧
      SetsSignals sigs (served p.world.calls sigs.length) p.oldActions p p' := by
  induction sigs generalizing p with
  | nil => exact ⟨p, rfl, .nil p.oldActions p⟩
  | cons sig sigs ih =>
    rw [restoreSignals, List.length_cons, served_succ]
    rcases p.world.sigaction_served sig (p.oldActions sig) with ⟨hserved, hcall⟩ | ⟨hserved, errno, hcall⟩
    · rw [hcall, if_pos hserved]
      obtain ⟨p', hrest, hsets⟩ := ih (p.setWorld (p.world.setAction sig (p.oldActions sig)))
      have hcalls : p.Calls (p.setWorld (p.world.setAction sig (p.oldActions sig))) :=
        ⟨rfl, rfl, rfl, _, _, _, _, rfl⟩
      refine ⟨p', ?_, hsets.cons hcalls rfl rfl⟩
      dsimp only
      rw [hrest]
      exact Prod.ext (decide_eq_decide.mpr (by simp [World.setAction])) rfl
    · rw [hcall, if_neg (by omega)]
      exact ⟨_, by simp, .failed sig sigs p.oldActions p errno p.world.calls.tail⟩

/-! ### Setting up -/

/-- The attributes `init` sets. -/
def Termios.raw (attrs : Termios) : Termios := { attrs with icanon := false, echo := false }

/-- `init` gets over the terminal calls. -/
def World.attrsReady (w : World) : Bool := !w.isTty || served w.calls 2 = 2

/-- The outcomes of the signal calls of `init` and of what follows. -/
def World.signalCalls (w : World) : List SysResult := if w.isTty then w.calls.drop 2 else w.calls

/-- The signals whose handlers `init` installs. -/
def World.signalsSet (w : World) : List Signal :=
  if w.attrsReady then installOrder.take (served w.signalCalls 5) else []

/-- `init` gets over the terminal and the signal calls. -/
def World.setUp (w : World) : Bool := w.attrsReady && served w.signalCalls 5 = 5

theorem setAttrs_served (p : Process) : ∃ p', setAttrs p = (p.world.attrsReady, p') ∧ p.Calls p' ∧
    (p.world.attrsReady = true → p'.world.calls = p.world.signalCalls) ∧
    p'.world.attrs = (if p.world.isTty && p.world.attrsReady then p.world.attrs.raw else p.world.attrs) ∧
    p'.world.actions = p.world.actions ∧ p'.oldActions = p.oldActions ∧
    (p.world.isTty = true → p.world.attrsReady = true → p'.oldAttrs = p.world.attrs) := by
  unfold setAttrs World.attrsReady World.signalCalls
  cases htty : p.world.isTty with
  | false =>
    have hisatty : p.world.isatty = (false, { p.world with errno := .enotty }) := by
      rw [World.isatty, if_neg (by simp [htty])]
    rw [hisatty]
    refine ⟨p.setWorld { p.world with errno := .enotty }, rfl, ?_, fun _ => rfl, rfl, rfl, rfl, nofun⟩
    exact p.calls_setWorld .enotty p.world.calls p.world.attrs p.world.actions
  | true =>
    have hisatty : p.world.isatty = (true, p.world) := by
      rw [World.isatty, htty]
      rfl
    rw [hisatty, served_succ]
    dsimp only
    unfold World.tcgetattr
    rcases p.world.call_served with ⟨hget, hcall⟩ | ⟨hget, errno, hcall⟩
    · rw [hcall, if_pos hget]
      dsimp only
      unfold World.tcsetattr
      rcases World.call_served { p.world with calls := p.world.calls.tail } with
        ⟨hset, hcall⟩ | ⟨hset, errno, hcall⟩
      · rw [hcall]
        dsimp only at hset ⊢
        rw [hset]
        refine ⟨_, rfl, ⟨rfl, rfl, rfl, _, _, _, _, rfl⟩, fun _ => ?_, rfl, rfl, rfl, fun _ _ => rfl⟩
        show p.world.calls.tail.tail = p.world.calls.drop 2
        rw [← List.drop_one, ← List.drop_one, List.drop_drop]
      · rw [hcall]
        dsimp only at hset ⊢
        rw [hset]
        exact ⟨_, rfl, ⟨rfl, rfl, rfl, _, _, _, _, rfl⟩, nofun, rfl, rfl, rfl, nofun⟩
    · rw [hcall, if_neg (by omega)]
      exact ⟨_, rfl, p.calls_setWorld errno p.world.calls.tail p.world.attrs p.world.actions, nofun, rfl,
        rfl, rfl, nofun⟩

/-! ### What the session leaves alone -/

/-- The terminal and the signals are as they were. -/
structure Io.SameTerminal (io io' : Io) : Prop where
  isTty : io'.world.isTty = io.world.isTty
  calls : io'.world.calls = io.world.calls
  attrs : io'.world.attrs = io.world.attrs
  actions : io'.world.actions = io.world.actions

theorem Io.SameTerminal.refl (io : Io) : io.SameTerminal io := ⟨rfl, rfl, rfl, rfl⟩

theorem Io.SameTerminal.trans {io₁ io₂ io₃ : Io} (h : io₁.SameTerminal io₂)
    (h' : io₂.SameTerminal io₃) : io₁.SameTerminal io₃ :=
  ⟨h'.isTty.trans h.isTty, h'.calls.trans h.calls, h'.attrs.trans h.attrs,
    h'.actions.trans h.actions⟩

theorem Io.Writes.sameTerminal {io io' : Io} (h : io.Writes io') : io.SameTerminal io' := by
  obtain ⟨_, _, _, _, _, rfl⟩ := h
  exact ⟨rfl, rfl, rfl, rfl⟩

theorem nrlIoFlush_sameTerminal (P : Platform) (io : Io) :
    Ends (fun _ => True) (fun r => io.SameTerminal r.2) (nrlIoFlush P io) :=
  (nrlIoFlush_writes P io).mono fun _ => Io.Writes.sameTerminal

theorem nrlIoWrite_sameTerminal (P : Platform) (data : List Byte) (io : Io) :
    Ends (fun _ => True) (fun r => io.SameTerminal r.2) (nrlIoWrite P data io) :=
  (nrlIoWrite_writes P data io).mono fun _ => Io.Writes.sameTerminal

theorem World.ReadsFrom.sameTerminal {io io' : Io} (h : io.world.ReadsFrom io'.world) :
    io.SameTerminal io' := ⟨h.isTty, h.calls, h.attrs, h.actions⟩

theorem Io.SameTerminal.frame (P : Platform) : Io.Frame P Io.SameTerminal where
  refl := .refl
  trans := .trans
  write := nrlIoWrite_sameTerminal P
  flush := nrlIoFlush_sameTerminal P
  rawRead := fun size io => by
    unfold nrlIoRawRead
    refine (Ends.any _).bind fun _ _ => (Ends.any _).bind fun _ _ => .ok ?_
    exact World.ReadsFrom.sameTerminal (io.world.readsFrom_read size)
  winsize := fun io => by
    unfold World.winsize
    split <;> exact ⟨rfl, rfl, rfl, rfl⟩
  read := fun root buffer io =>
    (nrlIoRead_ends P root buffer io).mono fun _ h => h.world.sameTerminal

theorem Io.SameTerminal.of_world {io io' : Io} (h : io'.world = io.world) : io.SameTerminal io' := by
  refine ⟨?_, ?_, ?_, ?_⟩ <;> rw [h]

/-! ### The output at both ends of a call -/

section Output

variable {P : Platform} {R : Io → Io → Prop}

theorem Io.OutputFrame.writeEscape (hR : Io.OutputFrame P R) (t : Terminfo) (escape : TerminfoOutput)
    (io : Io) : Ends (fun _ => True) (fun r => R io r.2) (nrlIoWriteEscape P t escape io) := by
  unfold nrlIoWriteEscape
  split
  · exact .ok (hR.refl io)
  · exact hR.write _ io

/-- The output of `init` begins where `nrl_io_init` has left the static data. -/
theorem Io.OutputFrame.initOutput (hR : Io.OutputFrame P R)
    (hstate : ∀ state io, R io (nrlIoEchoState state io)) (config : Config) (mode : EchoMode) (p : Process) :
    Ends (fun _ => True) (fun r => ∃ io escapeTable, r.2 = { p.setIo io with escapeTable } ∧
      R (nrlIoInit config.readFile config.echoFile config.preload (nrlIoEchoState true p.screen.io)) io)
      (initOutput P config mode p) := by
  unfold Nanorl.initOutput
  dsimp only
  generalize nrlIoInit config.readFile config.echoFile config.preload (nrlIoEchoState true p.screen.io) = io₀
  have hkeypad : Ends (fun _ => True) (fun r => R io₀ r.2) (writeKeypad P config p.terminfo io₀) := by
    unfold writeKeypad
    split
    · exact .ok (hR.refl io₀)
    · exact hR.writeEscape _ _ io₀
  have hprompt : ∀ io : Io, Ends (fun _ => True) (fun r => R io r.2) (writePrompt P config io) := by
    intro io
    unfold writePrompt
    split
    · exact .ok (hR.refl io)
    · exact hR.write _ io
  refine hkeypad.bind fun r hr => ?_
  obtain ⟨written, io₁⟩ := r
  cases written with
  | false => exact .ok ⟨io₁, p.escapeTable, rfl, hr⟩
  | true =>
    refine (hprompt io₁).bind fun r hwrite => ?_
    obtain ⟨written, io₂⟩ := r
    replace hr := hR.trans hr hwrite
    cases written with
    | false => exact .ok ⟨io₂, p.escapeTable, rfl, hr⟩
    | true =>
      refine (hR.flush _).bind fun r hflush => .ok ?_
      have hio := hR.trans hr (hR.trans (hstate (mode ≠ .off) io₂) hflush)
      dsimp only
      split
      · exact ⟨r.2, nrlManipMakeCustomTable config.customHandlers p.escapeTable, rfl, hio⟩
      · exact ⟨r.2, p.escapeTable, rfl, hio⟩

variable (hR : Io.Frame P R) (hworld : ∀ {io io' : Io}, io'.world = io.world → R io io')
include hR hworld

theorem Io.Frame.initOutput (config : Config) (mode : EchoMode) (p : Process) :
    Ends (fun _ => True) (fun r => ∃ io escapeTable, r.2 = { p.setIo io with escapeTable } ∧
      R p.screen.io io) (initOutput P config mode p) := by
  have hopen : R p.screen.io (nrlIoInit config.readFile config.echoFile config.preload
      (nrlIoEchoState true p.screen.io)) := hworld rfl
  refine (hR.queries.initOutput (fun _ _ => hworld rfl) config mode p).mono ?_
  rintro r ⟨io, escapeTable, hr, hio⟩
  exact ⟨io, escapeTable, hr, hR.trans hopen hio⟩

theorem Io.Frame.deinitOutput (t : Terminfo) (mode : EchoMode) (io : Io) :
    Ends (fun _ => True) (fun r => R io r.2) (deinitOutput P t mode io) := by
  unfold Nanorl.deinitOutput
  dsimp only
  generalize hstart : nrlIoEchoState true (if mode ≠ .on then nrlIoWipeBuffers io else io) = io₀
  have hstart₀ : R io io₀ := by
    rw [← hstart]
    split <;> exact hworld rfl
  refine (hR.write [10] io₀).bind fun r hr => ?_
  obtain ⟨written, io₁⟩ := r
  have hnewline : R io io₁ := hR.trans hstart₀ hr
  cases written with
  | false => exact .ok hnewline
  | true =>
    refine (hR.queries.writeEscape t .keypadLocal io₁).bind fun r hr => ?_
    obtain ⟨written, io₂⟩ := r
    have hkeypad : R io io₂ := hR.trans hnewline hr
    cases written with
    | false => exact .ok hkeypad
    | true => exact (hR.flush io₂).mono fun _ => hR.trans hkeypad

end Output

/-! ### What `init` leaves -/

section Init

variable (P : Platform) (env : Environment) (config : Config)

theorem loadDfa_ends (p : Process) :
    Ends (fun _ => True) (fun p' => ∃ terminfo root, p' = { p with terminfo, root }) (loadDfa env p) := by
  unfold loadDfa
  refine (Ends.any _).bind fun r _ => ?_
  obtain ⟨loaded, terminfo⟩ := r
  dsimp only
  split
  · split
    · exact .error trivial
    · exact (Ends.any _).bind fun root _ => .ok ⟨terminfo, root, rfl⟩
  · exact .ok ⟨terminfo, p.root, rfl⟩

/-- What `init` has done to the terminal and the signals of `w` when it returns. -/
structure InitLeaves (ready : Bool) (w : World) (p : Process) : Prop where
  isTty : p.world.isTty = w.isTty
  attrs : p.world.attrs = if w.isTty && w.attrsReady then w.attrs.raw else w.attrs
  actions : ∀ sig, p.world.actions sig = if sig ∈ w.signalsSet then handlerOf sig else w.actions sig
  setUp : ready = true → w.setUp = true
  calls : ready = true → p.world.calls = w.signalCalls.drop 5
  oldAttrs : ready = true → w.isTty = true → p.oldAttrs = w.attrs
  oldActions : ready = true → ∀ sig, p.oldActions sig = w.actions sig

theorem InitLeaves.gaveUp {ready : Bool} {w : World} {p : Process} (h : InitLeaves ready w p) :
    InitLeaves false w p := ⟨h.isTty, h.attrs, h.actions, nofun, nofun, nofun, nofun⟩

/-- What comes behind the calls changes none of it. -/
theorem InitLeaves.later {ready : Bool} {w : World} {p p' : Process} (h : InitLeaves ready w p)
    (hio : p.screen.io.SameTerminal p'.screen.io) (hattrs : p'.oldAttrs = p.oldAttrs)
    (hactions : p'.oldActions = p.oldActions) : InitLeaves ready w p' :=
  ⟨hio.isTty.trans h.isTty, hio.attrs.trans h.attrs,
    fun sig => (congrFun hio.actions sig).trans (h.actions sig), h.setUp,
    fun hready => hio.calls.trans (h.calls hready),
    fun hready htty => hattrs.trans (h.oldAttrs hready htty),
    fun hready sig => (congrFun hactions sig).trans (h.oldActions hready sig)⟩

theorem mem_installOrder (sig : Signal) : sig ∈ installOrder.take 5 := by cases sig <;> decide

/-- The terminal and the signal calls of `init`. -/
theorem setUp_served (p : Process) : ∃ p₁ p₂, setAttrs p = (p.world.attrsReady, p₁) ∧
    (p.world.attrsReady = false → InitLeaves false p.world p₁) ∧
    (p.world.attrsReady = true →
      setSignals (installOrder.map fun sig => (sig, handlerOf sig)) p₁ = (p.world.setUp, p₂) ∧
      InitLeaves p.world.setUp p.world p₂) := by
  obtain ⟨p₁, hattrs, hcalls₁, hrest, hset, hactions, -, hold⟩ := setAttrs_served p
  obtain ⟨p₂, hsignals, hsets, holds⟩ := setSignals_served (show installOrder.Nodup by decide) p₁
  have hlength : installOrder.length = 5 := rfl
  refine ⟨p₁, p₂, hattrs, fun hready => ?_, fun hready => ?_⟩
  · have hnone : p.world.signalsSet = [] := by simp [World.signalsSet, hready]
    exact ⟨hcalls₁.isTty, hset, fun sig => by simp [hactions, hnone], nofun, nofun, nofun, nofun⟩
  · have hsome : p.world.signalsSet = installOrder.take (served p.world.signalCalls 5) := by
      simp [World.signalsSet, hready]
    have hsetUp : p.world.setUp = decide (served p.world.signalCalls 5 = 5) := by
      simp [World.setUp, hready]
    rw [hrest hready, hlength] at hsignals hsets holds
    rw [hsignals, hsetUp]
    refine ⟨rfl, hsets.calls.isTty.trans hcalls₁.isTty, hsets.attrs.trans hset, fun sig => ?_,
      fun h => ?_, fun h => ?_, fun _ htty => ?_, fun h sig => ?_⟩
    · rw [hsets.actions, hactions, hsome]
    · rw [hsetUp]
      exact h
    · rw [hsets.rest (of_decide_eq_true h), hrest hready]
      rfl
    · exact hsets.oldAttrs.trans (hold htty hready)
    · rw [holds, hactions, of_decide_eq_true h, if_pos (mem_installOrder sig)]

theorem loadDfa_terminfo {p p' : Process} (h : loadDfa env p = .ok p') :
    ∃ loaded, nrlLoadTerminfo env p.terminfo = .ok (loaded, p'.terminfo) := by
  unfold loadDfa at h
  obtain ⟨⟨loaded, terminfo⟩, hload, h⟩ := Run.bind_eq_ok.mp h
  have hterminfo : terminfo = p'.terminfo := by
    dsimp only at h
    split at h
    · split at h
      · cases h
      · obtain ⟨root, -, h⟩ := Run.bind_eq_ok.mp h
        obtain rfl := Except.ok.inj h
        rfl
    · obtain rfl := Except.ok.inj h
      rfl
  exact ⟨loaded, hterminfo ▸ hload⟩

/-- The steps of an `init` that succeeds: loading, calls and the output. -/
theorem init_done {P : Platform} {env : Environment} {config : Config} {mode : EchoMode} {p p' : Process}
    (h : init P env config mode p = .ok (true, p')) :
    ∃ terminfo root p₂ p₃, loadDfa env p = .ok { p with terminfo, root } ∧
      Process.Calls { p with terminfo, root } p₂ ∧ initOutput P config mode p₂ = .ok (true, p₃) ∧
      nrlRenderInit P p₃.terminfo mode config.echoFile p₃.screen = .ok (true, p'.screen) ∧
      p' = { p₃ with screen := p'.screen } := by
  unfold init at h
  obtain ⟨p₀, hload, h⟩ := Run.bind_eq_ok.mp h
  obtain ⟨terminfo, root, rfl⟩ := (loadDfa_ends env p).of_ok hload
  obtain ⟨p₁, hattrs, hcalls₁, -⟩ := setAttrs_served { p with terminfo, root }
  obtain ⟨p₂, hsignals, hsets, -⟩ := setSignals_served (show installOrder.Nodup by decide) p₁
  dsimp only at h
  rw [hattrs] at h
  cases hready : Process.world { p with terminfo, root } |>.attrsReady with
  | false =>
    rw [hready] at h
    cases h
  | true =>
    rw [hready, initChain_eq, hsignals] at h
    cases hserved : decide (served p₁.world.calls installOrder.length = installOrder.length) with
    | false =>
      rw [hserved] at h
      cases h
    | true =>
      rw [hserved] at h
      obtain ⟨⟨ready, p₃⟩, houtput, h⟩ := Run.bind_eq_ok.mp h
      cases ready with
      | false => cases h
      | true =>
        obtain ⟨⟨ready, screen⟩, hrender, h⟩ := Run.bind_eq_ok.mp h
        obtain ⟨rfl, rfl⟩ := Prod.mk.inj (Except.ok.inj h)
        exact ⟨terminfo, root, p₂, p₃, hload, hcalls₁.trans hsets.calls, houtput, hrender, rfl⟩

theorem init_leaves (mode : EchoMode) (p : Process) :
    Ends (fun _ => True) (fun r => InitLeaves r.1 p.world r.2) (init P env config mode p) := by
  unfold init
  refine (loadDfa_ends env p).bind fun p₀ hload => ?_
  obtain ⟨terminfo, root, rfl⟩ := hload
  obtain ⟨p₁, p₂, hattrs, hfailed, hdone⟩ := setUp_served { p with terminfo, root }
  have hworld : Process.world { p with terminfo, root } = p.world := rfl
  rw [hworld] at hattrs hfailed hdone
  rw [hattrs]
  dsimp only
  cases hready : p.world.attrsReady with
  | false => exact .ok (hfailed hready)
  | true =>
    obtain ⟨hsignals, hleaves⟩ := hdone hready
    rw [initChain_eq, hsignals]
    cases hsetUp : p.world.setUp with
    | false =>
      rw [hsetUp] at hleaves
      exact .ok hleaves
    | true =>
      rw [hsetUp] at hleaves
      refine ((Io.SameTerminal.frame P).initOutput .of_world config mode p₂).bind fun r hr => ?_
      obtain ⟨ready, _⟩ := r
      obtain ⟨io, escapeTable, rfl, hio⟩ := hr
      have houtput : InitLeaves true p.world { p₂.setIo io with escapeTable } := hleaves.later hio rfl rfl
      cases ready with
      | false => exact .ok houtput.gaveUp
      | true =>
        refine ((Io.SameTerminal.frame P).queries.renderInit _ mode config.echoFile _).bind fun r hrender => .ok ?_
        obtain ⟨ready, screen⟩ := r
        have hscreen : InitLeaves true p.world { p₂.setIo io with escapeTable, screen } :=
          houtput.later hrender rfl rfl
        cases ready with
        | false => exact hscreen.gaveUp
        | true => exact hscreen

end Init

/-! ### What `deinit` leaves -/

/-- `deinit` gets over the terminal call. -/
def World.attrsRestored (w : World) : Bool := !w.isTty || served w.calls 1 = 1

/-- The outcomes of the signal calls of `deinit`. -/
def World.restoreCalls (w : World) : List SysResult := if w.isTty then w.calls.tail else w.calls

/-- How many dispositions `deinit` gives back. -/
def World.signalsRestored (w : World) : Nat := if w.attrsRestored then served w.restoreCalls 5 else 0

/-- `deinit` gets over the terminal and the signal calls. -/
def World.tornDown (w : World) : Bool := w.attrsRestored && served w.restoreCalls 5 = 5

theorem restoreAttrs_served (p : Process) : ∃ p', restoreAttrs p = (p.world.attrsRestored, p') ∧
    p.Calls p' ∧ (p.world.attrsRestored = true → p'.world.calls = p.world.restoreCalls) ∧
    p'.world.attrs = (if p.world.isTty && p.world.attrsRestored then p.oldAttrs else p.world.attrs) ∧
    p'.world.actions = p.world.actions ∧ p'.oldActions = p.oldActions := by
  unfold restoreAttrs World.attrsRestored World.restoreCalls
  cases htty : p.world.isTty with
  | false =>
    have hisatty : p.world.isatty = (false, { p.world with errno := .enotty }) := by
      simp [World.isatty, htty]
    rw [hisatty]
    refine ⟨p.setWorld { p.world with errno := .enotty }, rfl, ?_, fun _ => rfl, rfl, rfl, rfl⟩
    exact p.calls_setWorld .enotty p.world.calls p.world.attrs p.world.actions
  | true =>
    have hisatty : p.world.isatty = (true, p.world) := by simp [World.isatty, htty]
    rw [hisatty]
    dsimp only
    unfold World.tcsetattr
    rcases p.world.call_served with ⟨hset, hcall⟩ | ⟨hset, errno, hcall⟩
    · rw [hcall, hset]
      exact ⟨_, rfl, ⟨rfl, rfl, rfl, _, _, _, _, rfl⟩, fun _ => rfl, rfl, rfl, rfl⟩
    · rw [hcall, hset]
      exact ⟨_, rfl, ⟨rfl, rfl, rfl, _, _, _, _, rfl⟩, nofun, rfl, rfl, rfl⟩

/-- The buffers hold nothing but the end of the output. -/
def Io.Wiped (closing : List Byte) (io : Io) : Prop :=
  ∀ i < ioBufSize, io.rdBuf i = 0 ∧ (io.wrBuf i = 0 ∨ io.wrBuf i ∈ closing)

/-- What `deinit` writes: a newline and the end of keypad mode. -/
def closingText (t : Terminfo) : List Byte :=
  10 :: (nrlLookupOutput t TerminfoOutput.keypadLocal.id).getD []

section Deinit

variable (P : Platform)

theorem nrlIoWipeBuffers_wiped (closing : List Byte) (io : Io) : (nrlIoWipeBuffers io).Wiped closing := by
  intro i hi
  have hzero : ∀ mem : Nat → Byte, memcpy mem 0 (List.replicate ioBufSize 0) i = 0 := by
    intro mem
    simp [memcpy, hi]
  exact ⟨hzero io.rdBuf, .inl (hzero io.wrBuf)⟩

theorem nrlIoFlush_wiped {closing : List Byte} {io : Io} (h : io.Wiped closing) :
    Ends (fun _ => True) (fun r => r.2.Wiped closing) (nrlIoFlush P io) := by
  unfold nrlIoFlush
  refine (Ends.any _).bind fun _ _ => ?_
  split
  · exact .ok h
  · dsimp only
    split <;> exact .ok h

theorem bufferData_wiped {closing data : List Byte} (hdata : data ⊆ closing) {io : Io}
    (h : io.Wiped closing) : Ends (fun _ => True) (fun r => r.2.Wiped closing) (bufferData data io) := by
  unfold bufferData
  split
  · exact .ok h
  · split
    · refine .ok fun i hi => ⟨(h i hi).1, ?_⟩
      rcases memcpy_mem io.wrBuf io.wrCount data i with hnew | hold
      · exact .inr (hdata hnew)
      · dsimp only
        rw [hold]
        exact (h i hi).2
    · exact .error trivial

theorem nrlIoWrite_wiped {closing data : List Byte} (hdata : data ⊆ closing) {io : Io}
    (h : io.Wiped closing) : Ends (fun _ => True) (fun r => r.2.Wiped closing) (nrlIoWrite P data io) := by
  unfold nrlIoWrite
  split
  · split
    · refine (nrlIoFlush_wiped P h).bind fun r hflush => ?_
      obtain ⟨flushed, io₁⟩ := r
      cases flushed with
      | false => exact .ok hflush
      | true => exact bufferData_wiped hdata hflush
    · exact bufferData_wiped hdata h
  · exact .ok h

theorem deinitOutput_wiped (t : Terminfo) {mode : EchoMode} (hmode : mode ≠ .on) (io : Io) :
    Ends (fun _ => True) (fun r => r.2.Wiped (closingText t)) (deinitOutput P t mode io) := by
  unfold deinitOutput
  dsimp only
  rw [if_pos hmode]
  generalize hio₀ : nrlIoEchoState true (nrlIoWipeBuffers io) = io₀
  have hwiped₀ : io₀.Wiped (closingText t) := by
    rw [← hio₀]
    exact nrlIoWipeBuffers_wiped (closingText t) io
  refine (nrlIoWrite_wiped P (by simp [closingText]) hwiped₀).bind fun r hr => ?_
  obtain ⟨written, io₁⟩ := r
  cases written with
  | false => exact .ok hr
  | true =>
    have hkeypad : Ends (fun _ => True) (fun r => r.2.Wiped (closingText t))
        (nrlIoWriteEscape P t .keypadLocal io₁) := by
      unfold nrlIoWriteEscape
      split
      · exact .ok hr
      · rename_i asText hlookup
        exact nrlIoWrite_wiped P (fun b hb => by simp [closingText, hlookup, hb]) hr
    refine hkeypad.bind fun r hr => ?_
    obtain ⟨written, io₂⟩ := r
    cases written with
    | false => exact .ok hr
    | true => exact nrlIoFlush_wiped P hr

/-- What `deinit` has done to the terminal, the signals and the buffers of `p` when it
returns. -/
structure DeinitLeaves (mode : EchoMode) (p p' : Process) : Prop where
  attrs : p'.world.attrs =
    if p.world.isTty && p.world.attrsRestored then p.oldAttrs else p.world.attrs
  actions : ∀ sig, p'.world.actions sig =
    if sig ∈ restoreOrder.take p.world.signalsRestored then p.oldActions sig else p.world.actions sig
  wiped : p.world.tornDown = true → mode ≠ .on → p'.screen.io.Wiped (closingText p'.terminfo)
  kept : p.world.tornDown = false → p'.screen.io.rdBuf = p.screen.io.rdBuf

theorem Process.Calls.rdBuf {p p' : Process} (h : p.Calls p') :
    p'.screen.io.rdBuf = p.screen.io.rdBuf := by
  obtain ⟨_, _, _, _, hscreen⟩ := h.screen
  rw [hscreen]

theorem deinit_leaves (mode : EchoMode) (p : Process) :
    Ends (fun _ => True) (fun r => DeinitLeaves mode p r.2) (deinit P mode p) := by
  unfold deinit
  obtain ⟨p₁, hattrs, hcalls₁, hrest, hset, hactions, hold⟩ :=
    restoreAttrs_served { p with escapeTable := nrlManipClearCustomTable }
  have hworld : Process.world { p with escapeTable := nrlManipClearCustomTable } = p.world := rfl
  have hrdBuf : p₁.screen.io.rdBuf = p.screen.io.rdBuf := hcalls₁.rdBuf
  rw [hworld] at hattrs hrest hset hactions
  dsimp only at hattrs hold ⊢
  rw [hattrs]
  cases hready : p.world.attrsRestored with
  | false =>
    have hnone : p.world.signalsRestored = 0 := by simp [World.signalsRestored, hready]
    exact .ok ⟨by rw [hset], fun sig => by simp [hnone, hactions], by simp [World.tornDown, hready],
      fun _ => hrdBuf⟩
  | true =>
    obtain ⟨p₂, hsignals, hsets⟩ := restoreSignals_served restoreOrder p₁
    have hlength : restoreOrder.length = 5 := rfl
    have hsome : p.world.signalsRestored = served p.world.restoreCalls 5 := by
      simp [World.signalsRestored, hready]
    have hdone : p.world.tornDown = decide (served p.world.restoreCalls 5 = 5) := by
      simp [World.tornDown, hready]
    rw [hrest hready, hlength] at hsignals hsets
    have hattrs₂ := hsets.attrs.trans hset
    have hactions₂ : ∀ sig, p₂.world.actions sig = if sig ∈ restoreOrder.take p.world.signalsRestored then
        p.oldActions sig else p.world.actions sig := by
      intro sig
      rw [hsets.actions, hold, hactions, hsome]
    rw [deinitChain_eq, hsignals]
    cases htorn : decide (served p.world.restoreCalls 5 = 5) with
    | false =>
      exact .ok ⟨hattrs₂, hactions₂, by simp [hdone, htorn], fun _ => hsets.calls.rdBuf.trans hrdBuf⟩
    | true =>
      have hsame := (Io.SameTerminal.frame P).deinitOutput .of_world p₂.terminfo mode p₂.screen.io
      refine ⟨fun h => ?_, fun _ => trivial⟩
      obtain ⟨⟨ready, io⟩, houtput, h⟩ := Run.bind_eq_ok.mp h
      obtain rfl := Except.ok.inj h
      exact ⟨(hsame.of_ok houtput).attrs.trans hattrs₂,
        fun sig => (congrFun (hsame.of_ok houtput).actions sig).trans (hactions₂ sig),
        fun _ hmode => (deinitOutput_wiped P p₂.terminfo hmode p₂.screen.io).of_ok houtput,
        by simp [hdone, htorn]⟩

end Deinit

/-! ### What an earlier call has left in `rd_buf` -/

/-- The process with other bytes in `rd_buf`. -/
def Process.withRdBuf (p : Process) (mem : Nat → Byte) : Process :=
  p.setIo { p.screen.io with rdBuf := mem }

/-- The same data with `mem` in `rd_buf`. -/
def OtherRdBuf (mem : Nat → Byte) (io io' : Io) : Prop := io' = { io with rdBuf := mem }

section RdBuf

variable (P : Platform) (mem : Nat → Byte)

theorem nrlIoFlush_rdBuf (io : Io) :
    Same (ResultAlike (OtherRdBuf mem)) (nrlIoFlush P io) (nrlIoFlush P { io with rdBuf := mem }) := by
  unfold nrlIoFlush
  refine (Same.refl (fun _ => trivial) (P.assert .echoFile (io.echoFile ≠ -1))).bind fun _ _ (_ : True) => ?_
  dsimp only
  split
  · exact .ok ⟨rfl, rfl⟩
  · split <;> exact .ok ⟨rfl, rfl⟩

theorem bufferData_rdBuf (data : List Byte) (io : Io) :
    Same (ResultAlike (OtherRdBuf mem)) (bufferData data io)
      (bufferData data { io with rdBuf := mem }) := by
  unfold bufferData
  dsimp only
  split
  · exact .ok ⟨rfl, rfl⟩
  · split
    · exact .ok ⟨rfl, rfl⟩
    · exact .error _

theorem nrlIoWrite_rdBuf (data : List Byte) (io : Io) :
    Same (ResultAlike (OtherRdBuf mem)) (nrlIoWrite P data io)
      (nrlIoWrite P data { io with rdBuf := mem }) := by
  unfold nrlIoWrite
  dsimp only
  split
  · split
    · refine (nrlIoFlush_rdBuf P mem io).bind fun r r' hflush => ?_
      obtain ⟨flushed, io₁⟩ := r
      obtain ⟨_, _⟩ := r'
      obtain ⟨rfl, rfl⟩ := hflush
      cases flushed with
      | false => exact .ok ⟨rfl, rfl⟩
      | true => exact bufferData_rdBuf mem data io₁
    · exact bufferData_rdBuf mem data io
  · exact .ok ⟨rfl, rfl⟩

theorem OtherRdBuf.alike : Io.Alike P (OtherRdBuf mem) where
  write := fun data io io' h => h ▸ nrlIoWrite_rdBuf P mem data io
  flush := fun {io io'} h => h ▸ nrlIoFlush_rdBuf P mem io
  rawRead := fun size io io' h => by
    subst h
    unfold nrlIoRawRead
    refine (Same.refl (fun _ => trivial) (P.assert .rawReadFile (io.readFile ≠ -1))).bind
      fun _ _ (_ : True) => ?_
    refine (Same.refl (fun _ => trivial) (P.assert .rawReadCount (0 < size))).bind fun _ _ (_ : True) => ?_
    exact .ok ⟨rfl, rfl⟩
  winsize := fun h => by
    subst h
    exact ⟨rfl, rfl⟩
  pendingReads := fun h => by
    subst h
    rfl

theorem setAttrs_rdBuf (p : Process) :
    setAttrs (p.withRdBuf mem) = ((setAttrs p).1, (setAttrs p).2.withRdBuf mem) := by
  have hworld : (p.withRdBuf mem).world = p.world := rfl
  unfold setAttrs
  rw [hworld]
  split
  · rfl
  · split <;> rfl

theorem setSignals_rdBuf (chain : List (Signal × SigAction)) (p : Process) :
    setSignals chain (p.withRdBuf mem) =
      ((setSignals chain p).1, (setSignals chain p).2.withRdBuf mem) := by
  induction chain generalizing p with
  | nil => rfl
  | cons item chain ih =>
    have hworld : (p.withRdBuf mem).world = p.world := rfl
    unfold setSignals
    rw [hworld]
    split
    · rfl
    · rename_i old world _
      exact ih ({ p with oldActions := fun s => if s = item.1 then old else p.oldActions s }.setWorld world)

variable (env : Environment) (config : Config)

/-- The same result, and processes that differ in `rd_buf`. -/
def RdBufApart (r r' : Bool × Process) : Prop := r.1 = r'.1 ∧ r'.2 = r.2.withRdBuf mem

theorem initOutput_rdBuf (mode : EchoMode) (p : Process) :
    Same (RdBufApart mem) (initOutput P config mode p) (initOutput P config mode (p.withRdBuf mem)) := by
  have hkeypad : ∀ io : Io, Same (ResultAlike (OtherRdBuf mem)) (writeKeypad P config p.terminfo io)
      (writeKeypad P config p.terminfo { io with rdBuf := mem }) := by
    intro io
    unfold writeKeypad nrlIoWriteEscape
    split
    · exact .ok ⟨rfl, rfl⟩
    · split
      · exact .ok ⟨rfl, rfl⟩
      · exact nrlIoWrite_rdBuf P mem _ io
  have hprompt : ∀ io : Io, Same (ResultAlike (OtherRdBuf mem)) (writePrompt P config io)
      (writePrompt P config { io with rdBuf := mem }) := by
    intro io
    unfold writePrompt
    split
    · exact .ok ⟨rfl, rfl⟩
    · exact nrlIoWrite_rdBuf P mem _ io
  unfold initOutput
  refine (hkeypad (nrlIoInit config.readFile config.echoFile config.preload
    (nrlIoEchoState true p.screen.io))).bind fun r r' hr => ?_
  obtain ⟨written, io₁⟩ := r
  obtain ⟨_, _⟩ := r'
  obtain ⟨rfl, rfl⟩ := hr
  cases written with
  | false => exact .ok ⟨rfl, rfl⟩
  | true =>
    refine (hprompt io₁).bind fun r r' hr => ?_
    obtain ⟨written, io₂⟩ := r
    obtain ⟨_, _⟩ := r'
    obtain ⟨rfl, rfl⟩ := hr
    cases written with
    | false => exact .ok ⟨rfl, rfl⟩
    | true =>
      refine (nrlIoFlush_rdBuf P mem (nrlIoEchoState (mode ≠ .off) io₂)).bind fun r r' hr => ?_
      obtain ⟨flushed, io₃⟩ := r
      obtain ⟨_, _⟩ := r'
      obtain ⟨rfl, rfl⟩ := hr
      dsimp only
      split <;> exact .ok ⟨rfl, rfl⟩

/-- `init` does not look at what is in `rd_buf`. -/
theorem init_rdBuf (mode : EchoMode) (p : Process) :
    Same (RdBufApart mem) (init P env config mode p) (init P env config mode (p.withRdBuf mem)) := by
  have hload : Same (fun p₁ p₁' => p₁' = p₁.withRdBuf mem) (loadDfa env p)
      (loadDfa env (p.withRdBuf mem)) := by
    unfold loadDfa
    refine (Same.refl (fun _ => rfl) (nrlLoadTerminfo env p.terminfo)).bind fun r r' (hr : r = r') => ?_
    subst hr
    obtain ⟨loaded, terminfo⟩ := r
    dsimp only
    split
    · split
      · exact .error _
      · refine (Same.refl (fun _ => rfl) (nrlDfaBuild terminfo _ p.root)).bind
          fun root root' (hroot : root = root') => ?_
        subst hroot
        exact .ok rfl
    · exact .ok rfl
  unfold init
  refine hload.bind fun p₁ _ hp₁ => ?_
  subst hp₁
  dsimp only
  rw [setAttrs_rdBuf]
  obtain ⟨set, p₂⟩ := setAttrs p₁
  cases set with
  | false => exact .ok ⟨rfl, rfl⟩
  | true =>
    dsimp only
    rw [setSignals_rdBuf]
    generalize setSignals _ p₂ = r
    obtain ⟨set, p₃⟩ := r
    cases set with
    | false => exact .ok ⟨rfl, rfl⟩
    | true =>
      refine (initOutput_rdBuf P mem config mode p₃).bind fun r r' hr => ?_
      obtain ⟨ready, p₄⟩ := r
      obtain ⟨_, _⟩ := r'
      obtain ⟨rfl, rfl⟩ := hr
      cases ready with
      | false => exact .ok ⟨rfl, rfl⟩
      | true =>
        have hscreen : p₄.screen.Alike (OtherRdBuf mem) (p₄.withRdBuf mem).screen := ⟨rfl, rfl⟩
        refine ((OtherRdBuf.alike P mem).renderInit p₄.terminfo mode config.echoFile hscreen).bind
          fun r r' hr => ?_
        obtain ⟨ready, render, io⟩ := r
        obtain ⟨_, _, _⟩ := r'
        obtain ⟨rfl, rfl, rfl⟩ := hr
        exact .ok ⟨rfl, rfl⟩

end RdBuf

/-! ### The stop character -/

section Stop

variable (P : Platform)

theorem takeChar_slot (s : Io) : Ends (fun _ => True)
    (fun r => ∃ i < ioBufSize, r.2.rdBuf i = r.1) (takeChar s) := by
  unfold takeChar
  split
  · exact .ok ⟨_, ‹_›, rfl⟩
  · exact .error trivial

/-- A character that has just been read is in the buffer. -/
theorem nextChar_slot (s : Io) : Ends (fun _ => True)
    (fun r => ∃ i < ioBufSize, r.2.rdBuf i = r.1) (nextChar P s) :=
  (Ends.any _).bind fun _ _ => (Ends.any _).bind fun s₂ _ => takeChar_slot s₂

theorem nextChars_slot (count : Nat) {lead : Byte} {s : Io} (h : ∃ i < ioBufSize, s.rdBuf i = lead) :
    Ends (fun _ => True) (fun r => r.1.length = count ∧
      ∃ last, (lead :: r.1).getLast? = some last ∧ ∃ i < ioBufSize, r.2.rdBuf i = last)
      (nextChars P count s) := by
  induction count generalizing lead s with
  | zero => exact .ok ⟨rfl, lead, rfl, h⟩
  | succ count ih =>
    refine (nextChar_slot P s).bind fun r hr => ?_
    obtain ⟨byte, s₁⟩ := r
    refine (ih hr).bind fun r hrest => .ok ?_
    obtain ⟨bytes, s₂⟩ := r
    obtain ⟨hlength, last, hlast, hslot⟩ := hrest
    exact ⟨congrArg (· + 1) hlength, last, by rw [List.getLast?_cons_cons]; exact hlast, hslot⟩

/-- A stop leaves its character in the buffer. -/
theorem nrlIoRead_stop (hstop : P.StopLaw) (root : DfaNode) (buffer : InputBuf) (s : Io) :
    Ends (fun _ => True) (fun r => r.1 = .stop → ∃ i < ioBufSize, r.2.2.rdBuf i ≠ 0)
      (nrlIoRead P root buffer s) := by
  have huchar : ∀ s : Io, Ends (fun _ => True)
      (fun r => r.1 = 10 ∨ r.1 = charEot.toUInt32 → ∃ i < ioBufSize, r.2.rdBuf i ≠ 0) (nextUchar P s) := by
    intro s
    unfold nextUchar
    refine (nextChar_slot P s).bind fun r hr => ?_
    obtain ⟨lead, s₁⟩ := r
    refine (nextChars_slot P _ hr).bind fun r hrest => ?_
    obtain ⟨bytes, s₂⟩ := r
    obtain ⟨hlength, last, hlast, i, hi, hslot⟩ := hrest
    dsimp only
    split
    · have hne : ¬(unicodeErrorChar = 10 ∨ unicodeErrorChar = charEot.toUInt32) := by decide
      exact .ok fun h => absurd h hne
    · rename_i hconsumed
      refine .ok fun h => ⟨i, hi, fun hzero => ?_⟩
      have hlast₀ := hstop lead bytes hlength hconsumed h
      rw [hlast, ← hslot, hzero] at hlast₀
      exact hlast₀ rfl
  unfold nrlIoRead
  refine (Ends.any _).bind fun r _ => ?_
  obtain ⟨result, escape, s₁⟩ := r
  dsimp only
  split
  · refine .ok fun h => ?_
    dsimp only at h
    split at h <;> cases h
  · refine (Ends.any _).bind fun s₂ _ => ?_
    refine (huchar _).bind fun r hr => .ok fun hclass => ?_
    obtain ⟨uc, s₃⟩ := r
    refine hr ?_
    by_contra hne
    dsimp only at hclass hne
    rw [classify, if_neg hne] at hclass
    split at hclass <;> cases hclass

variable {P}

theorem readLoop_stop (hstop : P.StopLaw) {t : Terminfo} {root : DfaNode} {table : EscapeTable}
    {ignoreDefault : Bool} {fuel : Nat} {buffer buffer' : InputBuf} {e e' : Editor}
    (h : readLoop P t root table ignoreDefault fuel buffer e = .ok (buffer', e')) :
    ∃ i < ioBufSize, e'.screen.io.rdBuf i ≠ 0 := by
  induction fuel generalizing buffer e with
  | zero => cases h
  | succ fuel ih =>
    obtain ⟨type, buffer₁, io, hread, ⟨hres, -, rfl, -⟩ | ⟨-, _, _, -, hrest, -⟩⟩ := readLoop_cases h
    · exact (nrlIoRead_stop P hstop root buffer e.screen.io).of_ok hread hres
    · exact ih hrest

end Stop

/-! ### The whole call -/

/-- How far a call gets: its arguments are refused, `init` gives up, or the session
begins. -/
inductive Start
  | refused
  | gaveUp
  | begun
  deriving Repr, DecidableEq

section Start

variable (P : Platform) (env : Environment) (config : Config)

def startOf (p : Process) : Start :=
  match checkArgs config with
  | none => .refused
  | some mode =>
    match init P env config mode p.started with
    | .ok (true, _) => .begun
    | _ => .gaveUp

variable {P env config} {fuel : Nat} {p p' : Process} {result : NanorlResult}

theorem nanorl_eq (fuel : Nat) (p : Process) :
    nanorl P fuel env config p = match checkArgs config with
      | none => .ok ({ data := none, error := .arg }, p.started)
      | some mode => init P env config mode p.started >>= fun r =>
        if !r.1 then .ok ({ data := none, error := .system }, r.2)
        else readLoop P r.2.terminfo r.2.root r.2.escapeTable config.customIgnoreDefault fuel freshBuffer
            { line := emptyLine, screen := r.2.screen } >>= fun s =>
          deinit P mode { r.2 with screen := s.2.screen } >>= fun d =>
            if !d.1 then .ok ({ data := none, error := .system }, d.2)
            else .ok (finishLine P s.1.eof s.2.line d.2.world.errno, d.2) := rfl

/-- What a session comes to once its loop has ended. -/
structure Session (P : Platform) (fuel : Nat) (env : Environment) (config : Config) (p : Process)
    (mode : EchoMode) (p₁ : Process) (buffer : InputBuf) (e : Editor) : Prop where
  args : checkArgs config = some mode
  init : init P env config mode p.started = .ok (true, p₁)
  loop : readLoop P p₁.terminfo p₁.root p₁.escapeTable config.customIgnoreDefault fuel freshBuffer
    { line := emptyLine, screen := p₁.screen } = .ok (buffer, e)

/-- A session ends with `deinit`. -/
theorem Session.nanorl_eq {mode : EchoMode} {p₁ : Process} {buffer : InputBuf} {e : Editor}
    (h : Session P fuel env config p mode p₁ buffer e) : nanorl P fuel env config p =
      deinit P mode { p₁ with screen := e.screen } >>= fun d =>
        if !d.1 then .ok ({ data := none, error := .system }, d.2)
        else .ok (finishLine P buffer.eof e.line d.2.world.errno, d.2) := by
  rw [Nanorl.nanorl_eq, h.args]
  dsimp only
  rw [h.init, Run.ok_bind]
  dsimp only
  rw [if_neg (by decide), h.loop, Run.ok_bind]

/-- The three ways of a call. -/
theorem nanorl_cases (h : nanorl P fuel env config p = .ok (result, p')) :
    (startOf P env config p = .refused ∧ p' = p.started ∧ result.error = .arg) ∨
    (startOf P env config p = .gaveUp ∧ result.error = .system ∧ ∃ mode, checkArgs config = some mode ∧
      init P env config mode p.started = .ok (false, p')) ∨
    (startOf P env config p = .begun ∧ ∃ mode p₁ buffer e done,
      Session P fuel env config p mode p₁ buffer e ∧
      deinit P mode { p₁ with screen := e.screen } = .ok (done, p') ∧
      result = if done then finishLine P buffer.eof e.line p'.world.errno
        else { data := none, error := .system }) := by
  rw [nanorl_eq] at h
  unfold startOf
  cases hargs : checkArgs config with
  | none =>
    rw [hargs] at h
    obtain ⟨rfl, rfl⟩ := Prod.mk.inj (Except.ok.inj h)
    exact .inl ⟨rfl, rfl, rfl⟩
  | some mode =>
    rw [hargs] at h
    obtain ⟨⟨ready, p₁⟩, hinit, h⟩ := Run.bind_eq_ok.mp h
    dsimp only
    rw [hinit]
    cases ready with
    | false =>
      obtain ⟨rfl, rfl⟩ := Prod.mk.inj (Except.ok.inj h)
      exact .inr (.inl ⟨rfl, rfl, mode, rfl, hinit⟩)
    | true =>
      obtain ⟨⟨buffer, e⟩, hloop, h⟩ := Run.bind_eq_ok.mp h
      obtain ⟨⟨done, p₂⟩, hdeinit, h⟩ := Run.bind_eq_ok.mp h
      refine .inr (.inr ⟨rfl, mode, p₁, buffer, e, done, ⟨hargs, hinit, hloop⟩, ?_⟩)
      cases done with
      | false =>
        obtain ⟨rfl, rfl⟩ := Prod.mk.inj (Except.ok.inj h)
        exact ⟨hdeinit, rfl⟩
      | true =>
        obtain ⟨rfl, rfl⟩ := Prod.mk.inj (Except.ok.inj h)
        exact ⟨hdeinit, rfl⟩

end Start

/-- The world as far as `deinit` depends on what `init` has used up. -/
def World.afterSetUp (w : World) : World := { w with calls := w.signalCalls.drop 5 }

/-- The attributes a call leaves are those `init` has set. -/
def World.leavesRaw (w : World) : Start → Bool
  | .refused => false
  | .gaveUp => w.isTty && w.attrsReady
  | .begun => !w.afterSetUp.attrsRestored

/-- The signals a call leaves with the handlers of `init`. -/
def World.leavesHandled (w : World) : Start → List Signal
  | .refused => []
  | .gaveUp => w.signalsSet
  | .begun => restoreOrder.drop w.afterSetUp.signalsRestored

theorem mem_restoreOrder (sig : Signal) : sig ∈ restoreOrder := by cases sig <;> decide

theorem mem_drop_restoreOrder (sig : Signal) (n : Nat) :
    sig ∈ restoreOrder.drop n ↔ sig ∉ restoreOrder.take n := by
  have hall : sig ∈ restoreOrder.take n ∨ sig ∈ restoreOrder.drop n := by
    rw [← List.mem_append, List.take_append_drop]
    exact mem_restoreOrder sig
  have hone : restoreOrder.Nodup := by decide
  exact ⟨fun hdrop htake => List.disjoint_take_drop hone (Nat.le_refl n) htake hdrop, hall.resolve_left⟩

section Leaves

variable {P : Platform} {env : Environment} {config : Config} {fuel : Nat} {p p' : Process}
  {result : NanorlResult}

theorem InitLeaves.of_started {ready : Bool} (h : InitLeaves ready p.started.world p') :
    InitLeaves ready p.world p' :=
  ⟨h.isTty, h.attrs, h.actions, h.setUp, h.calls, h.oldAttrs, h.oldActions⟩

/-- What a call leaves of its changes to the terminal and the signals. -/
theorem nanorl_leaves (h : nanorl P fuel env config p = .ok (result, p')) :
    p'.world.attrs =
        (if p.world.leavesRaw (startOf P env config p) then p.world.attrs.raw else p.world.attrs) ∧
      ∀ sig, p'.world.actions sig =
        if sig ∈ p.world.leavesHandled (startOf P env config p) then handlerOf sig
        else p.world.actions sig := by
  rcases nanorl_cases h with ⟨hstart, rfl, -⟩ | ⟨hstart, -, mode, -, hinit⟩ |
    ⟨hstart, mode, p₁, buffer, e, done, ⟨-, hinit, hloop⟩, hdeinit, -⟩
  · rw [hstart]
    exact ⟨rfl, fun _ => rfl⟩
  · rw [hstart]
    have hleaves := (init_leaves P env config mode p.started).of_ok hinit
    exact ⟨hleaves.attrs, hleaves.actions⟩
  · -- the read loop stays away from the attributes and the signals
    have hleaves : InitLeaves true p.world p₁ :=
      .of_started ((init_leaves P env config mode p.started).of_ok hinit)
    have hsame : p₁.screen.io.SameTerminal e.screen.io := (Io.SameTerminal.frame P).readLoop hloop
    have hset : InitLeaves true p.world { p₁ with screen := e.screen } := hleaves.later hsame rfl rfl
    have hdone : DeinitLeaves mode { p₁ with screen := e.screen } p' := (deinit_leaves P mode _).of_ok hdeinit
    generalize { p₁ with screen := e.screen } = p₂ at hset hdone
    have hready : p.world.attrsReady = true ∧ served p.world.signalCalls 5 = 5 := by
      simpa [World.setUp] using hset.setUp rfl
    have hrestored : p₂.world.attrsRestored = p.world.afterSetUp.attrsRestored := by
      rw [World.attrsRestored, hset.isTty, hset.calls rfl]
      rfl
    have hcalls : p₂.world.signalsRestored = p.world.afterSetUp.signalsRestored := by
      rw [World.signalsRestored, World.restoreCalls, hrestored, hset.isTty, hset.calls rfl]
      rfl
    rw [hstart]
    refine ⟨?_, fun sig => ?_⟩
    · rw [hdone.attrs, hrestored, hset.attrs, hset.isTty, hready.1]
      show _ = if (!p.world.afterSetUp.attrsRestored) then p.world.attrs.raw else p.world.attrs
      cases htty : p.world.isTty with
      | false =>
        have hnot : p.world.afterSetUp.attrsRestored = true := by
          simp [World.attrsRestored, World.afterSetUp, htty]
        simp [hnot]
      | true =>
        rw [hset.oldAttrs rfl htty]
        cases p.world.afterSetUp.attrsRestored <;> rfl
    · have hinstalled : p.world.signalsSet = installOrder.take 5 := by
        simp [World.signalsSet, hready]
      rw [hdone.actions, hcalls, hset.oldActions rfl, hset.actions, hinstalled,
        if_pos (mem_installOrder sig)]
      show _ = if sig ∈ restoreOrder.drop p.world.afterSetUp.signalsRestored then _ else _
      rw [if_congr (mem_drop_restoreOrder sig _) rfl rfl, ite_not]

end Leaves

/-! ### As found -/

/-- The signal whose restoring call has failed. -/
def World.failedRestore (w : World) : Option Signal :=
  if w.attrsRestored then restoreOrder[served w.restoreCalls 5]? else none

/-- The signals with a handler of `init` for which no restoring call has been made. -/
def World.abandoned (w : World) : Start → List Signal
  | .refused => []
  | .gaveUp => w.signalsSet
  | .begun => if w.afterSetUp.attrsRestored then restoreOrder.drop (served w.afterSetUp.restoreCalls 5 + 1)
      else restoreOrder

/-- A call that got to `start` has left `p'` as it found `p`, except where a restoring call
has failed, and has wiped the buffers unless it was echoing. -/
structure AsFound (start : Start) (config : Config) (p p' : Process) : Prop where
  attrs : p'.world.attrs = p.world.attrs ∨ start = .begun ∧ p.world.afterSetUp.attrsRestored = false
  actions : ∀ sig, p'.world.actions sig = p.world.actions sig ∨
    start = .begun ∧ p.world.afterSetUp.failedRestore = some sig
  wiped : config.echoMode ≠ 1 → p'.screen.io.Wiped (closingText p'.terminfo)

/-- `init` has changed nothing it does not undo when it gives up, nor has `deinit` left out
a call behind a failed one, and the buffers are wiped where they have to be. -/
structure Undoes (start : Start) (config : Config) (w : World) : Prop where
  attrs : start = .gaveUp → w.isTty = true → w.attrsReady = true → w.attrs.raw = w.attrs
  actions : ∀ sig ∈ w.abandoned start, handlerOf sig = w.actions sig
  wiped : config.echoMode = 1 ∨ start = .begun ∧ w.afterSetUp.tornDown = true

theorem leavesRaw_iff (w : World) (start : Start) :
    ((if w.leavesRaw start then w.attrs.raw else w.attrs) = w.attrs ∨
        start = .begun ∧ w.afterSetUp.attrsRestored = false) ↔
      (start = .gaveUp → w.isTty = true → w.attrsReady = true → w.attrs.raw = w.attrs) := by
  cases start with
  | refused => simp [World.leavesRaw]
  | gaveUp => cases htty : w.isTty <;> cases hready : w.attrsReady <;> simp [World.leavesRaw, htty, hready]
  | begun => cases hrestored : w.afterSetUp.attrsRestored <;> simp [World.leavesRaw, hrestored]

theorem mem_drop_succ {sig : Signal} {n : Nat} :
    sig ∈ restoreOrder.drop (n + 1) ↔ sig ∈ restoreOrder.drop n ∧ restoreOrder[n]? ≠ some sig := by
  by_cases hn : n < restoreOrder.length
  · have hone : (restoreOrder.drop n).Nodup := (show restoreOrder.Nodup by decide).drop
    rw [List.drop_eq_getElem_cons hn, List.nodup_cons] at hone
    rw [List.drop_eq_getElem_cons hn, List.mem_cons, List.getElem?_eq_getElem hn]
    constructor
    · intro hmem
      refine ⟨.inr hmem, fun heq => hone.1 ?_⟩
      rw [Option.some.inj heq]
      exact hmem
    · intro h
      exact h.1.resolve_left fun heq => h.2 (congrArg some heq.symm)
  · have hall : restoreOrder.drop n = [] := List.drop_of_length_le (by omega)
    have hsucc : restoreOrder.drop (n + 1) = [] := List.drop_of_length_le (by omega)
    simp [hall, hsucc]

theorem mem_abandoned (w : World) (start : Start) (sig : Signal) :
    sig ∈ w.abandoned start ↔ sig ∈ w.leavesHandled start ∧
      ¬(start = .begun ∧ w.afterSetUp.failedRestore = some sig) := by
  cases start with
  | refused => simp [World.abandoned, World.leavesHandled]
  | gaveUp => simp [World.abandoned, World.leavesHandled]
  | begun =>
    cases hrestored : w.afterSetUp.attrsRestored with
    | false =>
      simp [World.abandoned, World.leavesHandled, World.failedRestore, World.signalsRestored, hrestored]
    | true =>
      simp [World.abandoned, World.leavesHandled, World.failedRestore, World.signalsRestored, hrestored,
        mem_drop_succ]

theorem leavesHandled_iff (w : World) (start : Start) :
    (∀ sig, (if sig ∈ w.leavesHandled start then handlerOf sig else w.actions sig) = w.actions sig ∨
        start = .begun ∧ w.afterSetUp.failedRestore = some sig) ↔
      ∀ sig ∈ w.abandoned start, handlerOf sig = w.actions sig := by
  constructor
  · intro h sig hsig
    obtain ⟨hleft, hnot⟩ := (mem_abandoned w start sig).mp hsig
    have heq := (h sig).resolve_right hnot
    rwa [if_pos hleft] at heq
  · intro h sig
    by_cases hfailed : start = .begun ∧ w.afterSetUp.failedRestore = some sig
    · exact .inr hfailed
    · refine .inl ?_
      split
      · rename_i hleft
        exact h sig ((mem_abandoned w start sig).mpr ⟨hleft, hfailed⟩)
      · rfl

theorem checkArgs_on {config : Config} {mode : EchoMode} (h : checkArgs config = some mode) :
    mode = .on ↔ config.echoMode = 1 := by
  unfold checkArgs at h
  split at h
  · cases h
  · unfold EchoMode.ofCode at h
    split at h <;> cases h <;> simp_all

section AsFound

variable {P : Platform} {env : Environment} {config : Config} {fuel : Nat} {p p' : Process}
  {result : NanorlResult}

theorem not_wiped {closing : List Byte} {io : Io} (h : ∃ i < ioBufSize, io.rdBuf i ≠ 0) :
    ¬io.Wiped closing := fun hwiped => by
  obtain ⟨i, hi, hne⟩ := h
  exact hne (hwiped i hi).1

/-- A session wipes the buffers if `deinit` gets there. -/
theorem begun_wiped_iff (hstop : P.StopLaw) (h : nanorl P fuel env config p = .ok (result, p'))
    (hbegun : startOf P env config p = .begun) (hmode : config.echoMode ≠ 1) :
    p'.screen.io.Wiped (closingText p'.terminfo) ↔ p.world.afterSetUp.tornDown = true := by
  rcases nanorl_cases h with ⟨hstart, -⟩ | ⟨hstart, -⟩ |
    ⟨-, mode, p₁, buffer, e, done, ⟨hargs, hinit, hloop⟩, hdeinit, -⟩
  · simp [hstart] at hbegun
  · simp [hstart] at hbegun
  · have hleaves : InitLeaves true p.world p₁ :=
      .of_started ((init_leaves P env config mode p.started).of_ok hinit)
    have hsame : p₁.screen.io.SameTerminal e.screen.io := (Io.SameTerminal.frame P).readLoop hloop
    have hdone : DeinitLeaves mode { p₁ with screen := e.screen } p' := (deinit_leaves P mode _).of_ok hdeinit
    have htorn : Process.world { p₁ with screen := e.screen } = e.screen.io.world := rfl
    have htorn : (Process.world { p₁ with screen := e.screen }).tornDown = p.world.afterSetUp.tornDown := by
      rw [htorn, World.tornDown, World.attrsRestored, World.restoreCalls, hsame.isTty, hsame.calls]
      have hcalls : p₁.screen.io.world.calls = p.world.signalCalls.drop 5 := hleaves.calls rfl
      have htty : p₁.screen.io.world.isTty = p.world.isTty := hleaves.isTty
      rw [hcalls, htty]
      rfl
    cases hall : p.world.afterSetUp.tornDown with
    | true =>
      refine iff_of_true (hdone.wiped (htorn.trans hall) fun hon => ?_) rfl
      exact hmode ((checkArgs_on hargs).mp hon)
    | false =>
      refine iff_of_false (not_wiped ?_) nofun
      rw [hdone.kept (htorn.trans hall)]
      exact readLoop_stop hstop hloop

/-- A call without a session leaves the buffers as they are. -/
theorem abandoned_rdBuf (hstart : startOf P env config p ≠ .begun)
    (h : nanorl P fuel env config p = .ok (result, p')) (mem : Nat → Byte) :
    ∃ p'', nanorl P fuel env config (p.withRdBuf mem) = .ok (result, p'') ∧ p''.screen.io.rdBuf = mem := by
  have hsame : ∀ mode, Same (RdBufApart mem) (init P env config mode p.started)
      (init P env config mode (p.withRdBuf mem).started) :=
    fun mode => init_rdBuf P mem env config mode p.started
  rcases nanorl_cases h with ⟨hrefused, rfl, -⟩ | ⟨hgaveUp, -, mode, hargs, hinit⟩ | ⟨hbegun, -⟩
  · refine ⟨(p.withRdBuf mem).started, ?_, rfl⟩
    unfold startOf at hrefused
    unfold nanorl at h ⊢
    cases hargs : checkArgs config with
    | none =>
      rw [hargs] at h
      rw [← (Prod.mk.inj (Except.ok.inj h)).1]
      rfl
    | some mode =>
      rw [hargs] at hrefused
      dsimp only at hrefused
      split at hrefused <;> cases hrefused
  · obtain ⟨⟨_, p''⟩, hinit', rfl, rfl⟩ := (hsame mode).of_ok hinit
    refine ⟨p'.withRdBuf mem, ?_, rfl⟩
    unfold nanorl at h ⊢
    rw [hargs] at h ⊢
    obtain ⟨r, hr, h⟩ := Run.bind_eq_ok.mp h
    obtain rfl := Except.ok.inj (hr.symm.trans hinit)
    obtain ⟨rfl, -⟩ := Prod.mk.inj (Except.ok.inj h)
    exact Run.bind_eq_ok.mpr ⟨_, hinit', rfl⟩
  · exact absurd hbegun hstart

theorem startOf_rdBuf (mem : Nat → Byte) :
    startOf P env config (p.withRdBuf mem) = startOf P env config p := by
  unfold startOf
  cases checkArgs config with
  | none => rfl
  | some mode =>
    have hsame : Same (RdBufApart mem) (init P env config mode p.started)
        (init P env config mode (p.withRdBuf mem).started) := init_rdBuf P mem env config mode p.started
    dsimp only
    cases hinit : init P env config mode p.started with
    | error f =>
      rw [hinit] at hsame
      generalize init P env config mode (p.withRdBuf mem).started = y at hsame
      cases hsame
      rfl
    | ok r =>
      obtain ⟨ready, p₁⟩ := r
      obtain ⟨⟨_, _⟩, hinit', rfl, rfl⟩ := hsame.of_ok hinit
      rw [hinit']
      cases ready <;> rfl

/-- Whatever an earlier call has left in `rd_buf`, a call leaves the terminal, the signals
and the buffers as found if and only if it has nothing to undo where it gives up. -/
theorem nanorl_asFound_iff (hstop : P.StopLaw) (h : nanorl P fuel env config p = .ok (result, p')) :
    (∀ mem result p', nanorl P fuel env config (p.withRdBuf mem) = .ok (result, p') →
        AsFound (startOf P env config p) config p p') ↔
      Undoes (startOf P env config p) config p.world := by
  constructor
  · intro hfound
    obtain ⟨hattrs, hactions, hwiped⟩ := hfound p.screen.io.rdBuf result p' h
    obtain ⟨hattrs', hactions'⟩ := nanorl_leaves h
    rw [hattrs'] at hattrs
    simp only [hactions'] at hactions
    refine ⟨(leavesRaw_iff _ _).mp hattrs, (leavesHandled_iff _ _).mp hactions, ?_⟩
    by_cases hmode : config.echoMode = 1
    · exact .inl hmode
    · by_cases hbegun : startOf P env config p = .begun
      · exact .inr ⟨hbegun, (begun_wiped_iff hstop h hbegun hmode).mp (hwiped hmode)⟩
      · obtain ⟨p'', hrun, hrdBuf⟩ := abandoned_rdBuf hbegun h fun _ => 1
        have hzero := ((hfound _ _ _ hrun).wiped hmode 0 (by decide)).1
        rw [hrdBuf] at hzero
        exact absurd hzero (by decide)
  · intro hundoes mem result₁ p₁ hrun
    obtain ⟨hattrs, hactions⟩ := nanorl_leaves hrun
    rw [startOf_rdBuf] at hattrs hactions
    have hworld : (p.withRdBuf mem).world = p.world := rfl
    rw [hworld] at hattrs hactions
    refine ⟨?_, ?_, fun hmode => ?_⟩
    · rw [hattrs]
      exact (leavesRaw_iff _ _).mpr hundoes.attrs
    · simp only [hactions]
      exact (leavesHandled_iff _ _).mpr hundoes.actions
    · obtain ⟨hbegun, htorn⟩ := hundoes.wiped.resolve_left hmode
      exact (begun_wiped_iff hstop hrun ((startOf_rdBuf mem).trans hbegun) hmode).mpr htorn

end AsFound

/-- The static data before the first call, at a terminal. -/
def ttyProcess (calls : List SysResult) (reads : List ReadResult) : Process :=
  (staticProcess reads).setWorld { (staticProcess reads).world with isTty := true, calls }

/-- A silent session at a terminal where every call succeeds. -/
theorem nanorl_asFound_iff_silent : ∃ result p',
    nanorl referencePlatform 3 (bareEnvironment none) silentConf (ttyProcess [] [.data [97, 10]]) =
        .ok (result, p') ∧
      AsFound (startOf referencePlatform (bareEnvironment none) silentConf
        (ttyProcess [] [.data [97, 10]])) silentConf (ttyProcess [] [.data [97, 10]]) p' := by
  have hrun : (nanorl referencePlatform 3 (bareEnvironment none) silentConf
      (ttyProcess [] [.data [97, 10]])).map Prod.fst = .ok { data := some [97], error := .ok } := by
    decide +kernel
  have hbegun : startOf referencePlatform (bareEnvironment none) silentConf
      (ttyProcess [] [.data [97, 10]]) = .begun := by
    decide +kernel
  obtain ⟨r, hcall, -⟩ := Run.map_eq_ok.mp hrun
  refine ⟨r.1, r.2, hcall, (nanorl_asFound_iff referencePlatform_stop hcall).mpr ?_
    (ttyProcess [] [.data [97, 10]]).screen.io.rdBuf r.1 r.2 hcall⟩
  rw [hbegun]
  exact ⟨nofun, by decide +kernel, .inr ⟨rfl, by decide +kernel⟩⟩

/-- The first `sigaction` fails: the terminal stays without echo and line editing, though
no call to restore it has been made. -/
theorem nanorl_keepsRaw :
    (nanorl referencePlatform 3 (bareEnvironment none) silentConf
        (ttyProcess [.done, .done, .failed .other] [])).map (fun r => (r.1.error, r.2.world.attrs)) =
      .ok (.system, { icanon := false, echo := false, rest := 0 }) ∧
    ∀ result p', nanorl referencePlatform 3 (bareEnvironment none) silentConf
        (ttyProcess [.done, .done, .failed .other] []) = .ok (result, p') →
      ¬AsFound (startOf referencePlatform (bareEnvironment none) silentConf
        (ttyProcess [.done, .done, .failed .other] [])) silentConf
        (ttyProcess [.done, .done, .failed .other] []) p' := by
  have hrun : (nanorl referencePlatform 3 (bareEnvironment none) silentConf
      (ttyProcess [.done, .done, .failed .other] [])).map (fun r => (r.1.error, r.2.world.attrs)) =
      .ok (.system, { icanon := false, echo := false, rest := 0 }) := by
    decide +kernel
  have hgaveUp : startOf referencePlatform (bareEnvironment none) silentConf
      (ttyProcess [.done, .done, .failed .other] []) = .gaveUp := by
    decide +kernel
  refine ⟨hrun, fun result p' hcall hfound => ?_⟩
  rw [hcall] at hrun
  rw [hgaveUp] at hfound
  have hattrs : p'.world.attrs = { icanon := false, echo := false, rest := 0 } :=
    (Prod.mk.inj (Except.ok.inj hrun)).2
  rcases hfound.attrs with hsame | ⟨hbegun, -⟩
  · rw [hattrs] at hsame
    exact absurd hsame (by decide)
  · cases hbegun

end Nanorl
