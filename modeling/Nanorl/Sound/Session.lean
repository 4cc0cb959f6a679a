import Nanorl.Sound.Chunks
import Nanorl.Sound.Terminfo
import Nanorl.Sound.Text

/-!
# Nanorl.Sound.Session

A whole call of `nanorl` without an echo.

Where every system call does its work, setting up and tearing down only frame the
read loop, and the description that one call has loaded serves the next. So a call
returns the text before the newline, and hands on what it has not read
(`nanorl_line`).
-/

namespace Nanorl

open PrefixCode (PrefixFree)

/-! ### A world that serves -/

/-- Every call and every write that is still to come succeeds, and none has been
interrupted. -/
structure World.Obliging (w : World) : Prop where
  calls : ∀ r ∈ w.calls, r = .done
  writes : w.WritesComplete
  errno : w.errno ≠ .eintr

/-- `w'` is what a successful call leaves of `w`. -/
structure World.Serves (w w' : World) : Prop where
  reads : w'.reads = w.reads
  obliging : w'.Obliging

theorem World.Serves.trans {w₁ w₂ w₃ : World} (h : w₁.Serves w₂) (h' : w₂.Serves w₃) :
    w₁.Serves w₃ := ⟨h'.reads.trans h.reads, h'.obliging⟩

theorem World.Obliging.refl {w : World} (h : w.Obliging) : w.Serves w := ⟨rfl, h⟩

theorem World.Obliging.call {w : World} (h : w.Obliging) :
    ∃ w', w.call = (true, w') ∧ w.Serves w' := by
  unfold World.call
  cases hc : w.calls with
  | nil => exact ⟨w, rfl, rfl, h⟩
  | cons r cs =>
    obtain rfl : r = .done := h.calls r (hc ▸ List.mem_cons_self)
    exact ⟨_, rfl, rfl, ⟨fun r hr => h.calls r (hc ▸ List.mem_cons_of_mem _ hr), h.writes, h.errno⟩⟩

theorem World.Obliging.tcgetattr {w : World} (h : w.Obliging) :
    ∃ attrs w', w.tcgetattr = (some attrs, w') ∧ w.Serves w' := by
  obtain ⟨w', hcall, hserves⟩ := h.call
  exact ⟨w'.attrs, w', by rw [World.tcgetattr, hcall], hserves⟩

theorem World.Obliging.tcsetattr {w : World} (h : w.Obliging) (attrs : Termios) :
    ∃ w', w.tcsetattr attrs = (true, w') ∧ w.Serves w' := by
  obtain ⟨w', hcall, hserves⟩ := h.call
  exact ⟨{ w' with attrs }, by rw [World.tcsetattr, hcall], hserves.reads,
    hserves.obliging.calls, hserves.obliging.writes, hserves.obliging.errno⟩

theorem World.Obliging.sigaction {w : World} (h : w.Obliging) (sig : Signal) (act : SigAction) :
    ∃ old w', w.sigaction sig act = (some old, w') ∧ w.Serves w' := by
  obtain ⟨w', hcall, hserves⟩ := h.call
  refine ⟨w'.actions sig, { w' with actions := fun s => if s = sig then act else w'.actions s }, ?_,
    hserves.reads, hserves.obliging.calls, hserves.obliging.writes, hserves.obliging.errno⟩
  rw [World.sigaction, hcall]

theorem World.Obliging.isatty {w : World} (h : w.Obliging) :
    ∃ tty w', w.isatty = (tty, w') ∧ w.Serves w' := by
  unfold World.isatty
  split
  · exact ⟨true, w, rfl, rfl, h⟩
  · exact ⟨false, _, rfl, rfl, h.calls, h.writes, nofun⟩

theorem World.Obliging.write {w : World} (h : w.Obliging) (data : List Byte) :
    ∃ w', w.write data = ((data.length : Int), w') ∧ w.Serves w' := by
  unfold World.write
  cases hw : w.writes with
  | nil => exact ⟨_, rfl, rfl, h.calls, fun r hr => absurd hr List.not_mem_nil, h.errno⟩
  | cons r ws =>
    obtain rfl : r = .complete := h.writes r (hw ▸ List.mem_cons_self)
    exact ⟨_, rfl, rfl, h.calls, fun r hr => h.writes r (hw ▸ List.mem_cons_of_mem _ hr), h.errno⟩

/-! ### Output that arrives -/

/-- The echo side of `io.c` works. -/
structure Io.CanWrite (io : Io) : Prop where
  echoFile : io.echoFile ≠ -1
  wrCount : io.wrCount ≤ ioBufSize
  world : io.world.Obliging

/-- `io'` is `io` after some output: the reader is untouched. -/
structure Io.Echoes (io io' : Io) : Prop where
  readFile : io'.readFile = io.readFile
  echoFile : io'.echoFile = io.echoFile
  rdBuf : io'.rdBuf = io.rdBuf
  rdCount : io'.rdCount = io.rdCount
  rdUsed : io'.rdUsed = io.rdUsed
  rdPending : io'.rdPending = io.rdPending
  preloadData : io'.preloadData = io.preloadData
  echoEnabled : io'.echoEnabled = io.echoEnabled
  wrCount : io'.wrCount ≤ ioBufSize
  world : io.world.Serves io'.world

theorem Io.Echoes.canWrite {io io' : Io} (h : io.Echoes io') (hcan : io.CanWrite) : io'.CanWrite :=
  ⟨fun heq => hcan.echoFile (h.echoFile.symm.trans heq), h.wrCount, h.world.obliging⟩

theorem Io.CanWrite.echoes {io : Io} (h : io.CanWrite) : io.Echoes io :=
  ⟨rfl, rfl, rfl, rfl, rfl, rfl, rfl, rfl, h.wrCount, rfl, h.world⟩

theorem Io.Echoes.trans {io₁ io₂ io₃ : Io} (h : io₁.Echoes io₂) (h' : io₂.Echoes io₃) :
    io₁.Echoes io₃ :=
  ⟨h'.readFile.trans h.readFile, h'.echoFile.trans h.echoFile, h'.rdBuf.trans h.rdBuf,
    h'.rdCount.trans h.rdCount, h'.rdUsed.trans h.rdUsed, h'.rdPending.trans h.rdPending,
    h'.preloadData.trans h.preloadData, h'.echoEnabled.trans h.echoEnabled, h'.wrCount,
    h.world.trans h'.world⟩

section Output

variable (P : Platform) {io : Io}

theorem nrlIoFlush_ok (h : io.CanWrite) :
    ∃ io', nrlIoFlush P io = .ok (true, io') ∧ io.Echoes io' ∧ io'.wrCount = 0 := by
  unfold nrlIoFlush
  rw [P.assert_of _ (decide_eq_true h.echoFile), Run.ok_bind]
  split
  · rename_i hzero
    exact ⟨io, rfl, h.echoes, hzero⟩
  · obtain ⟨w', hwrite, hserves⟩ := h.world.write (slice io.wrBuf 0 io.wrCount)
    rw [hwrite, length_slice]
    dsimp only
    rw [if_neg (by simp)]
    exact ⟨_, rfl, ⟨rfl, rfl, rfl, rfl, rfl, rfl, rfl, rfl, Nat.zero_le _, hserves⟩, rfl⟩

theorem bufferData_ok (h : io.CanWrite) (data : List Byte)
    (hfit : ioBufSize < data.length ∨ io.wrCount + data.length ≤ ioBufSize) :
    ∃ io', bufferData data io = .ok (true, io') ∧ io.Echoes io' := by
  unfold bufferData
  split
  · obtain ⟨w', hwrite, hserves⟩ := h.world.write data
    rw [hwrite]
    refine ⟨{ io with world := w' }, ?_, rfl, rfl, rfl, rfl, rfl, rfl, rfl, rfl, h.wrCount, hserves⟩
    simp
  · rename_i hsmall
    have hroom := hfit.resolve_left hsmall
    rw [if_pos hroom]
    exact ⟨_, rfl, rfl, rfl, rfl, rfl, rfl, rfl, rfl, rfl, hroom, h.world.refl⟩

theorem nrlIoWrite_ok (h : io.CanWrite) (data : List Byte) :
    ∃ io', nrlIoWrite P data io = .ok (true, io') ∧ io.Echoes io' := by
  have hcount := h.wrCount
  unfold nrlIoWrite
  split
  · split
    · obtain ⟨io₁, hflush, hechoes, hzero⟩ := nrlIoFlush_ok P h
      rw [hflush, Run.ok_bind]
      dsimp only
      rw [if_pos rfl]
      obtain ⟨io₂, hbuffer, hechoes₂⟩ := bufferData_ok (hechoes.canWrite h) data
        (by rw [hzero, Nat.zero_add]; exact Nat.lt_or_ge _ _)
      exact ⟨io₂, hbuffer, hechoes.trans hechoes₂⟩
    · rename_i hsmall
      refine bufferData_ok h data ?_
      by_cases hlarge : ioBufSize < data.length
      · exact Or.inl hlarge
      · right
        unfold ioBufSize at *
        omega
  · exact ⟨io, rfl, h.echoes⟩

theorem nrlIoWriteEscape_ok (h : io.CanWrite) (t : Terminfo) (escape : TerminfoOutput) :
    ∃ io', nrlIoWriteEscape P t escape io = .ok (true, io') ∧ io.Echoes io' := by
  unfold nrlIoWriteEscape
  split
  · exact ⟨io, rfl, h.echoes⟩
  · exact nrlIoWrite_ok P h _

end Output

/-! ### Setting up and tearing down -/

/-- `p'` is `p` after terminal and signal calls. -/
structure Process.Serves (p p' : Process) : Prop where
  terminfo : p'.terminfo = p.terminfo
  root : p'.root = p.root
  screen : ∃ world, p'.screen = { p.screen with io := { p.screen.io with world } } ∧
    p.world.Serves world

theorem Process.Serves.trans {p₁ p₂ p₃ : Process} (h : p₁.Serves p₂) (h' : p₂.Serves p₃) :
    p₁.Serves p₃ := by
  obtain ⟨w₂, hs₂, hw₂⟩ := h.screen
  obtain ⟨w₃, hs₃, hw₃⟩ := h'.screen
  refine ⟨h'.terminfo.trans h.terminfo, h'.root.trans h.root, w₃, by rw [hs₃, hs₂], hw₂.trans ?_⟩
  rw [Process.world, hs₂] at hw₃
  exact hw₃

theorem Process.Serves.serves {p p' : Process} (h : p.Serves p') : p.world.Serves p'.world := by
  obtain ⟨w, hs, hw⟩ := h.screen
  unfold Process.world at hw ⊢
  rw [hs]
  exact hw

theorem Process.Serves.obliging {p p' : Process} (h : p.Serves p') : p'.world.Obliging :=
  h.serves.obliging

theorem setAttrs_ok {p : Process} (h : p.world.Obliging) :
    ∃ p', setAttrs p = (true, p') ∧ p.Serves p' := by
  unfold setAttrs
  obtain ⟨tty, w₁, htty, h₁⟩ := h.isatty
  rw [htty]
  cases tty with
  | false => exact ⟨_, rfl, rfl, rfl, w₁, rfl, h₁⟩
  | true =>
    obtain ⟨attrs, w₂, hget, h₂⟩ := h₁.obliging.tcgetattr
    obtain ⟨w₃, hset, h₃⟩ := h₂.obliging.tcsetattr { attrs with icanon := false, echo := false }
    dsimp only
    rw [hget]
    dsimp only
    rw [hset]
    exact ⟨_, rfl, rfl, rfl, w₃, rfl, h₁.trans (h₂.trans h₃)⟩

theorem setSignals_ok (sigs : List (Signal × SigAction)) {p : Process} (h : p.world.Obliging) :
    ∃ p', setSignals sigs p = (true, p') ∧ p.Serves p' := by
  induction sigs generalizing p with
  | nil => exact ⟨p, rfl, rfl, rfl, p.world, rfl, h.refl⟩
  | cons sa sigs ih =>
    obtain ⟨sig, act⟩ := sa
    obtain ⟨old, w, hsig, hw⟩ := h.sigaction sig act
    obtain ⟨p', hrest, hserves⟩ := ih (p := Process.setWorld
      { p with oldActions := fun s => if s = sig then old else p.oldActions s } w) hw.obliging
    have hfirst : p.Serves (Process.setWorld
        { p with oldActions := fun s => if s = sig then old else p.oldActions s } w) :=
      ⟨rfl, rfl, w, rfl, hw⟩
    refine ⟨p', ?_, hfirst.trans hserves⟩
    rw [setSignals, hsig]
    exact hrest

theorem restoreAttrs_ok {p : Process} (h : p.world.Obliging) :
    ∃ p', restoreAttrs p = (true, p') ∧ p.Serves p' := by
  unfold restoreAttrs
  obtain ⟨tty, w₁, htty, h₁⟩ := h.isatty
  rw [htty]
  cases tty with
  | false => exact ⟨_, rfl, rfl, rfl, w₁, rfl, h₁⟩
  | true =>
    obtain ⟨w₂, hset, h₂⟩ := h₁.obliging.tcsetattr p.oldAttrs
    dsimp only
    rw [hset]
    exact ⟨_, rfl, rfl, rfl, w₂, rfl, h₁.trans h₂⟩

theorem restoreSignals_ok (sigs : List Signal) {p : Process} (h : p.world.Obliging) :
    ∃ p', restoreSignals sigs p = (true, p') ∧ p.Serves p' := by
  induction sigs generalizing p with
  | nil => exact ⟨p, rfl, rfl, rfl, p.world, rfl, h.refl⟩
  | cons sig sigs ih =>
    obtain ⟨old, w, hsig, hw⟩ := h.sigaction sig (p.oldActions sig)
    obtain ⟨p', hrest, hserves⟩ := ih (p := p.setWorld w) hw.obliging
    have hfirst : p.Serves (p.setWorld w) := ⟨rfl, rfl, w, rfl, hw⟩
    refine ⟨p', ?_, hfirst.trans hserves⟩
    rw [restoreSignals, hsig]
    exact hrest

/-! ### The terminal description -/

/-- A description is looked for once. -/
theorem nrlLoadTerminfo_again {env : Environment} {t t' : Terminfo} {r : Bool}
    (hfresh : t.attemptedLoad = false → t.loadResult = false)
    (h : nrlLoadTerminfo env t = .ok (r, t')) :
    t'.attemptedLoad = true ∧ nrlLoadTerminfo env t' = .ok (r, t') := by
  suffices hload : t'.attemptedLoad = true ∧ t'.loadResult = r by
    refine ⟨hload.1, ?_⟩
    rw [nrlLoadTerminfo, if_pos hload.1, hload.2]
  unfold nrlLoadTerminfo at h
  split at h
  · rename_i hattempted
    obtain ⟨rfl, rfl⟩ := Prod.mk.inj (Except.ok.inj h)
    exact ⟨hattempted, rfl⟩
  · rename_i hattempted
    have hresult := hfresh (by simpa using hattempted)
    dsimp only at h
    split at h
    · obtain ⟨rfl, rfl⟩ := Prod.mk.inj (Except.ok.inj h)
      exact ⟨rfl, hresult⟩
    · split at h
      · obtain ⟨rfl, rfl⟩ := Prod.mk.inj (Except.ok.inj h)
        exact ⟨rfl, rfl⟩
      · split at h
        · obtain ⟨rfl, rfl⟩ := Prod.mk.inj (Except.ok.inj h)
          exact ⟨rfl, hresult⟩
        · obtain ⟨⟨res, t₁⟩, hparse, h⟩ := Run.bind_eq_ok.mp h
          obtain ⟨rfl, rfl⟩ := Prod.mk.inj (Except.ok.inj h)
          exact ⟨((parse_fills _ _).of_ok hparse).attemptedLoad, rfl⟩

/-- The process has loaded, or will load, a description whose keys are `W`, and can
build a tree of them; or there is no description. -/
inductive Process.Loads (env : Environment) (p : Process) : Set (List Byte) → Prop
  | found {t : Terminfo} {envTerm : List Byte} (hload : nrlLoadTerminfo env p.terminfo = .ok (true, t))
      (henv : env.term = some envTerm) (ht : t.Loadable) (hfree : PrefixFree (dfaSequences t envTerm))
      (hroot : p.root = dfaRoot ∨ TreeOf (dfaSequences t envTerm) p.root) :
      p.Loads env (dfaSequences t envTerm)
  | missing {t : Terminfo} (hload : nrlLoadTerminfo env p.terminfo = .ok (false, t))
      (hroot : p.root = dfaRoot) : p.Loads env ∅

theorem Process.Loads.nil_not_mem {env : Environment} {W : Set (List Byte)} {p : Process} (h : p.Loads env W) :
    [] ∉ W := by
  cases h with
  | found _ _ ht _ _ => exact fun ⟨e, he, hnil⟩ => ht.sequence_ne_nil _ e he hnil
  | missing _ _ => exact Set.notMem_empty _

theorem loadDfa_ok {env : Environment} {W : Set (List Byte)} {p : Process}
    (hfresh : p.terminfo.attemptedLoad = false → p.terminfo.loadResult = false) (h : p.Loads env W) :
    ∃ t root, loadDfa env p = .ok { p with terminfo := t, root } ∧ t.attemptedLoad = true ∧
      TreeOf W root ∧ ∀ p' : Process, p'.terminfo = t → p'.root = root → p'.Loads env W := by
  cases h with
  | @found t envTerm hload henv ht hfree hroot =>
    obtain ⟨hattempted, hagain⟩ := nrlLoadTerminfo_again hfresh hload
    obtain ⟨root, hbuild, hT⟩ : ∃ root, nrlDfaBuild t envTerm p.root = .ok root ∧
        TreeOf (dfaSequences t envTerm) root := by
      rcases hroot with hroot | hT
      · obtain ⟨root, hbuild⟩ := (nrlDfaBuild_ok_iff ht envTerm).mpr hfree
        exact ⟨root, hroot ▸ hbuild, nrlDfaBuild_treeOf ht hbuild⟩
      · exact nrlDfaBuild_again ht hfree hT
    refine ⟨t, root, ?_, hattempted, hT, ?_⟩
    · rw [loadDfa, hload, Run.ok_bind]
      dsimp only
      rw [if_pos rfl, henv]
      dsimp only
      rw [hbuild]
      rfl
    · intro p' hterminfo hroot'
      subst hterminfo hroot'
      exact .found hagain henv ht hfree (.inr hT)
  | @missing t hload hroot =>
    obtain ⟨hattempted, hagain⟩ := nrlLoadTerminfo_again hfresh hload
    refine ⟨t, p.root, ?_, hattempted, hroot ▸ treeOf_empty, ?_⟩
    · rw [loadDfa, hload, Run.ok_bind]
      rfl
    · intro p' hterminfo hroot'
      subst hterminfo
      exact .missing hagain (hroot'.trans hroot)

section Session

variable (P : Platform)

/-- The reader and the echo side as `init` leaves them without an echo. -/
structure Io.Opened (config : Config) (io : Io) : Prop where
  readFile : io.readFile = config.readFile
  echoFile : io.echoFile = config.echoFile
  rdCount : io.rdCount = 0
  rdUsed : io.rdUsed = 0
  rdPending : io.rdPending = 0
  preloadData : io.preloadData = config.preload
  wrCount : io.wrCount = 0

theorem writeKeypad_ok {io : Io} (h : io.CanWrite) (config : Config) (t : Terminfo) :
    ∃ io', writeKeypad P config t io = .ok (true, io') ∧ io.Echoes io' := by
  unfold writeKeypad
  split
  · exact ⟨io, rfl, h.echoes⟩
  · exact nrlIoWriteEscape_ok P h t _

theorem writePrompt_ok {io : Io} (h : io.CanWrite) (config : Config) :
    ∃ io', writePrompt P config io = .ok (true, io') ∧ io.Echoes io' := by
  unfold writePrompt
  split
  · exact ⟨io, rfl, h.echoes⟩
  · exact nrlIoWrite_ok P h _

theorem initOutput_ok (config : Config) (hecho : 0 ≤ config.echoFile) {p : Process}
    (h : p.world.Obliging) :
    ∃ io, initOutput P config .off p = .ok (true, p.setIo io) ∧ io.Opened config ∧
      p.world.Serves io.world := by
  have hcan : (nrlIoInit config.readFile config.echoFile config.preload
      (nrlIoEchoState true p.screen.io)).CanWrite :=
    ⟨fun heq => by have : config.echoFile = -1 := heq; omega, Nat.zero_le _, h⟩
  obtain ⟨io₁, hkeypad, hechoes₁⟩ := writeKeypad_ok P hcan config p.terminfo
  obtain ⟨io₂, hprompt, hechoes₂⟩ := writePrompt_ok P (hechoes₁.canWrite hcan) config
  have hechoes := hechoes₁.trans hechoes₂
  have hcan₂ := hechoes.canWrite hcan
  have hcan₃ : (nrlIoEchoState false io₂).CanWrite := ⟨hcan₂.echoFile, hcan₂.wrCount, hcan₂.world⟩
  obtain ⟨io₃, hflush, hechoes₃, hzero⟩ := nrlIoFlush_ok P hcan₃
  refine ⟨io₃, ?_, ?_, hechoes.world.trans hechoes₃.world⟩
  · rw [initOutput, hkeypad, Run.ok_bind]
    dsimp only
    rw [if_neg (by decide), hprompt, Run.ok_bind]
    dsimp only
    rw [if_neg (by decide), if_neg (by decide)]
    exact (congrArg (· >>= _) hflush).trans rfl
  · exact ⟨hechoes₃.readFile.trans hechoes.readFile, hechoes₃.echoFile.trans hechoes.echoFile,
      hechoes₃.rdCount.trans hechoes.rdCount, hechoes₃.rdUsed.trans hechoes.rdUsed,
      hechoes₃.rdPending.trans hechoes.rdPending, hechoes₃.preloadData.trans hechoes.preloadData, hzero⟩

/-- A configuration for input without an echo. -/
structure Config.Silent (config : Config) : Prop where
  readFile : 0 ≤ config.readFile
  echoFile : 0 ≤ config.echoFile
  echoMode : config.echoMode = 0

theorem Config.Silent.checkArgs {config : Config} (h : config.Silent) :
    Nanorl.checkArgs config = some .off := by
  have hread := h.readFile
  have hecho := h.echoFile
  rw [Nanorl.checkArgs, if_neg (by omega), h.echoMode]
  rfl

/-- Between two calls of a process that no system call fails: no error has been
reported, and the description is loaded or can be. -/
structure Process.Serviceable (env : Environment) (W : Set (List Byte)) (p : Process) : Prop where
  calls : ∀ r ∈ p.world.calls, r = .done
  writes : p.world.WritesComplete
  reads : NoFailure p.world.reads
  fresh : p.terminfo.attemptedLoad = false → p.terminfo.loadResult = false
  loads : p.Loads env W

variable {env : Environment} {W : Set (List Byte)} {config : Config}

theorem init_ok (hconfig : config.Silent) {p : Process} (h : p.world.Obliging)
    (hfresh : p.terminfo.attemptedLoad = false → p.terminfo.loadResult = false)
    (hloads : p.Loads env W) :
    ∃ p', init P env config .off p = .ok (true, p') ∧ p'.screen.io.Opened config ∧
      p'.screen.render.echoMode = .off ∧ p.world.Serves p'.world ∧
      p'.terminfo.attemptedLoad = true ∧ TreeOf W p'.root ∧
      ∀ q : Process, q.terminfo = p'.terminfo → q.root = p'.root → q.Loads env W := by
  obtain ⟨t, root, hload, hattempted, hT, hagain⟩ := loadDfa_ok hfresh hloads
  obtain ⟨p₁, hattrs, hserves₁⟩ := setAttrs_ok (p := { p with terminfo := t, root }) h
  obtain ⟨p₂, hsignals, hserves₂⟩ := setSignals_ok
    [(.winch, .sigwinch), (.hup, .generic), (.int, .generic), (.term, .generic), (.quit, .generic)]
    hserves₁.obliging
  obtain ⟨io, houtput, hopened, hworld⟩ :=
    initOutput_ok P config hconfig.echoFile hserves₂.obliging
  have hserves := hserves₁.trans hserves₂
  refine ⟨{ p₂.setIo io with screen := { io, render := { p₂.screen.render with
      echoMode := .off
      lastRenderedWidth := 0
      termSmart := nrlTermIsSmart p₂.terminfo
      echoFd := config.echoFile
      scrolled := 0 } } }, ?_, hopened, rfl, ?_, ?_, ?_, ?_⟩
  · rw [init, hload, Run.ok_bind]
    dsimp only
    rw [hattrs]
    dsimp only
    rw [if_neg (by decide), hsignals]
    dsimp only
    rw [if_neg (by decide), houtput, Run.ok_bind]
    dsimp only
    rw [if_neg (by decide), nrlRenderInit]
    dsimp only
    rw [if_neg (by simp)]
    rfl
  · exact hserves.serves.trans hworld
  · exact hserves.terminfo ▸ hattempted
  · exact hserves.root ▸ hT
  · exact fun q hq hq' => hagain q (hq.trans hserves.terminfo) (hq'.trans hserves.root)

theorem deinit_ok {p : Process} (h : p.world.Obliging) (hecho : p.screen.io.echoFile ≠ -1)
    (hcount : p.screen.io.wrCount ≤ ioBufSize) :
    ∃ p', deinit P .off p = .ok (true, p') ∧ p'.terminfo = p.terminfo ∧ p'.root = p.root ∧
      p'.screen.io.rdCount = p.screen.io.rdCount ∧ p'.screen.io.rdUsed = p.screen.io.rdUsed ∧
      p.world.Serves p'.world := by
  obtain ⟨p₁, hattrs, hserves₁⟩ :=
    restoreAttrs_ok (p := { p with escapeTable := nrlManipClearCustomTable }) h
  obtain ⟨p₂, hsignals, hserves₂⟩ :=
    restoreSignals_ok [.hup, .int, .term, .quit, .winch] hserves₁.obliging
  have hserves := hserves₁.trans hserves₂
  obtain ⟨w, hscreen, hw⟩ := hserves.screen
  have hcan : (nrlIoEchoState true (nrlIoWipeBuffers p₂.screen.io)).CanWrite := by
    rw [hscreen]
    exact ⟨hecho, hcount, hw.obliging⟩
  obtain ⟨io₁, hnewline, hechoes₁⟩ := nrlIoWrite_ok P hcan [10]
  obtain ⟨io₂, hkeypad, hechoes₂⟩ :=
    nrlIoWriteEscape_ok P (hechoes₁.canWrite hcan) p₂.terminfo .keypadLocal
  obtain ⟨io₃, hflush, hechoes₃, -⟩ :=
    nrlIoFlush_ok P (hechoes₂.canWrite (hechoes₁.canWrite hcan))
  have hechoes := hechoes₁.trans (hechoes₂.trans hechoes₃)
  refine ⟨p₂.setIo io₃, ?_, hserves.terminfo, hserves.root, ?_, ?_, ?_⟩
  · rw [deinit]
    dsimp only
    rw [hattrs]
    dsimp only
    rw [if_neg (by decide), hsignals]
    dsimp only
    rw [if_neg (by decide), deinitOutput, if_pos (by decide), hnewline, Run.ok_bind]
    dsimp only
    rw [if_neg (by decide), hkeypad, Run.ok_bind]
    dsimp only
    rw [if_neg (by decide), hflush]
    rfl
  · exact hechoes.rdCount.trans (by rw [hscreen]; rfl)
  · exact hechoes.rdUsed.trans (by rw [hscreen]; rfl)
  · have hworld := hechoes.world
    rw [hscreen] at hworld
    exact hw.trans hworld

/-! ### One line -/

theorem finishLine_text (hutf8 : P.Utf8Laws) {text : List Char} (htext : ∀ c ∈ text, Printable c)
    {line : LineData} (hline : line.buffer = text.map Char.val) {errno : Errno}
    (herrno : errno ≠ .eintr) :
    finishLine P false line errno = { data := some (utf8 text), error := .ok } := by
  have hzero : (0 : Uchar) ∉ text.map Char.val := by
    rw [List.mem_map]
    intro h
    obtain ⟨c, hc, h0⟩ := h
    have hle := (htext c hc).toNat.1
    rw [h0] at hle
    exact absurd hle (by decide)
  rw [finishLine, if_neg (by simp), hline, cstr_append hzero, hutf8.encode, if_neg herrno]
  rfl

/-- The process behind `errno = 0`. -/
def Process.started (p : Process) : Process := p.setWorld { p.world with errno := .none }

/-- **A call.** It returns the text before the first newline of its input, and leaves
what is behind it to the next call, apart from what it has already read. -/
theorem nanorl_line (hlaw : P.ConsumesAnnounced) (hutf8 : P.Utf8Laws)
    (hconfig : config.Silent) {p : Process} (hp : p.Serviceable env W)
    {text : List Char} (htext : ∀ c ∈ text, Printable c) {rest : Stream' Byte} (hW : Unmatched W text rest)
    (hstream : Source.stream { preload := config.preload, reads := p.world.reads } =
      utf8 text ++ₛ Stream'.cons 10 rest)
    (huncut : ∀ p₁, init P env config .off p.started = .ok (true, p₁) →
      Ready (utf8 text ++ₛ Stream'.cons 10 rest) p₁.screen.io → TreeOf W p₁.root →
        ∀ n, AlongReads P p₁.root (Io.Uncut W) n (freshBuffer, p₁.screen.io))
    {fuel : Nat} (hfuel : text.length < fuel) :
    ∃ p', nanorl P fuel env config p = .ok ({ data := some (utf8 text), error := .ok }, p') ∧
      p'.Serviceable env W ∧
      (config.preload = none → p'.screen.io.rdUsed = p'.screen.io.rdCount →
        readsStream p'.world.reads = rest) := by
  have hobliging : p.started.world.Obliging :=
    ⟨hp.calls, hp.writes, nofun⟩
  have hloads : p.started.Loads env W := by
    cases hp.loads with
    | found hload henv ht hfree hroot => exact .found hload henv ht hfree hroot
    | missing hload hroot => exact .missing hload hroot
  -- setting up
  obtain ⟨p₁, hinit, hopened, hmode, hserves₁, hattempted, hT, hagain⟩ :=
    init_ok P hconfig hobliging hp.fresh hloads
  have hreads₁ : p₁.world.reads = p.world.reads := hserves₁.reads
  have hready : Ready (utf8 text ++ₛ Stream'.cons 10 rest) p₁.screen.io := by
    rw [← hstream]
    have hready := ready_of_reset (s := p₁.screen.io)
      (by rw [hopened.readFile]; have := hconfig.readFile; omega)
      hopened.rdCount hopened.rdUsed hopened.rdPending
    rwa [Io.source, hopened.preloadData, show p₁.screen.io.world.reads = _ from hreads₁] at hready
  -- the loop
  obtain ⟨buffer, e, hloop, heof, hbuffer, hsilent, hready', hfrom⟩ := readLoop_line hlaw hutf8
    hT p₁.terminfo p₁.escapeTable config.customIgnoreDefault htext hW hfuel freshBuffer
    (e := { line := emptyLine, screen := p₁.screen })
    ⟨hmode, by rw [hopened.echoFile]; have := hconfig.echoFile; omega, hopened.wrCount⟩ rfl hready
    (huncut p₁ hinit hready hT)
  obtain ⟨herrno, hnofail⟩ := hfrom.world.errno (hreads₁ ▸ hp.reads)
  have hobliging₂ : e.screen.io.world.Obliging := by
    have h₁ := hserves₁.obliging
    refine ⟨?_, ?_, fun heq => h₁.errno (herrno.symm.trans heq)⟩
    · rw [hfrom.world.calls]
      exact h₁.calls
    · rw [World.WritesComplete, hfrom.world.writes]
      exact h₁.writes
  -- tearing down
  obtain ⟨p₂, hdeinit, hterminfo, hroot, hcount, hused, hserves₂⟩ :=
    deinit_ok P (p := { p₁ with screen := e.screen }) hobliging₂ hsilent.echoFile
      (hsilent.wrCount ▸ Nat.zero_le _)
  refine ⟨p₂, ?_, ?_, ?_⟩
  · rw [nanorl, hconfig.checkArgs]
    show (init P env config .off p.started >>= _) = _
    rw [hinit, Run.ok_bind]
    dsimp only
    rw [if_neg (by decide), hloop, Run.ok_bind]
    dsimp only
    rw [hdeinit, Run.ok_bind]
    dsimp only
    rw [if_neg (by decide), heof,
      finishLine_text P hutf8 htext (hbuffer.trans (List.nil_append _)) hserves₂.obliging.errno]
    rfl
  · exact ⟨hserves₂.obliging.calls, hserves₂.obliging.writes, hserves₂.reads ▸ hnofail,
      fun hnot => absurd (hnot.symm.trans (hterminfo ▸ hattempted)) (by decide),
      hagain p₂ hterminfo hroot⟩
  · intro hpreload hempty
    have hunread := hready'.unread_eq
    rw [hcount, hused] at hempty
    have hnone : e.screen.io.preloadData = none := hfrom.preload (hopened.preloadData.trans hpreload)
    rw [Io.unread, show e.screen.io.rdUsed = e.screen.io.rdCount from hempty, Nat.sub_self] at hunread
    rw [hserves₂.reads, ← hunread, Io.source, hnone]
    rfl

end Session

end Nanorl
