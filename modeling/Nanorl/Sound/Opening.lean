import Nanorl.Sound.Interrupt
import Nanorl.Sound.Keypad
import Nanorl.Sound.Session

/-!
# Nanorl.Sound.Opening

Both ends of a call where no system call fails.

`init` sends the keypad sequence and the prompt, and `deinit` a newline and the other
keypad sequence. With what has been written before, that is all the terminal receives up to
the first query, and from the last redraw on (`initOutput_sends`, `deinit_sends`).
-/

namespace Nanorl

/-- What `init` sends. -/
def openingBytes (config : Config) (t : Terminfo) : List Byte :=
  (if config.assumeSmkx then [] else (keypadSequence t true).getD []) ++ config.prompt.getD []

/-- What `deinit` sends. -/
def closingBytes (t : Terminfo) : List Byte := 10 :: (keypadSequence t false).getD []

/-- Lengths that `nrl_io_write` can add up in 32 bits, and `read_wrapper` can keep in them. -/
structure Brief (config : Config) (t : Terminfo) : Prop where
  prompt : (config.prompt.getD []).length + ioBufSize < 2 ^ 32
  keypad : ∀ on, ((keypadSequence t on).getD []).length + ioBufSize < 2 ^ 32
  preload : (config.preload.getD []).length < 2 ^ 32

instance (config : Config) (t : Terminfo) : Decidable (Brief config t) :=
  decidable_of_iff ((config.prompt.getD []).length + ioBufSize < 2 ^ 32 ∧
      (∀ on, ((keypadSequence t on).getD []).length + ioBufSize < 2 ^ 32) ∧
      (config.preload.getD []).length < 2 ^ 32)
    ⟨fun h => ⟨h.1, h.2.1, h.2.2⟩, fun h => ⟨h.prompt, h.keypad, h.preload⟩⟩

theorem checkArgs_files {config : Config} {mode : EchoMode} (h : checkArgs config = some mode) :
    0 ≤ config.readFile ∧ 0 ≤ config.echoFile := by
  unfold checkArgs at h
  split at h
  · cases h
  · omega

/-- What only writes serves a process that no call fails. -/
theorem Io.Sends.serves {data : List Byte} {io io' : Io} (h : io.Sends data io') (hw : io.world.Obliging) :
    io.world.Serves io'.world := by
  obtain ⟨wrBuf, wrCount, writes, echoed, rfl⟩ := h.same
  exact ⟨rfl, hw.calls, h.complete, hw.errno⟩

theorem Io.Sends.reads {data : List Byte} {io io' : Io} (h : io.Sends data io') :
    io'.world.reads = io.world.reads := by
  obtain ⟨wrBuf, wrCount, writes, echoed, rfl⟩ := h.same
  rfl

/-- No call but a read fails. -/
structure World.Steady (w : World) : Prop where
  calls : ∀ r ∈ w.calls, r = .done
  writes : w.WritesComplete

theorem World.Obliging.steady {w : World} (h : w.Obliging) : w.Steady := ⟨h.calls, h.writes⟩

/-- Reads leave the other calls as they are. -/
theorem World.ReadsFrom.steady {w w' : World} (h : w.ReadsFrom w') (hw : w.Steady) : w'.Steady := by
  refine ⟨?_, ?_⟩
  · rw [h.calls]
    exact hw.calls
  · rw [World.WritesComplete, h.writes]
    exact hw.writes

theorem Io.Sends.steady {data : List Byte} {io io' : Io} (h : io.Sends data io') (hw : io.world.Steady) :
    io'.world.Steady := by
  refine ⟨?_, h.complete⟩
  obtain ⟨wrBuf, wrCount, writes, echoed, rfl⟩ := h.same
  exact hw.calls

/-- Calls that do not fail are all served. -/
theorem served_done {calls : List SysResult} (h : ∀ r ∈ calls, r = .done) (n : Nat) : served calls n = n := by
  induction n generalizing calls with
  | zero => exact served.eq_1 calls
  | succ n ih =>
    have htail : served calls.tail n = n := ih fun r hr => h r (List.mem_of_mem_tail hr)
    cases calls with
    | nil => rw [served_succ, htail]; rfl
    | cons r calls =>
      obtain rfl : r = .done := h r List.mem_cons_self
      rw [served_succ, htail]
      rfl

/-- What has all been sent, the echo file has received. -/
theorem Io.output_of_flushed {io : Io} (h : io.wrCount = 0) : io.output = io.world.echoed := by
  rw [Io.output, h]
  exact List.append_nil _

section Output

variable (P : Platform) {io : Io}

/-- A flush does not look whether the echo is on. -/
theorem nrlIoFlush_echoState (enabled : Bool) (io : Io) :
    nrlIoFlush P (nrlIoEchoState enabled io) =
      (nrlIoFlush P io).map fun r => (r.1, nrlIoEchoState enabled r.2) := by
  unfold nrlIoFlush nrlIoEchoState
  cases P.assert .echoFile (decide (io.echoFile ≠ -1)) with
  | error f => rfl
  | ok u =>
    dsimp only [Run.ok_bind]
    split
    · rfl
    · split <;> rfl

theorem writeSequence_sends (h : io.Echoing) {t : Terminfo} {on : Bool}
    (hbrief : ((keypadSequence t on).getD []).length + ioBufSize < 2 ^ 32) :
    ∃ io', nrlIoWriteEscape P t (if on then .keypadXmit else .keypadLocal) io = .ok (true, io') ∧
      io.Sends ((keypadSequence t on).getD []) io' := by
  unfold keypadSequence at hbrief ⊢
  unfold nrlIoWriteEscape
  cases hlookup : nrlLookupOutput t (if on then TerminfoOutput.keypadXmit else TerminfoOutput.keypadLocal).id with
  | none => exact ⟨io, rfl, h.sends_nil⟩
  | some asText =>
    rw [hlookup] at hbrief
    exact nrlIoWrite_sends P h (.inr hbrief)

theorem writeKeypad_sends (h : io.Echoing) {config : Config} {t : Terminfo} (hbrief : Brief config t) :
    ∃ io', writeKeypad P config t io = .ok (true, io') ∧
      io.Sends (if config.assumeSmkx then [] else (keypadSequence t true).getD []) io' := by
  unfold writeKeypad
  split
  · exact ⟨io, rfl, h.sends_nil⟩
  · exact writeSequence_sends P h (hbrief.keypad true)

theorem writePrompt_sends (h : io.Echoing) {config : Config} {t : Terminfo} (hbrief : Brief config t) :
    ∃ io', writePrompt P config io = .ok (true, io') ∧ io.Sends (config.prompt.getD []) io' := by
  have hlength := hbrief.prompt
  unfold writePrompt
  cases hprompt : config.prompt with
  | none => exact ⟨io, rfl, h.sends_nil⟩
  | some prompt =>
    rw [hprompt] at hlength
    exact nrlIoWrite_sends P h (.inr hlength)

/-- The table a call runs with. -/
def openedTable (config : Config) (mode : EchoMode) (table : EscapeTable) : EscapeTable :=
  if mode = .on then nrlManipMakeCustomTable config.customHandlers table else table

/-- The output of `init`: the reader is empty, and all has been sent. -/
theorem initOutput_sends {config : Config} (hecho : 0 ≤ config.echoFile) (mode : EchoMode) {p : Process}
    (hbrief : Brief config p.terminfo) (h : p.world.WritesComplete) :
    ∃ io, initOutput P config mode p =
        .ok (true, { p with
          escapeTable := openedTable config mode p.escapeTable
          screen := { p.screen with io } }) ∧
      io.Opened config ∧ io.echoEnabled = decide (mode ≠ .off) ∧
      ∃ writes, io.world = { p.world with
          writes, echoed := p.world.echoed ++ openingBytes config p.terminfo } ∧
        io.world.WritesComplete := by
  have hecho₀ : (nrlIoInit config.readFile config.echoFile config.preload
      (nrlIoEchoState true p.screen.io)).Echoing :=
    ⟨fun heq => by have : config.echoFile = -1 := heq; omega, rfl, Nat.zero_le _, h⟩
  obtain ⟨io₁, hkeypad, hsends₁⟩ := writeKeypad_sends P hecho₀ hbrief
  obtain ⟨io₂, hprompt, hsends₂⟩ := writePrompt_sends P (hsends₁.echoing hecho₀) hbrief
  obtain ⟨io₃, hflush, hsends₃, hzero⟩ :=
    nrlIoFlush_sends P (hsends₂.echoing (hsends₁.echoing hecho₀))
  have hsends := (hsends₁.trans hsends₂).trans hsends₃
  obtain ⟨wrBuf, wrCount, writes, echoed, hsame⟩ := hsends.same
  have houtput := hsends.output
  rw [Io.output_of_flushed hzero, List.append_nil, Io.output_of_flushed rfl] at houtput
  refine ⟨nrlIoEchoState (mode ≠ .off) io₃, ?_, ?_, rfl, writes, ?_, hsends.complete⟩
  · rw [initOutput, hkeypad, Run.ok_bind]
    dsimp only
    rw [if_neg (by decide), hprompt, Run.ok_bind]
    dsimp only
    rw [if_neg (by decide), nrlIoFlush_echoState, hflush]
    unfold openedTable
    split <;> rfl
  · rw [hsame] at hzero ⊢
    exact ⟨rfl, rfl, rfl, rfl, rfl, rfl, hzero⟩
  · have hworld := congrArg Io.world hsame
    have hechoed : io₃.world.echoed = echoed := by rw [hsame]
    rw [hechoed] at houtput
    rw [houtput] at hworld
    exact hworld

/-- The output of `deinit`. -/
theorem deinitOutput_sends {t : Terminfo} (mode : EchoMode)
    (hbrief : ((keypadSequence t false).getD []).length + ioBufSize < 2 ^ 32) (hecho : io.echoFile ≠ -1)
    (hcomplete : io.world.WritesComplete)
    (hzero : io.wrCount = 0) :
    ∃ io', deinitOutput P t mode io = .ok (true, io') ∧
      ∃ writes, io'.world = { io.world with writes, echoed := io.world.echoed ++ closingBytes t } ∧
        io'.world.WritesComplete := by
  obtain ⟨io₀, hio₀, hecho₀, hsame₀⟩ : ∃ io₀,
      nrlIoEchoState true (if mode ≠ .on then nrlIoWipeBuffers io else io) = io₀ ∧ io₀.Echoing ∧
      io₀.wrCount = 0 ∧ io₀.world = io.world := by
    refine ⟨_, rfl, ?_⟩
    split
    · exact ⟨⟨hecho, rfl, hzero ▸ Nat.zero_le _, hcomplete⟩, hzero, rfl⟩
    · exact ⟨⟨hecho, rfl, hzero ▸ Nat.zero_le _, hcomplete⟩, hzero, rfl⟩
  obtain ⟨hzero₀, hworld₀⟩ := hsame₀
  have hwrite : ∃ io₁, nrlIoWrite P [10] io₀ = .ok (true, io₁) ∧ io₀.Sends [10] io₁ :=
    nrlIoWrite_sends P hecho₀ (.inl hzero₀)
  obtain ⟨io₁, hnewline, hsends₁⟩ := hwrite
  obtain ⟨io₂, hkeypad, hsends₂⟩ := writeSequence_sends P (hsends₁.echoing hecho₀) hbrief
  obtain ⟨io₃, hflush, hsends₃, hzero₃⟩ :=
    nrlIoFlush_sends P (hsends₂.echoing (hsends₁.echoing hecho₀))
  have hsends := (hsends₁.trans hsends₂).trans hsends₃
  obtain ⟨wrBuf, wrCount, writes, echoed, hsame⟩ := hsends.same
  have houtput := hsends.output
  rw [Io.output_of_flushed hzero₃, List.append_nil, Io.output_of_flushed hzero₀, hworld₀] at houtput
  refine ⟨io₃, ?_, writes, ?_, hsends.complete⟩
  · rw [deinitOutput, hio₀, hnewline, Run.ok_bind]
    dsimp only
    rw [if_neg (by decide), show nrlIoWriteEscape P t .keypadLocal io₁ = _ from hkeypad, Run.ok_bind]
    dsimp only
    rw [if_neg (by decide)]
    exact hflush
  · have hworld := congrArg Io.world hsame
    have hechoed : io₃.world.echoed = echoed := by rw [hsame]
    rw [hechoed] at houtput
    rw [houtput] at hworld
    rw [hworld, ← hworld₀]
    rfl

/-- `init` up to its output, where no call fails. -/
theorem init_called {env : Environment} {config : Config} (mode : EchoMode) {p p₀ : Process}
    (hload : loadDfa env p = .ok p₀) (h : p₀.world.Obliging) :
    ∃ p₂, p₀.Calls p₂ ∧ p₂.world.Obliging ∧
      init P env config mode p = (do
        let (ready, p) ← initOutput P config mode p₂
        if !ready then return (false, p)
        let (ready, screen) ← nrlRenderInit P p.terminfo mode config.echoFile p.screen
        return (ready, { p with screen })) := by
  obtain ⟨p₁, hattrs, hserves₁⟩ := setAttrs_ok h
  obtain ⟨_, hattrs', hcalls₁, -⟩ := setAttrs_served p₀
  obtain ⟨-, rfl⟩ := Prod.mk.inj (hattrs.symm.trans hattrs')
  obtain ⟨p₂, hsignals, hserves₂⟩ := setSignals_ok (installOrder.map fun sig => (sig, handlerOf sig))
    hserves₁.obliging
  obtain ⟨_, hsignals', hsets, -⟩ := setSignals_served (show installOrder.Nodup by decide) p₁
  obtain ⟨-, rfl⟩ := Prod.mk.inj (hsignals.symm.trans hsignals')
  refine ⟨p₂, hcalls₁.trans hsets.calls, hserves₂.obliging, ?_⟩
  rw [init, hload, Run.ok_bind]
  dsimp only
  rw [hattrs]
  dsimp only
  rw [if_neg (by decide), initChain_eq, hsignals]
  rfl

/-- **The end of a call.** All is given back, and the newline and the keypad sequence are the
last that is sent. -/
theorem deinit_sends (mode : EchoMode) {p : Process} (h : p.world.Steady)
    (hbrief : ((keypadSequence p.terminfo false).getD []).length + ioBufSize < 2 ^ 32)
    (hecho : p.screen.io.echoFile ≠ -1) (hzero : p.screen.io.wrCount = 0) :
    ∃ p', deinit P mode p = .ok (true, p') ∧
      p'.world.echoed = p.world.echoed ++ closingBytes p.terminfo ∧ p'.world.reads = p.world.reads ∧
      p'.world.isTty = p.world.isTty ∧ p'.world.Steady ∧
      p'.terminfo = p.terminfo ∧ p'.root = p.root ∧ p'.escapeTable = nrlManipClearCustomTable := by
  obtain ⟨p₁, hattrs, hcalls₁, hrest, -⟩ :=
    restoreAttrs_served { p with escapeTable := nrlManipClearCustomTable }
  obtain ⟨p₂, hsignals, hsets⟩ := restoreSignals_served restoreOrder p₁
  change restoreAttrs _ = (p.world.attrsRestored, p₁) at hattrs
  change p.world.attrsRestored = true → p₁.world.calls = p.world.restoreCalls at hrest
  have hready : p.world.attrsRestored = true := by
    rw [World.attrsRestored, served_done h.calls, decide_eq_true rfl, Bool.or_true]
  have hdone₁ : ∀ r ∈ p₁.world.calls, r = .done := by
    rw [hrest hready, World.restoreCalls]
    split
    · exact fun r hr => h.calls r (List.mem_of_mem_tail hr)
    · exact h.calls
  have hdone₂ : ∀ r ∈ p₂.world.calls, r = .done := by
    rw [hsets.rest (served_done hdone₁ _)]
    exact fun r hr => hdone₁ r (List.mem_of_mem_drop hr)
  rw [hready] at hattrs
  rw [served_done hdone₁, decide_eq_true rfl] at hsignals
  have hcalls := hcalls₁.trans hsets.calls
  obtain ⟨errno, calls, attrs, actions, hscreen⟩ := hcalls.screen
  have hbrief₂ : ((keypadSequence p₂.terminfo false).getD []).length + ioBufSize < 2 ^ 32 := by
    rw [hcalls.terminfo]
    exact hbrief
  have hecho₂ : p₂.screen.io.echoFile ≠ -1 := by
    rw [hscreen]
    exact hecho
  have hwrites₂ : p₂.screen.io.world.WritesComplete := by
    rw [hscreen]
    exact h.writes
  have hzero₂ : p₂.screen.io.wrCount = 0 := by
    rw [hscreen]
    exact hzero
  obtain ⟨io, houtput, writes, hworld, hcomplete⟩ :=
    deinitOutput_sends P mode hbrief₂ hecho₂ hwrites₂ hzero₂
  rw [hcalls.terminfo] at hworld
  refine ⟨p₂.setIo io, ?_, ?_, ?_, ?_, ⟨?_, hcomplete⟩, hcalls.terminfo, hcalls.root, hcalls.escapeTable⟩
  · rw [deinit]
    dsimp only
    rw [hattrs]
    dsimp only
    rw [if_neg (by decide), deinitChain_eq, hsignals]
    dsimp only
    rw [if_neg (by decide), houtput]
    rfl
  · show io.world.echoed = _
    rw [hworld, hscreen]
    rfl
  · show io.world.reads = _
    rw [hworld, hscreen]
    rfl
  · show io.world.isTty = _
    rw [hworld, hscreen]
    rfl
  · show ∀ r ∈ io.world.calls, r = .done
    rw [hworld]
    exact hdone₂

end Output

end Nanorl
