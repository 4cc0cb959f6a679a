import Nanorl.Sound.Dialogue
import Nanorl.Sound.Onlooker
import Nanorl.Sound.Secrecy

/-!
# Nanorl.Sound.Agreement

Calls that agree.

What `init` writes and asks changes nothing the reader looks at but the reads that are left
(`init_reader`), and what it loads depends on the environment and the static data alone
(`loadDfa_same`). So what a call returns depends on its input, whatever its echo mode is
(`nanorl_agree`).
-/

namespace Nanorl

open Run (Ends Same)

/-! ### The opening -/

/-- Output and the replies to it change nothing the reader looks at but the reads to come. -/
def Io.SameBuffer (io io' : Io) : Prop :=
  ∃ echoFile wrBuf wrCount echoEnabled world, io' = { io with
    echoFile, wrBuf, wrCount, echoEnabled, world } ∧ world.stray = io.world.stray

theorem Io.Writes.sameBuffer {io io' : Io} (h : io.Writes io') : io.SameBuffer io' := by
  obtain ⟨_, _, _, _, _, rfl⟩ := h
  exact ⟨_, _, _, _, _, rfl, rfl⟩

theorem Io.sameBuffer_queryFrame (P : Platform) : Io.QueryFrame P Io.SameBuffer where
  refl := fun io => ⟨_, _, _, _, _, rfl, rfl⟩
  trans := by
    rintro io₁ _ _ ⟨_, _, _, _, _, rfl, hstray⟩ ⟨_, _, _, _, _, rfl, hstray'⟩
    exact ⟨_, _, _, _, _, rfl, hstray'.trans hstray⟩
  write := fun data io => (nrlIoWrite_writes P data io).mono fun _ h => h.sameBuffer
  flush := fun io => (nrlIoFlush_writes P io).mono fun _ h => h.sameBuffer
  rawRead := fun size io => by
    have hstray : (io.world.read size).2.stray = io.world.stray := by
      unfold World.read
      split <;> rfl
    unfold nrlIoRawRead
    refine (Ends.any _).bind fun _ _ => (Ends.any _).bind fun _ _ => .ok ?_
    exact ⟨_, _, _, _, _, rfl, hstray⟩
  winsize := fun io => by
    unfold World.winsize
    split <;> exact ⟨_, _, _, _, _, rfl, rfl⟩

/-- Two calls that open on the same input: they find the same static data, have the same
handlers, and their queries leave the same reads. -/
structure OpenAlike (config config' : Config) (p p' p₁ p₁' : Process) : Prop where
  readFile : config'.readFile = config.readFile
  preload : config'.preload = config.preload
  ignoreDefault : config'.customIgnoreDefault = config.customIgnoreDefault
  terminfo : p'.terminfo = p.terminfo
  root : p'.root = p.root
  rdBuf : p'.screen.io.rdBuf = p.screen.io.rdBuf
  stray : p'.world.stray = p.world.stray
  escapeTable : p₁'.escapeTable = p₁.escapeTable
  reads : p₁'.world.reads = p₁.world.reads

section Calls

variable {P : Platform} {fuel fuel' : Nat} {env : Environment} {config config' : Config}
  {p p' p₁ p₁' : Process} {mode mode' : EchoMode} {buffer buffer' : InputBuf} {e e' : Editor}

theorem loadDfa_same (env : Environment) (hterminfo : p'.terminfo = p.terminfo) (hroot : p'.root = p.root) :
    Same (fun q q' => q'.terminfo = q.terminfo ∧ q'.root = q.root) (loadDfa env p) (loadDfa env p') := by
  unfold loadDfa
  rw [hterminfo, hroot]
  refine (Same.refl (fun _ => rfl) (nrlLoadTerminfo env p.terminfo)).bind fun r r' (hr : r = r') => ?_
  subst hr
  dsimp only
  split
  · split
    · exact .error _
    · refine (Same.refl (fun _ => rfl) _).bind fun root root' (hroot' : root = root') => ?_
      exact .ok ⟨rfl, hroot'.symm⟩
  · exact .ok ⟨rfl, rfl⟩

/-- What the loop starts with behind an `init` that succeeds. -/
theorem init_reader (h : init P env config mode p = .ok (true, p₁)) :
    (∃ p₀, loadDfa env p = .ok p₀ ∧ p₁.terminfo = p₀.terminfo ∧ p₁.root = p₀.root) ∧
      p₁.screen.render.termSmart = nrlTermIsSmart p₁.terminfo ∧
      (nrlIoInit config.readFile config.echoFile config.preload p.screen.io).SameBuffer p₁.screen.io := by
  obtain ⟨terminfo, root, p₂, p₃, hload, hcalls, houtput, hscreen, hp₁⟩ := init_done h
  obtain ⟨_, _, _, _, hscreen₂⟩ := hcalls.screen
  have hR := Io.sameBuffer_queryFrame P
  obtain ⟨io, escapeTable, hp₃, hio⟩ :=
    (hR.initOutput (fun _ _ => ⟨_, _, _, _, _, rfl, rfl⟩) config mode p₂).of_ok houtput
  dsimp only at hp₃
  have hrender := (hR.renderInit p₃.terminfo mode config.echoFile p₃.screen).of_ok hscreen
  have hopens := nrlRenderInit_ok P p₃.terminfo hscreen
  have hterminfo : p₁.terminfo = p₃.terminfo := by rw [hp₁]
  have hterminfo₃ : p₃.terminfo = p₂.terminfo := by rw [hp₃]; rfl
  have hroot : p₁.root = p₂.root := by rw [hp₁, hp₃]; rfl
  have hio₃ : p₃.screen.io = io := by rw [hp₃]; rfl
  refine ⟨⟨_, hload, ?_, hroot.trans hcalls.root⟩, ?_, ?_⟩
  · exact hterminfo.trans (hterminfo₃.trans hcalls.terminfo)
  · rw [hterminfo]
    exact hopens.termSmart
  · rw [hio₃] at hrender
    rw [hscreen₂] at hio
    obtain ⟨_, _, _, _, _, hio, hstray⟩ := hR.trans hio hrender
    exact ⟨_, _, _, _, _, hio, hstray⟩

/-- Two loops start alike behind calls that open alike. -/
theorem OpenAlike.starts (h : OpenAlike config config' p p' p₁ p₁')
    (hinit : init P env config mode p.started = .ok (true, p₁))
    (hinit' : init P env config' mode' p'.started = .ok (true, p₁')) :
    p₁'.terminfo = p₁.terminfo ∧ p₁'.root = p₁.root ∧
      p₁'.screen.render.termSmart = p₁.screen.render.termSmart ∧
      p₁.screen.io.SameReader p₁'.screen.io := by
  obtain ⟨⟨p₀, hload, hterminfo, hroot⟩, hsmart, _, _, _, _, world, hio, hstray⟩ := init_reader hinit
  obtain ⟨⟨p₀', hload', hterminfo', hroot'⟩, hsmart', echoFile, wrBuf, wrCount, echoEnabled, world', hio',
    hstray'⟩ := init_reader hinit'
  have hloads := loadDfa_same env (show p'.started.terminfo = p.started.terminfo from h.terminfo)
    (show p'.started.root = p.started.root from h.root)
  rw [hload, hload'] at hloads
  obtain ⟨hterminfo₀, hroot₀⟩ : p₀'.terminfo = p₀.terminfo ∧ p₀'.root = p₀.root := by
    cases hloads with
    | ok hsame => exact hsame
  have hsame : p₁'.terminfo = p₁.terminfo := by rw [hterminfo', hterminfo, hterminfo₀]
  refine ⟨hsame, by rw [hroot', hroot, hroot₀], by rw [hsmart', hsmart, hsame], ?_⟩
  -- the two `nrl_io_init` differ in the echo file at most
  have hreads := h.reads
  have hrdBuf : p'.started.screen.io.rdBuf = p.started.screen.io.rdBuf := h.rdBuf
  unfold Process.world at hreads
  rw [hio, hio'] at hreads
  rw [hio, hio']
  refine ⟨echoFile, wrBuf, wrCount, echoEnabled, world', ?_, hreads, hstray'.trans (h.stray.trans hstray.symm)⟩
  unfold nrlIoInit
  dsimp only
  rw [h.readFile, h.preload, hrdBuf]

/-! ### Two calls -/

theorem Session.data {result : NanorlResult} {q : Process}
    (h : Session P fuel env config p mode p₁ buffer e)
    (hcall : nanorl P fuel env config p = .ok (result, q)) :
    result.error = .system ∨ result.data = (finishLine P buffer.eof e.line .none).data := by
  rw [h.nanorl_eq] at hcall
  obtain ⟨⟨done, p₂⟩, -, hcall⟩ := Run.bind_eq_ok.mp hcall
  cases done with
  | false =>
    obtain ⟨rfl, rfl⟩ := Prod.mk.inj (Except.ok.inj hcall)
    exact .inl rfl
  | true =>
    obtain ⟨rfl, rfl⟩ := Prod.mk.inj (Except.ok.inj hcall)
    refine .inr ?_
    unfold finishLine
    split <;> rfl

/-- **The echo only looks on.** Calls that open on the same input return the same line and leave
the same input, whatever is echoed, where, on which terminal, and whatever becomes of it. -/
theorem nanorl_agree {result result' : NanorlResult} {q q' : Process}
    (h : Session P fuel env config p mode p₁ buffer e)
    (h' : Session P fuel' env config' p' mode' p₁' buffer' e')
    (hopen : OpenAlike config config' p p' p₁ p₁') (hcalm : p.screen.render.resizeFlag = false)
    (hcalm' : p'.screen.render.resizeFlag = false)
    (hcall : nanorl P fuel env config p = .ok (result, q))
    (hcall' : nanorl P fuel' env config' p' = .ok (result', q')) :
    (result.error = .system ∨ result'.error = .system ∨ result'.data = result.data) ∧
      e.line.SameText e'.line ∧ e.screen.io.SameReader e'.screen.io := by
  obtain ⟨hterminfo, hroot, hsmart, hstart⟩ := hopen.starts h.init h'.init
  have hflag := ((init_opens mode _).of_ok h.init rfl).2.1
  have hflag' := ((init_opens mode' _).of_ok h'.init rfl).2.1
  have hloop' := h'.loop
  rw [hterminfo, hroot, hopen.escapeTable, hopen.ignoreDefault] at hloop'
  obtain ⟨rfl, htext, hreader⟩ := readLoop_agree _ hstart hsmart (hflag.trans hcalm) (hflag'.trans hcalm')
    h.loop hloop'
  refine ⟨?_, htext, hreader⟩
  rcases h.data hcall with hsystem | hdata
  · exact .inl hsystem
  rcases h'.data hcall' with hsystem' | hdata'
  · exact .inr (.inl hsystem')
  refine .inr (.inr ?_)
  rw [hdata, hdata']
  unfold finishLine
  rw [htext.buffer]

end Calls

/-- An `a`, the left key and a `b`. -/
def leftTyped : List ReadResult := [.data (ascii "a\x1bODb\n")]

/-- The same line typed at the prompt of the example that shows it and at the one that hides it. -/
theorem nanorl_agree_hidden : ∃ result q result' q',
    nanorl referencePlatform 5 (bareEnvironment (ascii "xterm")) exNormal
      (answeringProcess leftTyped) = .ok (result, q) ∧
    nanorl referencePlatform 5 (bareEnvironment (ascii "xterm")) exHidden
      (terminalProcess leftTyped) = .ok (result', q') ∧
    result.data = some (ascii "ba") ∧ result'.data = result.data := by
  have hrun : (nanorl referencePlatform 5 (bareEnvironment (ascii "xterm")) exNormal
      (answeringProcess leftTyped)).map Prod.fst = .ok { data := some (ascii "ba"), error := .ok } := by
    decide +kernel
  have hrun' : (nanorl referencePlatform 5 (bareEnvironment (ascii "xterm")) exHidden
      (terminalProcess leftTyped)).map (fun r => r.1.error) = .ok .ok := by
    decide +kernel
  have hsession : ∀ {config p result q}, nanorl referencePlatform 5 (bareEnvironment (ascii "xterm"))
      config p = .ok (result, q) → result.error = .ok → ∃ mode p₁ buffer e,
        Session referencePlatform 5 (bareEnvironment (ascii "xterm")) config p mode p₁ buffer e := by
    intro config p result q hcall hok
    rcases nanorl_cases hcall with ⟨-, -, herror⟩ | ⟨-, herror, -⟩ | ⟨-, mode, p₁, buffer, e, -, h, -⟩
    · rw [hok] at herror
      cases herror
    · rw [hok] at herror
      cases herror
    · exact ⟨mode, p₁, buffer, e, h⟩
  have htable : ∀ {config : Config} {mode : EchoMode} {p p₁ : Process}, config.customHandlers = none →
      p.escapeTable = nrlManipClearCustomTable →
      init referencePlatform (bareEnvironment (ascii "xterm")) config mode p = .ok (true, p₁) →
      p₁.escapeTable = nrlManipClearCustomTable := by
    intro config mode p p₁ hnone hempty hinit
    obtain ⟨_, _, -, -, htable⟩ := init_preface _ _ _ hinit
    rw [htable, hnone, hempty]
    split <;> rfl
  obtain ⟨⟨result, q⟩, hcall, hresult⟩ := Run.map_eq_ok.mp hrun
  obtain ⟨⟨result', q'⟩, hcall', hok'⟩ := Run.map_eq_ok.mp hrun'
  obtain rfl : result = { data := some (ascii "ba"), error := .ok } := hresult
  obtain ⟨mode, p₁, buffer, e, h⟩ := hsession hcall rfl
  obtain ⟨mode', p₁', buffer', e', h'⟩ := hsession hcall' hok'
  obtain rfl : EchoMode.on = mode := Option.some.inj h.args
  obtain rfl : EchoMode.off = mode' := Option.some.inj h'.args
  have hreads : (init referencePlatform (bareEnvironment (ascii "xterm")) exNormal .on
      (answeringProcess leftTyped).started).map (fun r => r.2.world.reads) = .ok leftTyped := by
    decide +kernel
  have hreads' : (init referencePlatform (bareEnvironment (ascii "xterm")) exHidden .off
      (terminalProcess leftTyped).started).map (fun r => r.2.world.reads) = .ok leftTyped := by
    decide +kernel
  rw [h.init] at hreads
  rw [h'.init] at hreads'
  have hopen : OpenAlike exNormal exHidden (answeringProcess leftTyped)
      (terminalProcess leftTyped) p₁ p₁' :=
    { readFile := rfl, preload := rfl, ignoreDefault := rfl, terminfo := rfl, root := rfl, rdBuf := rfl
      stray := rfl
      escapeTable := (htable rfl rfl h'.init).trans (htable rfl rfl h.init).symm
      reads := (Except.ok.inj hreads').trans (Except.ok.inj hreads).symm }
  refine ⟨_, q, result', q', hcall, hcall', rfl, ?_⟩
  obtain ⟨hdata, -⟩ := nanorl_agree h h' hopen rfl rfl hcall hcall'
  rcases hdata with hsystem | hsystem | hdata
  · cases hsystem
  · rw [show result'.error = .ok from hok'] at hsystem
    cases hsystem
  · exact hdata

end Nanorl
