import Nanorl.Sound.Teardown

/-!
# Nanorl.Sound.Handlers

Whose handlers a call runs.

`init` writes the handlers of an echoing call into a static table and `deinit` clears
it. So the table is empty between calls unless an `init` has given up behind the
filling. The loop of a call that finds it empty is the one in which every custom key runs
the last handler its own configuration lists for it, and none without an echo
(`ownHandlers`).
-/

namespace Nanorl

open Run (Ends)

/-! ### The table -/

/-- The last entry of a configuration for a custom key. -/
def lastHandler (handlers : Option (List EscapeHandler)) (k : Nat) : Option EscapeHandler :=
  ((handlers.getD []).filter fun item : EscapeHandler => item.id = (k : Int)).getLast?

theorem nrlManipMakeCustomTable_last (handlers : Option (List EscapeHandler)) (table : EscapeTable)
    {k : Nat} (hk : k < ticCount) :
    nrlManipMakeCustomTable handlers table k = (lastHandler handlers k).or (table k) := by
  unfold nrlManipMakeCustomTable lastHandler
  generalize handlers.getD [] = items
  induction items generalizing table with
  | nil => rfl
  | cons item items ih =>
    rw [List.foldl_cons, ih, List.filter_cons]
    by_cases hid : item.id = (k : Int)
    · have hin : 0 ≤ item.id ∧ item.id < (ticCount : Int) := by omega
      cases hlast : (items.filter fun item : EscapeHandler => item.id = (k : Int)).getLast? <;>
        simp [hid, hlast, List.getLast?_cons, hk]
    · simp only [hid, decide_false, Bool.false_eq_true, if_false]
      refine congrArg _ ?_
      split
      · exact if_neg fun h => hid h.symm
      · rfl

theorem nrlManipMakeCustomTable_outside (handlers : Option (List EscapeHandler)) (table : EscapeTable)
    {k : Nat} (hk : ¬k < ticCount) : nrlManipMakeCustomTable handlers table k = table k := by
  unfold nrlManipMakeCustomTable
  generalize handlers.getD [] = items
  induction items generalizing table with
  | nil => rfl
  | cons item items ih =>
    rw [List.foldl_cons, ih]
    split
    · exact if_neg fun heq => hk (by omega)
    · rfl

/-- The handler a configuration has for a custom key: with an echo, the last one it lists. -/
def Config.handlerFor (config : Config) (k : Nat) : Option EscapeHandler :=
  if config.echoMode = 1 ∧ k < ticCount then lastHandler config.customHandlers k else none

/-- A configuration with a handler for a key there is. -/
def Config.lists (config : Config) : Bool :=
  (config.customHandlers.getD []).any fun item => 0 ≤ item.id ∧ item.id < (ticCount : Int)

theorem nrlManipMakeCustomTable_none {config : Config} (h : config.lists = false) (table : EscapeTable) :
    nrlManipMakeCustomTable config.customHandlers table = table := by
  unfold Config.lists at h
  unfold nrlManipMakeCustomTable
  generalize config.customHandlers.getD [] = items at h
  induction items generalizing table with
  | nil => rfl
  | cons item items ih =>
    rw [List.any_cons, Bool.or_eq_false_iff, decide_eq_false_iff_not] at h
    rw [List.foldl_cons, if_neg h.1]
    exact ih table h.2

/-! ### What a call does to it -/

section Call

variable (P : Platform) (env : Environment) (config : Config)

/-- The keypad sequence and the prompt of `init`. -/
def writePreface (p : Process) : Except Fault (Bool × Io) := do
  let (written, io) ← writeKeypad P config p.terminfo (nrlIoInit config.readFile config.echoFile config.preload
    (nrlIoEchoState true p.screen.io))
  if !written then return (false, io)
  writePrompt P config io

/-- `init` up to the prompt. -/
def initPreface (p : Process) : Except Fault (Bool × Process) := do
  let p ← loadDfa env p
  let (set, p) := setAttrs p
  if !set then return (false, p)
  let (set, p) := setSignals (installOrder.map fun sig => (sig, handlerOf sig)) p
  if !set then return (false, p)
  let (written, io) ← writePreface P config p
  return (written, p.setIo io)

/-- `init` gets to the point where it fills the table. -/
def reachesTable (p : Process) : Bool :=
  match initPreface P env config p with
  | .ok (written, _) => written
  | .error _ => false

theorem initOutput_table {mode : EchoMode} {p p' : Process} {ready : Bool}
    (h : initOutput P config mode p = .ok (ready, p')) :
    ∃ written io, writePreface P config p = .ok (written, io) ∧ (ready = true → written = true) ∧
      p'.escapeTable = if mode = .on ∧ written = true then
        nrlManipMakeCustomTable config.customHandlers p.escapeTable else p.escapeTable := by
  unfold initOutput at h
  unfold writePreface
  obtain ⟨⟨written, io₁⟩, hkeypad, h⟩ := Run.bind_eq_ok.mp h
  rw [hkeypad, Run.ok_bind]
  cases written with
  | false =>
    obtain ⟨rfl, rfl⟩ := Prod.mk.inj (Except.ok.inj h)
    exact ⟨false, io₁, rfl, id, by simp [Process.setIo]⟩
  | true =>
    obtain ⟨⟨written, io₂⟩, hprompt, h⟩ := Run.bind_eq_ok.mp h
    refine ⟨written, io₂, hprompt, ?_⟩
    cases written with
    | false =>
      obtain ⟨rfl, rfl⟩ := Prod.mk.inj (Except.ok.inj h)
      exact ⟨id, by simp [Process.setIo]⟩
    | true =>
      obtain ⟨⟨flushed, io₃⟩, hflush, h⟩ := Run.bind_eq_ok.mp h
      obtain ⟨rfl, rfl⟩ := Prod.mk.inj (Except.ok.inj h)
      refine ⟨fun _ => rfl, ?_⟩
      by_cases hmode : mode = .on <;> simp [Process.setIo, hmode]

/-- `init` fills the table of an echoing call when it gets there, and goes on from there if
it succeeds. -/
theorem init_preface {mode : EchoMode} {p p' : Process} {ready : Bool}
    (h : init P env config mode p = .ok (ready, p')) :
    ∃ written p₁, initPreface P env config p = .ok (written, p₁) ∧ (ready = true → written = true) ∧
      p'.escapeTable = if mode = .on ∧ written = true then
        nrlManipMakeCustomTable config.customHandlers p.escapeTable else p.escapeTable := by
  unfold initPreface
  unfold init at h
  obtain ⟨p₀, hload, h⟩ := Run.bind_eq_ok.mp h
  rw [hload, Run.ok_bind]
  obtain ⟨terminfo, root, rfl⟩ := (loadDfa_ends env p).of_ok hload
  obtain ⟨p₁, hattrs, hcalls₁, -⟩ := setAttrs_served { p with terminfo, root }
  obtain ⟨p₂, hsignals, hsets, -⟩ := setSignals_served (show installOrder.Nodup by decide) p₁
  have htable : p₂.escapeTable = p.escapeTable := hsets.calls.escapeTable.trans hcalls₁.escapeTable
  dsimp only at h ⊢
  rw [hattrs] at h ⊢
  cases hready : Process.world { p with terminfo, root } |>.attrsReady with
  | false =>
    rw [hready] at h
    obtain ⟨rfl, rfl⟩ := Prod.mk.inj (Except.ok.inj h)
    exact ⟨false, _, rfl, id, by simpa using hcalls₁.escapeTable⟩
  | true =>
    rw [hready] at h
    dsimp only [Bool.not_true, Bool.false_eq_true, if_false] at h ⊢
    rw [initChain_eq, hsignals] at h
    rw [hsignals]
    cases hall : decide (served p₁.world.calls installOrder.length = installOrder.length) with
    | false =>
      rw [hall] at h
      obtain ⟨rfl, rfl⟩ := Prod.mk.inj (Except.ok.inj h)
      exact ⟨false, _, rfl, id, by simpa using htable⟩
    | true =>
      rw [hall] at h
      obtain ⟨⟨ready₁, p₃⟩, houtput, h⟩ := Run.bind_eq_ok.mp h
      obtain ⟨written, io, hpreface, hwritten, htable₃⟩ := initOutput_table P config houtput
      rw [htable] at htable₃
      refine ⟨written, p₂.setIo io, Run.bind_eq_ok.mpr ⟨_, hpreface, rfl⟩, ?_⟩
      cases ready₁ with
      | false =>
        obtain ⟨rfl, rfl⟩ := Prod.mk.inj (Except.ok.inj h)
        exact ⟨nofun, htable₃⟩
      | true =>
        obtain ⟨⟨ready₂, screen⟩, -, h⟩ := Run.bind_eq_ok.mp h
        obtain ⟨rfl, rfl⟩ := Prod.mk.inj (Except.ok.inj h)
        exact ⟨fun _ => hwritten rfl, htable₃⟩

theorem deinit_table {mode : EchoMode} {p p' : Process} {done : Bool}
    (h : deinit P mode p = .ok (done, p')) : p'.escapeTable = nrlManipClearCustomTable := by
  unfold deinit at h
  obtain ⟨p₁, hattrs, hcalls₁, -⟩ := restoreAttrs_served { p with escapeTable := nrlManipClearCustomTable }
  obtain ⟨p₂, hsignals, hsets⟩ := restoreSignals_served restoreOrder p₁
  have htable : p₂.escapeTable = nrlManipClearCustomTable :=
    hsets.calls.escapeTable.trans hcalls₁.escapeTable
  dsimp only at h
  rw [hattrs] at h
  cases hready : (Process.world { p with escapeTable := nrlManipClearCustomTable }).attrsRestored with
  | false =>
    rw [hready] at h
    obtain ⟨rfl, rfl⟩ := Prod.mk.inj (Except.ok.inj h)
    exact hcalls₁.escapeTable
  | true =>
    rw [hready] at h
    dsimp only [Bool.not_true, Bool.false_eq_true, if_false] at h
    rw [deinitChain_eq, hsignals] at h
    cases hall : decide (served p₁.world.calls restoreOrder.length = restoreOrder.length) with
    | false =>
      rw [hall] at h
      obtain ⟨rfl, rfl⟩ := Prod.mk.inj (Except.ok.inj h)
      exact htable
    | true =>
      rw [hall] at h
      obtain ⟨⟨ready, io⟩, -, h⟩ := Run.bind_eq_ok.mp h
      obtain ⟨rfl, rfl⟩ := Prod.mk.inj (Except.ok.inj h)
      exact htable

end Call

/-! ### Call after call -/

/-- One call of `nanorl` with what it depends on. -/
structure Call where
  fuel : Nat
  env : Environment
  config : Config

section Calls

variable (P : Platform)

/-- The call. -/
def Call.perform (c : Call) (p : Process) : Except Fault Process :=
  (nanorl P c.fuel c.env c.config p).map Prod.snd

/-- An echoing call with handlers that gets as far as the table also gets through the rest
of `init`, the flush and the queries. -/
def Call.Tidy (c : Call) (p : Process) : Prop :=
  c.config.echoMode = 1 → c.config.lists = true → reachesTable P c.env c.config p.started = true →
    startOf P c.env c.config p ≠ .gaveUp

instance : ∀ c p, Decidable (Call.Tidy P c p) := fun _ _ => inferInstanceAs (Decidable (_ → _ → _ → _))

variable {P}

/-- A tidy call leaves the table empty. -/
theorem Call.perform_table {c : Call} {p p' : Process} (hp : p.escapeTable = nrlManipClearCustomTable)
    (htidy : c.Tidy P p) (h : c.perform P p = .ok p') : p'.escapeTable = nrlManipClearCustomTable := by
  obtain ⟨r, hcall, rfl⟩ := Run.map_eq_ok.mp h
  rcases nanorl_cases hcall with ⟨-, hsame, -⟩ | ⟨hgaveUp, -, mode, hargs, hinit⟩ |
    ⟨-, mode, p₁, buffer, e, done, -, hdeinit, -⟩
  · rw [hsame]
    exact hp
  · obtain ⟨written, p₁, hpreface, -, htable⟩ := init_preface P c.env c.config hinit
    have hstarted : p.started.escapeTable = nrlManipClearCustomTable := hp
    rw [htable, hstarted]
    split
    · rename_i hfills
      cases hlists : c.config.lists with
      | false => exact nrlManipMakeCustomTable_none hlists _
      | true =>
        have hreaches : reachesTable P c.env c.config p.started = true := by
          simp [reachesTable, hpreface, hfills.2]
        exact absurd hgaveUp (htidy ((checkArgs_on hargs).mp hfills.1) hlists hreaches)
    · rfl
  · exact deinit_table P hdeinit

/-- The table of a session behind tidy calls. -/
theorem escapeTable_own {calls : List Call} {p₀ p : Process} (hstart : p₀.escapeTable = nrlManipClearCustomTable)
    (htidy : Run.Guarded (Call.perform P) (Call.Tidy P) calls p₀)
    (hcalls : Run.exec (Call.perform P) calls p₀ = .ok p) {env : Environment} {config : Config}
    {mode : EchoMode} {p₁ : Process} (hargs : checkArgs config = some mode)
    (hinit : init P env config mode p.started = .ok (true, p₁)) : p₁.escapeTable = config.handlerFor := by
  have hempty : p.escapeTable = nrlManipClearCustomTable :=
    Run.exec_guarded (I := fun p : Process => p.escapeTable = nrlManipClearCustomTable)
      (fun c p p' hp hC h => Call.perform_table hp hC h) hstart htidy hcalls
  obtain ⟨written, p₂, -, hwritten, htable⟩ := init_preface P env config hinit
  have hstarted : p.started.escapeTable = nrlManipClearCustomTable := hempty
  rw [htable, hstarted, hwritten rfl]
  have hmode := checkArgs_on hargs
  funext k
  unfold Config.handlerFor
  by_cases hon : config.echoMode = 1
  · rw [if_pos ⟨hmode.mpr hon, rfl⟩]
    by_cases hk : k < ticCount
    · rw [nrlManipMakeCustomTable_last _ _ hk, if_pos ⟨hon, hk⟩]
      exact Option.or_none
    · rw [nrlManipMakeCustomTable_outside _ _ hk, if_neg fun h => hk h.2]
      rfl
  · rw [if_neg fun h => hon (hmode.mp h.1), if_neg fun h => hon h.1]
    rfl

end Calls

/-! ### The handlers that are run -/

section Own

variable (P : Platform) (t : Terminfo) (config : Config)

/-- A custom key under a configuration: its handler gets the line behind a move of the cursor
to the beginning, and what it returns is the line from there on; without one the key is
ignored or inserted as text. -/
def evalKey (buffer : InputBuf) (e : Editor) : Except Fault (InputBuf × Editor) :=
  match config.handlerFor buffer.escape.bits with
  | some handler => do
    let e₁ ← nrlRenderSyncCursors P t { e with line := { e.line with cursor := 0 } }
    let (line, cursor) ← callHandler P handler e₁.line.buffer e.line.cursor
    pure (buffer, { e₁ with line := { e₁.line with buffer := line, cursor, dirty := true } })
  | none =>
    if config.customIgnoreDefault then .ok (buffer, e)
    else
      match nrlLookupCustom t buffer.escape.bits with
      | none => .error .nullDeref
      | some asText => spellCustom P asText buffer e

/-- The evaluation of one input under a configuration. Other inputs run no handlers. -/
def evalOwn (readRes : InputType) (buffer : InputBuf) (e : Editor) : Except Fault (InputBuf × Editor) :=
  match readRes with
  | .customEscape => evalKey P t config buffer e
  | readRes => evalInput P t nrlManipClearCustomTable config.customIgnoreDefault readRes buffer e

/-- The loop of `nanorl` with the handlers of a configuration, and no table. -/
def ownLoop (root : DfaNode) : Nat → InputBuf → Editor → Except Fault (InputBuf × Editor)
  | 0, _, _ => .error .outOfFuel
  | fuel + 1, buffer, e => do
      let (readRes, buffer, io) ← nrlIoRead P root buffer e.screen.io
      let e := { e with screen := { e.screen with io } }
      if readRes = .stop then pure (buffer, e)
      else
        let (buffer, e) ← evalOwn P t config readRes buffer e
        let e ← if !buffer.more && e.line.dirty then nrlRenderRedraw P t e else pure e
        ownLoop root fuel buffer e

/-- A session with the data of `p` runs the handlers of its configuration: in every round that
has read a custom key, on whatever line, and so in the whole loop. -/
structure RunsOwn (p : Process) : Prop where
  key : ∀ buffer e, evalInput P p.terminfo p.escapeTable config.customIgnoreDefault .customEscape buffer e =
    evalKey P p.terminfo config buffer e
  loop : ∀ fuel buffer e,
    readLoop P p.terminfo p.root p.escapeTable config.customIgnoreDefault fuel buffer e =
      ownLoop P p.terminfo config p.root fuel buffer e

/-- With the handlers of the configuration in the table, a custom key is evaluated by them. -/
theorem evalInput_own (readRes : InputType) (buffer : InputBuf) (e : Editor) :
    evalInput P t config.handlerFor config.customIgnoreDefault readRes buffer e =
      evalOwn P t config readRes buffer e := by
  cases readRes with
  | text => rfl
  | escape => rfl
  | stop => rfl
  | customEscape =>
    simp only [evalInput, evalOwn, evalKey, nrlManipEvalCustom]
    cases config.handlerFor buffer.escape.bits with
    | none => rfl
    | some handler =>
      dsimp only
      cases nrlRenderSyncCursors P t { e with line := { e.line with cursor := 0 } } with
      | error fault => rfl
      | ok e₁ =>
        dsimp only [Run.ok_bind]
        cases callHandler P handler e₁.line.buffer e.line.cursor <;> rfl

/-- The loop goes round by round as its evaluations do. The induction is on the rounds. -/
theorem readLoop_own (root : DfaNode) (fuel : Nat) (buffer : InputBuf) (e : Editor) :
    readLoop P t root config.handlerFor config.customIgnoreDefault fuel buffer e =
      ownLoop P t config root fuel buffer e := by
  induction fuel generalizing buffer e with
  | zero => rfl
  | succ fuel ih =>
    rw [readLoop, ownLoop]
    refine congrArg _ (funext fun r => ?_)
    obtain ⟨readRes, buffer₁, io⟩ := r
    dsimp only
    split
    · rfl
    · rw [evalRound, evalInput_own]
      cases evalOwn P t config readRes buffer₁ { e with screen := { e.screen with io } } with
      | error fault => rfl
      | ok s =>
        obtain ⟨buffer₂, e₂⟩ := s
        dsimp only [Run.ok_bind]
        split
        · cases nrlRenderRedraw P t e₂ with
          | error fault => rfl
          | ok e₃ => exact ih buffer₂ e₃
        · exact ih buffer₂ e₂

end Own

/-- **A call runs its own handlers.** Behind tidy calls, in whatever order and with
whatever outcome, a custom key runs in every round of a session the last handler of the
session's own configuration if it echoes, and no handler otherwise. -/
theorem ownHandlers {P : Platform} {calls : List Call} {p₀ p : Process}
    (hstart : p₀.escapeTable = nrlManipClearCustomTable)
    (htidy : Run.Guarded (Call.perform P) (Call.Tidy P) calls p₀)
    (hcalls : Run.exec (Call.perform P) calls p₀ = .ok p) {c : Call} {mode : EchoMode} {p₁ : Process}
    (hargs : checkArgs c.config = some mode) (hinit : init P c.env c.config mode p.started = .ok (true, p₁)) :
    RunsOwn P c.config p₁ := by
  have htable := escapeTable_own hstart htidy hcalls hargs hinit
  constructor
  · intro buffer e
    rw [htable]
    exact evalInput_own P p₁.terminfo c.config .customEscape buffer e
  · intro fuel buffer e
    rw [htable]
    exact readLoop_own P p₁.terminfo c.config p₁.root fuel buffer e

/-- A handler for the tab key that puts an asterisk in place of the line. -/
def starHandler : EscapeHandler := { id := 28, func := .utf32 fun _ _ _ => ([42], 1) }

/-- An echoing call with a handler, and a silent one without. -/
def echoCall (term : Option (List Byte)) : Call :=
  { fuel := 3, env := bareEnvironment term, config := { defaultConf with
      prompt := some [62], customHandlers := some [starHandler] } }

def silentCall (term : Option (List Byte)) : Call :=
  { fuel := 4, env := bareEnvironment term, config := silentConf }

/-- Behind a tidy echoing call a silent one runs no handler for the tab key. -/
theorem ownHandlers_silent : ∃ p p₁,
    Run.exec (Call.perform referencePlatform) [echoCall none] (staticProcess [.data [97, 10]]) = .ok p ∧
      init referencePlatform (bareEnvironment none) silentConf .off p.started = .ok (true, p₁) ∧
      ∀ buffer e, buffer.escape.bits = 28 →
        evalInput referencePlatform p₁.terminfo p₁.escapeTable true .customEscape buffer e = .ok (buffer, e) := by
  have hrun : (Run.exec (Call.perform referencePlatform) [echoCall none] (staticProcess [.data [97, 10]]) >>=
      fun p => init referencePlatform (bareEnvironment none) silentConf .off p.started).map Prod.fst =
      .ok true := by
    decide +kernel
  have htidy : Run.Guarded (Call.perform referencePlatform) (Call.Tidy referencePlatform) [echoCall none]
      (staticProcess [.data [97, 10]]) :=
    ⟨by decide +kernel, fun _ _ => trivial⟩
  obtain ⟨⟨ready, p₁⟩, hboth, rfl⟩ := Run.map_eq_ok.mp hrun
  obtain ⟨p, hcalls, hinit⟩ := Run.bind_eq_ok.mp hboth
  refine ⟨p, p₁, hcalls, hinit, fun buffer e hkey => ?_⟩
  have hown := ownHandlers (c := silentCall none) rfl htidy hcalls rfl hinit
  refine (hown.key buffer e).trans ?_
  rw [evalKey, hkey]
  rfl

/-- The prompt of the echoing call cannot be written: its handler stays, and the silent call
behind it, in which `s`, the tab key and a newline are typed, runs it and returns the
asterisk. -/
theorem staleHandler : ∃ p p₁,
    Run.exec (Call.perform referencePlatform) [echoCall (ascii "xterm")]
        ((staticProcess [.data [115, 9, 10]]).setWorld
          { (staticProcess [.data [115, 9, 10]]).world with writes := [.failed .other] }) = .ok p ∧
      init referencePlatform (bareEnvironment (ascii "xterm")) silentConf .off p.started = .ok (true, p₁) ∧
      (nanorl referencePlatform 4 (bareEnvironment (ascii "xterm")) silentConf p).map (fun r => r.1.data) =
        .ok (some [42]) ∧
      ¬RunsOwn referencePlatform silentConf p₁ := by
  have hrun : (Run.exec (Call.perform referencePlatform) [echoCall (ascii "xterm")]
      ((staticProcess [.data [115, 9, 10]]).setWorld
        { (staticProcess [.data [115, 9, 10]]).world with writes := [.failed .other] }) >>=
      fun p => (init referencePlatform (bareEnvironment (ascii "xterm")) silentConf .off p.started).map
        fun r => (r.1, decide (
          (nanorl referencePlatform 4 (bareEnvironment (ascii "xterm")) silentConf p).map
            (fun r => r.1.data) = .ok (some [42]) ∧
          (readLoop referencePlatform r.2.terminfo r.2.root r.2.escapeTable true 4 freshBuffer
            { line := emptyLine, screen := r.2.screen }).map (fun r => r.2.line.buffer) = .ok [42] ∧
          (ownLoop referencePlatform r.2.terminfo silentConf r.2.root 4 freshBuffer
            { line := emptyLine, screen := r.2.screen }).map (fun r => r.2.line.buffer) = .ok [115]))) =
      .ok (true, true) := by
    decide +kernel
  obtain ⟨p, hcalls, hrun⟩ := Run.bind_eq_ok.mp hrun
  obtain ⟨⟨ready, p₁⟩, hinit, hrun⟩ := Run.map_eq_ok.mp hrun
  obtain ⟨rfl, hfacts⟩ := Prod.mk.inj hrun
  obtain ⟨hdata, hstale, hown⟩ := of_decide_eq_true hfacts
  refine ⟨p, p₁, hcalls, hinit, hdata, fun hruns => ?_⟩
  have hsame := congrArg (Except.map fun r : InputBuf × Editor => r.2.line.buffer)
    (hruns.loop 4 freshBuffer { line := emptyLine, screen := p₁.screen })
  exact absurd (hstale.symm.trans (hsame.trans hown)) (by decide)

end Nanorl
