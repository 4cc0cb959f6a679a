import Nanorl.Model.Manip

/-!
# Nanorl.Model.Session

`nanorl.c`: one call of `nanorl`, from the argument check to the returned line.

`Process` is all static data of the library together with the world; calls of
one process follow each other on it. The read loop is given a number of rounds.
-/

namespace Nanorl

/-- `nrl_error` -/
inductive NrlError
  | ok
  | interrupt
  | system
  | eof
  | arg
  deriving Repr, DecidableEq

/-- `nrl_config` -/
structure Config where
  readFile : Int
  echoFile : Int
  prompt : Option (List Byte)
  preload : Option (List Byte)
  assumeSmkx : Bool
  echoMode : Int
  customIgnoreDefault : Bool
  customHandlers : Option (List EscapeHandler)

/-- `default_conf` -/
def defaultConf : Config where
  readFile := 0
  echoFile := 1
  prompt := none
  preload := none
  assumeSmkx := false
  echoMode := 1
  customIgnoreDefault := true
  customHandlers := none

/-- The echo mode an integer stands for. -/
def EchoMode.ofCode : Int → Option EchoMode
  | 0 => some .off
  | 1 => some .on
  | 2 => some .obscured
  | _ => none

structure Process where
  terminfo : Terminfo
  root : DfaNode
  screen : Screen
  escapeTable : EscapeTable
  oldAttrs : Termios
  oldActions : Signal → SigAction

/-- What `nanorl` returns, and what it stores in `error`. -/
structure NanorlResult where
  data : Option (List Byte)
  error : NrlError
  deriving Repr, DecidableEq

def Process.world (p : Process) : World := p.screen.io.world

def Process.setWorld (p : Process) (world : World) : Process :=
  { p with screen := { p.screen with io := { p.screen.io with world } } }

def Process.setIo (p : Process) (io : Io) : Process :=
  { p with screen := { p.screen with io } }

section Session

variable (P : Platform)

/-! ### Setting up -/

/-- `check_args`: the echo mode of a valid configuration. -/
def checkArgs (config : Config) : Option EchoMode :=
  if config.readFile < 0 ∨ config.echoFile < 0 then none
  else EchoMode.ofCode config.echoMode

/-- The terminal information and the tree `init` makes of it. -/
def loadDfa (env : Environment) (p : Process) : Except Fault Process := do
  let (loaded, terminfo) ← nrlLoadTerminfo env p.terminfo
  let p := { p with terminfo }
  if loaded then
    match env.term with
    | none => throw .nullDeref
    | some envTerm =>
      let root ← nrlDfaBuild terminfo envTerm p.root
      pure { p with root }
  else pure p

/-- The terminal part of `init`. -/
def setAttrs (p : Process) : Bool × Process :=
  match p.world.isatty with
  | (false, world) => (true, p.setWorld world)
  | (true, world) =>
    match world.tcgetattr with
    | (none, world) => (false, p.setWorld world)
    | (some attrs, world) =>
      let (set, world) := world.tcsetattr { attrs with icanon := false, echo := false }
      (set, { p with oldAttrs := attrs }.setWorld world)

/-- A chain of `sigaction` calls that store the old dispositions, up to the
first one that fails. -/
def setSignals : List (Signal × SigAction) → Process → Bool × Process
  | [], p => (true, p)
  | (sig, act) :: rest, p =>
    match p.world.sigaction sig act with
    | (none, world) => (false, p.setWorld world)
    | (some old, world) =>
      setSignals rest
        ({ p with oldActions := fun s => if s = sig then old else p.oldActions s }.setWorld world)

/-- The keypad sequence of `init`. -/
def writeKeypad (config : Config) (t : Terminfo) (io : Io) : Except Fault (Bool × Io) :=
  if config.assumeSmkx then .ok (true, io) else nrlIoWriteEscape P t .keypadXmit io

/-- The prompt of `init`, if there is one. -/
def writePrompt (config : Config) (io : Io) : Except Fault (Bool × Io) :=
  match config.prompt with
  | none => .ok (true, io)
  | some prompt => nrlIoWrite P prompt io

/-- The output part of `init`: keypad mode, prompt, handlers, echo state. -/
def initOutput (config : Config) (mode : EchoMode) (p : Process) :
    Except Fault (Bool × Process) := do
  let io := nrlIoInit config.readFile config.echoFile config.preload
    (nrlIoEchoState true p.screen.io)
  let (written, io) ← writeKeypad P config p.terminfo io
  if !written then return (false, p.setIo io)
  let (written, io) ← writePrompt P config io
  if !written then return (false, p.setIo io)
  -- custom handlers are disabled for secure data
  let p := if mode = .on then
      { p with escapeTable := nrlManipMakeCustomTable config.customHandlers p.escapeTable }
    else p
  let (flushed, io) ← nrlIoFlush P (nrlIoEchoState (mode ≠ .off) io)
  return (flushed, p.setIo io)

/-- `init` -/
def init (env : Environment) (config : Config) (mode : EchoMode) (p : Process) :
    Except Fault (Bool × Process) := do
  let p ← loadDfa env p
  let (set, p) := setAttrs p
  if !set then return (false, p)
  let (set, p) := setSignals
    [(.winch, .sigwinch), (.hup, .generic), (.int, .generic), (.term, .generic),
      (.quit, .generic)] p
  if !set then return (false, p)
  let (ready, p) ← initOutput P config mode p
  if !ready then return (false, p)
  let (ready, screen) ← nrlRenderInit P p.terminfo mode config.echoFile p.screen
  return (ready, { p with screen })

/-! ### Tearing down -/

/-- The terminal part of `deinit`. -/
def restoreAttrs (p : Process) : Bool × Process :=
  match p.world.isatty with
  | (false, world) => (true, p.setWorld world)
  | (true, world) =>
    let (set, world) := world.tcsetattr p.oldAttrs
    (set, p.setWorld world)

/-- A chain of `sigaction` calls that give the old dispositions back. -/
def restoreSignals : List Signal → Process → Bool × Process
  | [], p => (true, p)
  | sig :: rest, p =>
    match p.world.sigaction sig (p.oldActions sig) with
    | (none, world) => (false, p.setWorld world)
    | (some _, world) => restoreSignals rest (p.setWorld world)

/-- The output part of `deinit`. -/
def deinitOutput (t : Terminfo) (mode : EchoMode) (io : Io) : Except Fault (Bool × Io) := do
  let io := if mode ≠ .on then nrlIoWipeBuffers io else io
  let (written, io) ← nrlIoWrite P [10] (nrlIoEchoState true io)
  if !written then return (false, io)
  let (written, io) ← nrlIoWriteEscape P t .keypadLocal io
  if !written then return (false, io)
  nrlIoFlush P io

/-- `deinit` -/
def deinit (mode : EchoMode) (p : Process) : Except Fault (Bool × Process) := do
  let p := { p with escapeTable := nrlManipClearCustomTable }
  let (set, p) := restoreAttrs p
  if !set then return (false, p)
  let (set, p) := restoreSignals [.hup, .int, .term, .quit, .winch] p
  if !set then return (false, p)
  let (ready, io) ← deinitOutput P p.terminfo mode p.screen.io
  return (ready, p.setIo io)

/-! ### The read loop -/

/-- `(uchar)c` of a signed `char`. -/
def signedChar (c : Byte) : Uchar :=
  if c < 0x80 then c.toUInt32 else c.toUInt32 + 0xffffff00

/-- The loop that inserts a custom sequence as text. -/
def spellCustom : List Byte → InputBuf → Editor → Except Fault (InputBuf × Editor)
  | [], buffer, e => .ok (buffer, e)
  | c :: asText, buffer, e => do
      match nrlIoParseControl (signedChar c) buffer with
      | (true, buffer) =>
        let e ← nrlManipInsertText P buffer.text e
        spellCustom asText buffer e
      | (false, buffer) =>
        let e ← nrlManipInsertText P [signedChar c] e
        spellCustom asText buffer e

/-- The evaluation of one input. -/
def evalInput (t : Terminfo) (table : EscapeTable) (ignoreDefault : Bool) (readRes : InputType)
    (buffer : InputBuf) (e : Editor) : Except Fault (InputBuf × Editor) :=
  match readRes with
  | .text => do
      let e ← nrlManipInsertText P buffer.text e
      pure (buffer, e)
  | .escape => do
      let e ← nrlManipEvalEscape P t buffer.escape.bits e
      pure (buffer, e)
  | .customEscape => do
      let (handled, e) ← nrlManipEvalCustom P t table buffer.escape.bits e
      if handled || ignoreDefault then pure (buffer, e)
      else
        match nrlLookupCustom t buffer.escape.bits with
        | none => throw .nullDeref
        | some asText => spellCustom P asText buffer e
  | .stop => .ok (buffer, e)

/-- One round of the loop of `nanorl` behind the read. -/
def evalRound (t : Terminfo) (table : EscapeTable) (ignoreDefault : Bool) (readRes : InputType)
    (buffer : InputBuf) (e : Editor) : Except Fault (InputBuf × Editor) := do
  let (buffer, e) ← evalInput P t table ignoreDefault readRes buffer e
  if !buffer.more && e.line.dirty then
    let e ← nrlRenderRedraw P t e
    pure (buffer, e)
  else pure (buffer, e)

/-- The loop of `nanorl`, up to the stop event. -/
def readLoop (t : Terminfo) (root : DfaNode) (table : EscapeTable) (ignoreDefault : Bool) :
    Nat → InputBuf → Editor → Except Fault (InputBuf × Editor)
  | 0, _, _ => .error .outOfFuel
  | fuel + 1, buffer, e => do
      let (readRes, buffer, io) ← nrlIoRead P root buffer e.screen.io
      let e := { e with screen := { e.screen with io } }
      if readRes = .stop then pure (buffer, e)
      else
        let (buffer, e) ← evalRound P t table ignoreDefault readRes buffer e
        readLoop t root table ignoreDefault fuel buffer e

/-- The line `nanorl` starts with. -/
def emptyLine : LineData := { buffer := [], cursor := 0, renderCursor := 0, dirty := false }

/-- The return of `nanorl` once `deinit` has succeeded. -/
def finishLine (eof : Bool) (line : LineData) (errno : Errno) : NanorlResult :=
  if eof && line.buffer.length = 0 then { data := none, error := .eof }
  else
    { data := some (P.utf8Encode (cstr (line.buffer ++ [0])))
      error := if errno = .eintr then .interrupt else .ok }

/-- `nanorl` -/
def nanorl (fuel : Nat) (env : Environment) (config : Config) (p : Process) :
    Except Fault (NanorlResult × Process) := do
  let p := p.setWorld { p.world with errno := .none }
  match checkArgs config with
  | none => pure ({ data := none, error := .arg }, p)
  | some mode =>
    let (ready, p) ← init P env config mode p
    if !ready then return ({ data := none, error := .system }, p)
    let (buffer, e) ← readLoop P p.terminfo p.root p.escapeTable config.customIgnoreDefault
      fuel freshBuffer { line := emptyLine, screen := p.screen }
    let (done, p) ← deinit P mode { p with screen := e.screen }
    if !done then return ({ data := none, error := .system }, p)
    return (finishLine P buffer.eof e.line p.world.errno, p)

/-- `nrl_readline` -/
def nrlReadline (fuel : Nat) (env : Environment) (prompt : Option (List Byte)) (p : Process) :
    Except Fault (Option (List Byte) × Process) := do
  let (result, p) ← nanorl P fuel env { defaultConf with prompt } p
  pure (result.data, p)

end Session

end Nanorl
