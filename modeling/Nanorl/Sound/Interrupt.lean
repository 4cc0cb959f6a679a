import Nanorl.Sound.Calls

/-!
# Nanorl.Sound.Interrupt

How a call of `nanorl` tells that a line was interrupted.

The verdict is taken from `errno` when `deinit` is over, so it is about whichever system
call was the last to fail: `isatty` on what is no terminal, and otherwise the last one
before `deinit`. The ghost of the reader says which `read` has ended the line
(`tracedLoop`), `Process.closes` whether `deinit` succeeds, and `verdict_iff` when the
verdict tells the one from the other.
-/

namespace Nanorl

open Run (Ends Same)

/-! ### The read that ends a line -/

/-- The loop of `nanorl`, and the failed read behind the character that has ended it. -/
def tracedLoop (P : Platform) (t : Terminfo) (root : DfaNode) (table : EscapeTable) (ignoreDefault : Bool) :
    Nat → InputBuf → Editor → (Nat → Option World) → Except Fault (Option World × InputBuf × Editor)
  | 0, _, _, _ => .error .outOfFuel
  | fuel + 1, buffer, e, failed => do
      let ((readRes, buffer), cause, m) ← Traced.nrlIoRead P root buffer { io := e.screen.io, failed }
      let e := { e with screen := { e.screen with io := m.io } }
      if readRes = .stop then pure (cause, buffer, e)
      else
        let (buffer, e) ← evalRound P t table ignoreDefault readRes buffer e
        tracedLoop P t root table ignoreDefault fuel buffer e m.failed

/-- The ghost's loop is that of `nanorl`, and calls lead from behind the failed read it
gives to the end of the loop. -/
theorem tracedLoop_follows (P : Platform) (t : Terminfo) (root : DfaNode) (table : EscapeTable)
    (ignoreDefault : Bool) (fuel : Nat) (buffer : InputBuf) (e : Editor) (failed : Nat → Option World)
    (hsound : Traced.Sound { io := e.screen.io, failed }) :
    Same (fun r r' => r'.2 = r ∧ ∀ w, r'.1 = some w → w.Reaches r.2.screen.io.world)
      (readLoop P t root table ignoreDefault fuel buffer e)
      (tracedLoop P t root table ignoreDefault fuel buffer e failed) := by
  induction fuel generalizing buffer e failed with
  | zero => exact .error _
  | succ fuel ih =>
    unfold readLoop tracedLoop
    refine (Traced.nrlIoRead_follows P root buffer hsound).bind fun r r' hr => ?_
    obtain ⟨readRes, buffer₁, io₁⟩ := r
    obtain ⟨⟨_, _⟩, cause, m⟩ := r'
    obtain ⟨heq, hcause, rfl, -, hsound₁⟩ := hr
    obtain ⟨rfl, rfl⟩ := Prod.mk.inj heq
    dsimp only
    split
    · exact .ok ⟨rfl, hcause⟩
    · generalize hround : evalRound P t table ignoreDefault _ _ _ = round
      cases round with
      | error f => exact .error f
      | ok r =>
        obtain ⟨buffer₂, e₂⟩ := r
        have hreaches : m.io.Reaches e₂.screen.io := (Io.Reaches.frame P).evalRound hround
        exact ih _ _ _ fun i w hi => (hsound₁ i w hi).trans hreaches

/-! ### Tearing down -/

section Deinit

variable {P : Platform}

theorem nrlIoWriteEscape_errno {t : Terminfo} {escape : TerminfoOutput} {io io' : Io}
    (h : nrlIoWriteEscape P t escape io = .ok (true, io')) : io'.world.errno = io.world.errno := by
  unfold nrlIoWriteEscape at h
  split at h
  · obtain ⟨-, rfl⟩ := Prod.mk.inj (Except.ok.inj h)
    rfl
  · exact nrlIoWrite_errno h

theorem deinitOutput_errno {t : Terminfo} {mode : EchoMode} {io io' : Io}
    (h : deinitOutput P t mode io = .ok (true, io')) : io'.world.errno = io.world.errno := by
  obtain ⟨io₀, io₁, io₂, hworld, -, hnewline, hkeypad, hflush⟩ := deinitOutput_done h
  calc io'.world.errno = io₂.world.errno := (nrlIoFlush_delivers hflush).2.2
    _ = io₁.world.errno := nrlIoWriteEscape_errno hkeypad
    _ = io₀.world.errno := nrlIoWrite_errno hnewline
    _ = io.world.errno := by rw [hworld]

/-- A `deinit` that succeeds leaves `errno`, but for `isatty`. -/
theorem deinit_errno {mode : EchoMode} {p p' : Process} (h : deinit P mode p = .ok (true, p')) :
    p'.world.errno = if p.world.isTty then p.world.errno else .enotty := by
  obtain ⟨p₂, io, -, herrno, houtput, rfl⟩ := deinit_done h
  exact (deinitOutput_errno houtput).trans herrno

end Deinit

/-! ### What `deinit` needs to succeed -/

/-- A write of `n` bytes is taken whole. -/
def WriteResult.whole (n : Nat) : WriteResult → Bool
  | .complete => true
  | .short count => n ≤ count
  | .failed _ => false

/-- Writes of `lengths` bytes, one after another, are all taken whole. -/
def takenWhole : List WriteResult → List Nat → Bool
  | _, [] => true
  | writes, n :: lengths => (writes.head?.getD .complete).whole n && takenWhole writes.tail lengths

/-- The writes of a flush of `count` bytes. -/
def flushLengths (count : Nat) : List Nat := if count = 0 then [] else [count]

/-- The write of `length` bytes that do not fit the buffer, and how many bytes there are in the
buffer then. -/
def bufferLengths (length count : Nat) : List Nat × Nat :=
  if length > ioBufSize then ([length], count) else ([], count + length)

/-- The writes of an `nrl_io_write` of `length` bytes behind `count` bytes in the buffer, and how
many it leaves there. -/
def writeLengths (length count : Nat) : List Nat × Nat :=
  if (count + length) % 2 ^ 32 > ioBufSize then
    (flushLengths count ++ (bufferLengths length 0).1, (bufferLengths length 0).2)
  else bufferLengths length count

/-- The same of an `nrl_io_write_escape`. -/
def escapeLengths (t : Terminfo) (escape : TerminfoOutput) (count : Nat) : List Nat × Nat :=
  match nrlLookupOutput t escape.id with
  | none => ([], count)
  | some asText => writeLengths asText.length count

/-- The writes of `deinit`, with `count` bytes in the buffer: a newline, the end of keypad mode
and a flush. -/
def closingLengths (t : Terminfo) (count : Nat) : List Nat :=
  let (newline, count) := writeLengths 1 count
  let (keypad, count) := escapeLengths t .keypadLocal count
  newline ++ (keypad ++ flushLengths count)

/-- No call of `deinit` fails, and no write of it is cut short. -/
def Process.closes (p : Process) : Bool :=
  p.world.tornDown && takenWhole p.world.writes (closingLengths p.terminfo p.screen.io.wrCount)

/-- The output has made writes of `lengths` bytes up to the first that is not taken whole, and
otherwise leaves `left` bytes in the buffer. -/
structure Io.Hands (lengths : List Nat) (left : Nat) (io : Io) (done : Bool) (io' : Io) : Prop where
  whole : done = takenWhole io.world.writes lengths
  writes : done = true → io'.world.writes = io.world.writes.drop lengths.length
  wrCount : done = true → io'.wrCount = left
  echoEnabled : io'.echoEnabled = io.echoEnabled

section Hands

theorem takenWhole_append (writes : List WriteResult) (lengths lengths' : List Nat) :
    takenWhole writes (lengths ++ lengths') =
      (takenWhole writes lengths && takenWhole (writes.drop lengths.length) lengths') := by
  induction lengths generalizing writes with
  | nil => rfl
  | cons n lengths ih =>
    rw [List.cons_append, takenWhole, takenWhole, ih, Bool.and_assoc, List.drop_tail, List.length_cons]

/-- A write reports all of its data exactly if it is taken whole. -/
theorem World.write_whole (w : World) (data : List Byte) :
    decide ((w.write data).1 = data.length) = takenWhole w.writes [data.length] ∧
      (w.write data).2.writes = w.writes.drop 1 := by
  unfold World.write takenWhole takenWhole
  rw [Bool.and_true]
  cases hw : w.writes with
  | nil => simp [WriteResult.whole]
  | cons r ws =>
    cases r with
    | complete => simp [WriteResult.whole]
    | short count => simp [WriteResult.whole]
    | failed errno => simp [WriteResult.whole]

variable {P : Platform} {io io₁ io' : Io} {lengths lengths' : List Nat} {left left' : Nat} {done : Bool}

theorem Io.Hands.trans (h : io.Hands lengths left true io₁) (h' : io₁.Hands lengths' left' done io') :
    io.Hands (lengths ++ lengths') left' done io' where
  whole := by rw [takenWhole_append, ← h.whole, ← h.writes rfl, Bool.true_and, h'.whole]
  writes := fun hdone => by
    rw [h'.writes hdone, h.writes rfl, List.drop_drop, List.length_append]
  wrCount := h'.wrCount
  echoEnabled := h'.echoEnabled.trans h.echoEnabled

/-- A failure is the end of it. -/
theorem Io.Hands.failed (h : io.Hands lengths left false io') (lengths' : List Nat) (left' : Nat) :
    io.Hands (lengths ++ lengths') left' false io' where
  whole := by rw [takenWhole_append, ← h.whole, Bool.false_and]
  writes := nofun
  wrCount := nofun
  echoEnabled := h.echoEnabled

theorem nrlIoFlush_hands (h : nrlIoFlush P io = .ok (done, io')) :
    io.Hands (flushLengths io.wrCount) 0 done io' := by
  unfold nrlIoFlush at h
  obtain ⟨_, -, h⟩ := Run.bind_eq_ok.mp h
  unfold flushLengths
  split at h
  · rename_i hzero
    obtain ⟨rfl, rfl⟩ := Prod.mk.inj (Except.ok.inj h)
    rw [if_pos hzero]
    exact ⟨rfl, fun _ => rfl, fun _ => hzero, rfl⟩
  · rename_i hcount
    obtain ⟨hwhole, hwrites⟩ := io.world.write_whole (slice io.wrBuf 0 io.wrCount)
    rw [length_slice] at hwhole
    rw [if_neg hcount]
    dsimp only at h
    split at h
    · rename_i hshort
      obtain ⟨rfl, rfl⟩ := Prod.mk.inj (Except.ok.inj h)
      exact ⟨by rw [← hwhole, decide_eq_false hshort], nofun, nofun, rfl⟩
    · rename_i hall
      obtain ⟨rfl, rfl⟩ := Prod.mk.inj (Except.ok.inj h)
      exact ⟨by rw [← hwhole, decide_eq_true (not_not.mp hall)], fun _ => hwrites, fun _ => rfl, rfl⟩

theorem bufferData_hands {data : List Byte} (h : bufferData data io = .ok (done, io')) :
    io.Hands (bufferLengths data.length io.wrCount).1 (bufferLengths data.length io.wrCount).2 done io' := by
  unfold bufferData at h
  unfold bufferLengths
  split at h
  · rename_i hlarge
    obtain ⟨hwhole, hwrites⟩ := io.world.write_whole data
    obtain ⟨rfl, rfl⟩ := Prod.mk.inj (Except.ok.inj h)
    rw [if_pos hlarge]
    exact ⟨hwhole, fun _ => hwrites, fun _ => rfl, rfl⟩
  · rename_i hsmall
    rw [if_neg hsmall]
    split at h
    · obtain ⟨rfl, rfl⟩ := Prod.mk.inj (Except.ok.inj h)
      exact ⟨rfl, fun _ => rfl, fun _ => rfl, rfl⟩
    · cases h

theorem nrlIoWrite_hands {data : List Byte} (henabled : io.echoEnabled = true)
    (h : nrlIoWrite P data io = .ok (done, io')) :
    io.Hands (writeLengths data.length io.wrCount).1 (writeLengths data.length io.wrCount).2 done io' := by
  unfold nrlIoWrite at h
  rw [if_pos henabled] at h
  unfold writeLengths
  split at h
  · rename_i hfull
    rw [if_pos hfull]
    obtain ⟨⟨flushed, io₁⟩, hflush, h⟩ := Run.bind_eq_ok.mp h
    have hflushed := nrlIoFlush_hands hflush
    cases flushed with
    | false =>
      obtain ⟨rfl, rfl⟩ := Prod.mk.inj (Except.ok.inj h)
      exact hflushed.failed _ _
    | true =>
      have hbuffered := bufferData_hands h
      rw [hflushed.wrCount rfl] at hbuffered
      exact hflushed.trans hbuffered
  · rename_i hroom
    rw [if_neg hroom]
    exact bufferData_hands h

theorem nrlIoWriteEscape_hands {t : Terminfo} {escape : TerminfoOutput} (henabled : io.echoEnabled = true)
    (h : nrlIoWriteEscape P t escape io = .ok (done, io')) :
    io.Hands (escapeLengths t escape io.wrCount).1 (escapeLengths t escape io.wrCount).2 done io' := by
  unfold nrlIoWriteEscape at h
  unfold escapeLengths
  cases hlookup : nrlLookupOutput t escape.id with
  | none =>
    rw [hlookup] at h
    obtain ⟨rfl, rfl⟩ := Prod.mk.inj (Except.ok.inj h)
    exact ⟨rfl, fun _ => rfl, fun _ => rfl, rfl⟩
  | some asText =>
    rw [hlookup] at h
    exact nrlIoWrite_hands henabled h

theorem deinitOutput_hands {t : Terminfo} {mode : EchoMode}
    (h : deinitOutput P t mode io = .ok (done, io')) :
    done = takenWhole io.world.writes (closingLengths t io.wrCount) := by
  obtain ⟨io₀, hworld, hcount, henabled, hcases⟩ := deinitOutput_cases h
  rw [← hworld, ← hcount]
  rcases hcases with ⟨hnewline, rfl⟩ | ⟨io₁, hnewline, hcases⟩
  · exact ((nrlIoWrite_hands henabled hnewline).failed _ 0).whole
  · have hfirst := nrlIoWrite_hands henabled hnewline
    have henabled₁ : io₁.echoEnabled = true := hfirst.echoEnabled.trans henabled
    rcases hcases with ⟨hkeypad, rfl⟩ | ⟨io₂, hkeypad, hflush⟩
    · have hsecond := nrlIoWriteEscape_hands henabled₁ hkeypad
      rw [hfirst.wrCount rfl] at hsecond
      exact (hfirst.trans (hsecond.failed _ 0)).whole
    · have hsecond := nrlIoWriteEscape_hands henabled₁ hkeypad
      have hlast := nrlIoFlush_hands hflush
      rw [hsecond.wrCount rfl, hfirst.wrCount rfl] at hlast
      rw [hfirst.wrCount rfl] at hsecond
      exact (hfirst.trans (hsecond.trans hlast)).whole

/-- A `deinit` that returns succeeds exactly if none of its calls fails and none of its writes is
cut short. -/
theorem deinit_closes {mode : EchoMode} {p p' : Process} (h : deinit P mode p = .ok (done, p')) :
    done = p.closes := by
  unfold Process.closes
  rcases deinit_cases h with ⟨htorn, rfl⟩ | ⟨htorn, p₂, io, hcalls, -, houtput, -⟩
  · rw [htorn, Bool.false_and]
  · have hwrites : p₂.world.writes = p.world.writes ∧ p₂.screen.io.wrCount = p.screen.io.wrCount := by
      obtain ⟨_, _, _, _, hscreen⟩ := hcalls.screen
      rw [Process.world, hscreen]
      exact ⟨rfl, rfl⟩
    have hterminfo : p₂.terminfo = p.terminfo := hcalls.terminfo
    have hdone := deinitOutput_hands houtput
    rw [htorn, Bool.true_and, hdone, hterminfo, hwrites.2]
    exact congrArg (takenWhole · _) hwrites.1

end Hands

/-! ### The verdict -/

/-- The failed read behind the character that has ended the line. -/
def endingFailure (P : Platform) (fuel : Nat) (config : Config) (p : Process) : Option World :=
  match tracedLoop P p.terminfo p.root p.escapeTable config.customIgnoreDefault fuel freshBuffer
    { line := emptyLine, screen := p.screen } (fun _ => none) with
  | .ok (cause, _) => cause
  | .error _ => none

/-- The `read` that has ended the line has failed with `EINTR`. -/
def Interrupted (P : Platform) (fuel : Nat) (config : Config) (p : Process) : Prop :=
  ∃ w, endingFailure P fuel config p = some w ∧ w.errno = .eintr

/-- The verdict on a line says whether it was interrupted. -/
def VerdictHolds (P : Platform) (fuel : Nat) (config : Config) (p₁ : Process) (error : NrlError) : Prop :=
  (error = .interrupt ↔ Interrupted P fuel config p₁) ∧ (¬Interrupted P fuel config p₁ → error = .ok)

/-- What the system calls must be like of a session that starts in `w` and has a loop from `p₁` to
`last`. A `read` that has ended the line with `EINTR` was from a terminal, and a call that has failed
behind it has failed with `EINTR` too. Where the line has ended otherwise, the last call to fail on
a terminal has not failed with `EINTR`. -/
structure LastToFail (P : Platform) (fuel : Nat) (config : Config) (w : World) (p₁ : Process)
    (last : World) : Prop where
  behind : ∀ w', endingFailure P fuel config p₁ = some w' → w'.errno = .eintr →
    w.isTty = true ∧ ∀ error, w'.LastFailure error last → error = .eintr
  otherwise : ¬Interrupted P fuel config p₁ → w.isTty = true → ¬w.LastFailure .eintr last

section Verdict

variable {P : Platform} {fuel : Nat} {env : Environment} {config : Config} {p p₁ p' : Process}
  {mode : EchoMode} {buffer : InputBuf} {e : Editor} {result : NanorlResult}

/-- Calls lead from behind the ending read to the end of the loop. -/
theorem Session.ending_reaches (h : Session P fuel env config p mode p₁ buffer e) {w : World}
    (hw : endingFailure P fuel config p₁ = some w) : w.Reaches e.screen.io.world := by
  have hfollows := tracedLoop_follows P p₁.terminfo p₁.root p₁.escapeTable config.customIgnoreDefault fuel
    freshBuffer { line := emptyLine, screen := p₁.screen } (fun _ => none) (fun _ _ hi => nomatch hi)
  obtain ⟨⟨cause, r⟩, htraced, rfl, hcause⟩ := hfollows.of_ok h.loop
  unfold endingFailure at hw
  rw [htraced] at hw
  exact hcause w hw

theorem Session.reaches (h : Session P fuel env config p mode p₁ buffer e) :
    p.started.world.Reaches e.screen.io.world := by
  have hinit : p.started.world.Reaches p₁.world := (init_reaches P env config mode p.started).of_ok h.init
  have hloop : p₁.screen.io.Reaches e.screen.io := (Io.Reaches.frame P).readLoop h.loop
  exact hinit.trans hloop

theorem Session.isTty (h : Session P fuel env config p mode p₁ buffer e) :
    e.screen.io.world.isTty = p.world.isTty := by
  have hinit : p₁.world.isTty = p.world.isTty := ((init_leaves P env config mode p.started).of_ok h.init).isTty
  have hloop : p₁.screen.io.SameTerminal e.screen.io := (Io.SameTerminal.frame P).readLoop h.loop
  exact hloop.isTty.trans hinit

/-- On a terminal, `errno` tells at the end of the loop whether the line was interrupted if and
only if the last call to fail does. -/
theorem Session.errno_iff (h : Session P fuel env config p mode p₁ buffer e)
    (htty : p.world.isTty = true) :
    (e.screen.io.world.errno = .eintr ↔ Interrupted P fuel config p₁) ↔
      LastToFail P fuel config p.started.world p₁ e.screen.io.world := by
  constructor
  · intro hiff
    refine ⟨fun w hw herrno => ⟨htty, fun error hlast => ?_⟩, fun hnot _ hlast => ?_⟩
    · rw [← hlast.errno]
      exact hiff.mpr ⟨w, hw, herrno⟩
    · exact hnot (hiff.mp hlast.errno)
  · intro hlast
    constructor
    · intro herrno
      by_contra hnot
      rcases h.reaches.cases with hsame | hfailure
      · rw [herrno] at hsame
        cases hsame
      · rw [herrno] at hfailure
        exact hlast.otherwise hnot htty hfailure
    · rintro ⟨w, hw, herrno⟩
      rcases (h.ending_reaches hw).cases with hsame | hfailure
      · exact hsame.trans herrno
      · exact (hlast.behind w hw herrno).2 _ hfailure

/-- The return of a session whose line is not empty. -/
theorem Session.verdict (h : Session P fuel env config p mode p₁ buffer e) (hline : e.line.buffer ≠ [])
    (hcall : nanorl P fuel env config p = .ok (result, p')) :
    ∃ done, deinit P mode { p₁ with screen := e.screen } = .ok (done, p') ∧
      result.error = if done then if p'.world.errno = .eintr then .interrupt else .ok else .system := by
  rw [h.nanorl_eq] at hcall
  obtain ⟨⟨done, p₂⟩, hdeinit, hresult⟩ := Run.bind_eq_ok.mp hcall
  cases done with
  | false =>
    obtain ⟨rfl, rfl⟩ := Prod.mk.inj (Except.ok.inj hresult)
    exact ⟨false, hdeinit, rfl⟩
  | true =>
    obtain ⟨rfl, rfl⟩ := Prod.mk.inj (Except.ok.inj hresult)
    refine ⟨true, hdeinit, ?_⟩
    have hlength : e.line.buffer.length ≠ 0 := fun hzero => hline (List.eq_nil_of_length_eq_zero hzero)
    unfold finishLine
    rw [if_neg (by simp [hlength])]
    rfl

/-- A line that is not empty is reported as interrupted if and only if it was, and otherwise as
read, exactly if no call or write of `deinit` fails and the last call to fail before it tells
whether it was. -/
theorem verdict_iff (h : Session P fuel env config p mode p₁ buffer e) (hline : e.line.buffer ≠ [])
    (hcall : nanorl P fuel env config p = .ok (result, p')) :
    VerdictHolds P fuel config p₁ result.error ↔
      Process.closes { p₁ with screen := e.screen } = true ∧
        LastToFail P fuel config p.started.world p₁ e.screen.io.world := by
  obtain ⟨done, hdeinit, herror⟩ := h.verdict hline hcall
  rw [← deinit_closes hdeinit]
  unfold VerdictHolds
  cases done with
  | false =>
    rw [herror]
    refine iff_of_false (fun hholds => ?_) (fun hdone => by cases hdone.1)
    cases hholds.2 fun hinterrupted => by cases hholds.1.mpr hinterrupted
  | true =>
    have herrno : p'.world.errno = if p.world.isTty then e.screen.io.world.errno else .enotty := by
      rw [← h.isTty]
      exact deinit_errno hdeinit
    rw [herror, if_pos rfl, and_iff_right rfl]
    cases htty : p.world.isTty with
    | true =>
      rw [htty, if_pos rfl] at herrno
      rw [herrno, ← h.errno_iff htty]
      by_cases hintr : e.screen.io.world.errno = .eintr
      · simp [hintr]
      · simp [hintr]
    | false =>
      rw [htty, if_neg (by decide)] at herrno
      have hok : (if p'.world.errno = .eintr then NrlError.interrupt else .ok) = .ok := by rw [herrno]; rfl
      rw [hok]
      constructor
      · rintro ⟨hiff, -⟩
        refine ⟨fun w hw hintr => ?_, fun _ hterminal => ?_⟩
        · cases hiff.mpr ⟨w, hw, hintr⟩
        · cases htty.symm.trans hterminal
      · intro hlast
        have hnot : ¬Interrupted P fuel config p₁ := by
          rintro ⟨w, hw, hintr⟩
          cases htty.symm.trans (hlast.behind w hw hintr).1
        exact ⟨iff_of_false nofun hnot, fun _ => rfl⟩

end Verdict

/-! ### Two sessions -/

/-- The session of a call that has returned `a`. -/
theorem session_of_line {env : Environment} {config : Config} {p : Process} {fuel : Nat} {error : NrlError}
    (h : (nanorl referencePlatform fuel env config p).map Prod.fst = .ok { data := some [97], error })
    (herror : error = .ok ∨ error = .interrupt) :
    ∃ mode p₁ buffer e p', Session referencePlatform fuel env config p mode p₁ buffer e ∧
      e.line.buffer ≠ [] ∧
      nanorl referencePlatform fuel env config p = .ok ({ data := some [97], error }, p') ∧
      deinit referencePlatform mode { p₁ with screen := e.screen } = .ok (true, p') := by
  obtain ⟨⟨result, p'⟩, hcall, rfl⟩ := Run.map_eq_ok.mp h
  rcases nanorl_cases hcall with ⟨-, -, harg⟩ | ⟨-, hsystem, -⟩ |
    ⟨-, mode, p₁, buffer, e, done, hsession, hdeinit, hresult⟩
  · rcases herror with rfl | rfl <;> cases harg
  · rcases herror with rfl | rfl <;> cases hsystem
  · cases done with
    | false => cases congrArg NanorlResult.data hresult
    | true =>
      refine ⟨mode, p₁, buffer, e, p', hsession, fun hempty => ?_, hcall, hdeinit⟩
      have hdata := congrArg NanorlResult.data hresult
      rw [if_pos rfl, finishLine, hempty] at hdata
      split at hdata
      · cases hdata
      · have hnone : some [97] ≠ some (referencePlatform.utf8Encode (cstr ([] ++ [0]))) := by decide
        exact hnone hdata

/-- What the ghost says of a silent session. -/
theorem Session.ending_silent {env : Environment} {p p₁ : Process} {mode : EchoMode} {buffer : InputBuf}
    {e : Editor} {fuel : Nat} {x : Option Errno}
    (h : Session referencePlatform fuel env silentConf p mode p₁ buffer e)
    (hrun : (Nanorl.init referencePlatform env silentConf .off p.started).map (fun r =>
      (endingFailure referencePlatform fuel silentConf r.2).map World.errno) = .ok x) :
    (endingFailure referencePlatform fuel silentConf p₁).map World.errno = x := by
  obtain rfl : EchoMode.off = mode := Option.some.inj h.args
  rw [h.init] at hrun
  exact Except.ok.inj hrun

/-- At a terminal, a line that a signal has ended is reported as interrupted. -/
theorem verdict_iff_tty : ∃ mode p₁ buffer e,
    Session referencePlatform 3 (bareEnvironment none) silentConf
      (ttyProcess [] [.data [97], .failed .eintr]) mode p₁ buffer e ∧
    VerdictHolds referencePlatform 3 silentConf p₁ .interrupt := by
  have hrun : (nanorl referencePlatform 3 (bareEnvironment none) silentConf
      (ttyProcess [] [.data [97], .failed .eintr])).map Prod.fst =
        .ok { data := some [97], error := .interrupt } := by
    decide +kernel
  obtain ⟨mode, p₁, buffer, e, p', hsession, hline, hcall, hdeinit⟩ :=
    session_of_line hrun (.inr rfl)
  have hending : (endingFailure referencePlatform 3 silentConf p₁).map World.errno = some .eintr :=
    hsession.ending_silent (by decide +kernel)
  obtain ⟨w, hw, hintr⟩ := Option.map_eq_some_iff.mp hending
  obtain ⟨done, hdeinit', herror⟩ := hsession.verdict hline hcall
  obtain ⟨rfl, -⟩ := Prod.mk.inj (Except.ok.inj (hdeinit.symm.trans hdeinit'))
  have herrno' : p'.world.errno = .eintr := by
    by_contra hne
    rw [if_pos rfl, if_neg hne] at herror
    cases herror
  have herrno : e.screen.io.world.errno = .eintr := by
    rw [← herrno', deinit_errno hdeinit]
    exact (if_pos hsession.isTty).symm
  refine ⟨mode, p₁, buffer, e, hsession, (verdict_iff hsession hline hcall).mpr
    ⟨(deinit_closes hdeinit).symm, ?_, ?_⟩⟩
  · exact fun w' _ _ => ⟨rfl, fun error hlast => hlast.errno.symm.trans herrno⟩
  · exact fun hnot => absurd ⟨w, hw, hintr⟩ hnot

/-- On what is no terminal, the same line is reported as read. -/
theorem verdict_notTty : ∃ mode p₁ buffer e p',
    Session referencePlatform 3 (bareEnvironment none) silentConf
      (staticProcess [.data [97], .failed .eintr]) mode p₁ buffer e ∧
    e.line.buffer ≠ [] ∧
    nanorl referencePlatform 3 (bareEnvironment none) silentConf
      (staticProcess [.data [97], .failed .eintr]) = .ok ({ data := some [97], error := .ok }, p') ∧
    Interrupted referencePlatform 3 silentConf p₁ ∧
    ¬VerdictHolds referencePlatform 3 silentConf p₁ .ok := by
  have hrun : (nanorl referencePlatform 3 (bareEnvironment none) silentConf
      (staticProcess [.data [97], .failed .eintr])).map Prod.fst =
        .ok { data := some [97], error := .ok } := by
    decide +kernel
  obtain ⟨mode, p₁, buffer, e, p', hsession, hline, hcall, -⟩ :=
    session_of_line hrun (.inl rfl)
  have hending : (endingFailure referencePlatform 3 silentConf p₁).map World.errno = some .eintr :=
    hsession.ending_silent (by decide +kernel)
  have hinterrupted : Interrupted referencePlatform 3 silentConf p₁ := Option.map_eq_some_iff.mp hending
  exact ⟨mode, p₁, buffer, e, p', hsession, hline, hcall, hinterrupted,
    fun hholds => by cases hholds.1.mpr hinterrupted⟩

end Nanorl
