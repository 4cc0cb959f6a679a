import Nanorl.Sound.Geometry

/-!
# Nanorl.Sound.Notify

A notification that arrives while the line is redrawn.

The handler of `SIGWINCH` only sets `resize_flag`, but it may run between any two steps of
`nrl_render_redraw`: so a redraw is taken apart into the steps between which it can be
interrupted (`Phase`), which come to the redraw if nothing intervenes
(`exec_uninterrupted`). The flag is cleared at the end of a redraw, and not where it is
tested: what arrives in between is cleared with it (`Phase.clears`), and is not answered by
any later redraw (`notification_kept_iff`).
-/

namespace Nanorl

open Run (Ends)

/-! ### The steps of a redraw -/

/-- The step of `nrl_render_redraw` that comes next, if it is running. -/
inductive Phase
  | outside
  | testing
  | queryingCursor
  | queryingSize
  | drawing
  | unterminating
  | clearing
  | flushing
  deriving Repr, DecidableEq

/-- A line, and where its redraw is. -/
structure Machine where
  phase : Phase
  editor : Editor

/-- What the test of `resize_flag` comes to. -/
def Render.needsQueries (r : Render) : Bool := r.resizeFlag && r.termSmart && r.echoMode ≠ .off

/-- The step that follows. -/
def Phase.next (queries : Bool) : Phase → Phase
  | .outside => .outside
  | .testing => bif queries then .queryingCursor else .drawing
  | .queryingCursor => .queryingSize
  | .queryingSize => .drawing
  | .drawing => .unterminating
  | .unterminating => .clearing
  | .clearing => .flushing
  | .flushing => .outside

/-- The redraw finds out about a notification neither here nor later, but still clears the
flag. -/
def Phase.clears : Phase → Bool
  | .queryingSize | .drawing | .unterminating | .clearing => true
  | .outside | .testing | .queryingCursor | .flushing => false

section Notify

variable (P : Platform) (t : Terminfo)

/-- What a step does, on a buffer that ends in the pushed terminator up to
`unterminating`. -/
def Phase.perform : Phase → Editor → Except Fault Editor
  | .outside, e | .testing, e => .ok e
  | .queryingCursor, e => do
      let (cursorPos, io) ← queryCursor P t e.screen.io
      let render := { e.screen.render with cursorPos := cursorPos.getD e.screen.render.cursorPos }
      pure { e with screen := { render, io } }
  | .queryingSize, e => do
      let (_, termSize, s) ← querySize P t e.screen.render.termSize e.screen
      pure { e with screen := { s with render := { s.render with termSize } } }
  | .drawing, e => redrawByMode P t e
  | .unterminating, e =>
    .ok { e with line := { e.line with
      buffer := e.line.buffer.eraseIdx (e.line.buffer.length - 1), dirty := false } }
  | .clearing, e =>
    .ok { e with screen := { e.screen with render := { e.screen.render with resizeFlag := false } } }
  | .flushing, e => do
      let screen ← e.screen.flush P
      pure { e with screen }

/-- One step of the redraw that is running. -/
def Machine.advance (m : Machine) : Except Fault Machine := do
  let e ← m.phase.perform P t m.editor
  pure { phase := m.phase.next m.editor.screen.render.needsQueries, editor := e }

/-- What can happen next: a step of a line, or of its redraw. -/
inductive Action
  | ofLine (step : Step)
  | advance

/-- Notifications arrive at any time. Everything else waits until the redraw has returned. -/
def Action.perform : Action → Machine → Except Fault Machine
  | .advance, m => m.advance P t
  | .ofLine .notify, m =>
    .ok { m with editor := { m.editor with screen := nrlRenderNotifyResize m.editor.screen } }
  | .ofLine (.call (.edit .redraw)), m =>
    match m.phase with
    | .outside => .ok { phase := .testing, editor := { m.editor with line := { m.editor.line with
        buffer := m.editor.line.buffer ++ [0] } } }
    | _ => .ok m
  | .ofLine step, m =>
    match m.phase with
    | .outside => (step.perform P t m.editor).map fun editor => { phase := .outside, editor }
    | _ => .ok m

theorem exec_advance (count : Nat) (phase : Phase) (e : Editor) :
    Run.exec (Action.perform P t) (List.replicate (count + 1) .advance) { phase, editor := e } =
      phase.perform P t e >>= fun e' => Run.exec (Action.perform P t) (List.replicate count .advance)
        { phase := phase.next e.screen.render.needsQueries, editor := e' } := by
  rw [List.replicate_succ, Run.exec, Action.perform, Machine.advance]
  cases phase.perform P t e <;> rfl

theorem exec_outside (count : Nat) (e : Editor) :
    Run.exec (Action.perform P t) (List.replicate count .advance) { phase := .outside, editor := e } =
      .ok { phase := .outside, editor := e } := by
  induction count with
  | zero => rfl
  | succ count ih => rwa [exec_advance, Phase.perform, Run.ok_bind]

/-- The redraw behind the queries. -/
def drawAndClear (e : Editor) : Except Fault Editor := do
  let e ← redrawByMode P t e
  let line := { e.line with buffer := e.line.buffer.eraseIdx (e.line.buffer.length - 1), dirty := false }
  let screen := { e.screen with render := { e.screen.render with resizeFlag := false } }
  let screen ← screen.flush P
  pure { line, screen }

theorem exec_drawing (count : Nat) (e : Editor) :
    Run.exec (Action.perform P t) (List.replicate (count + 4) .advance) { phase := .drawing, editor := e } =
      (drawAndClear P t e).map fun editor => { phase := .outside, editor } := by
  rw [exec_advance, Phase.perform, drawAndClear]
  cases redrawByMode P t e with
  | error f => rfl
  | ok e₁ =>
    rw [Run.ok_bind, Run.ok_bind, Phase.next, exec_advance, Phase.perform, Run.ok_bind, Phase.next,
      exec_advance, Phase.perform, Run.ok_bind, Phase.next, exec_advance, Phase.perform]
    dsimp only
    cases Screen.flush P { e₁.screen with render := { e₁.screen.render with resizeFlag := false } } with
    | error f => rfl
    | ok s => exact exec_outside P t count _

/-- A redraw that is not interrupted is `nrl_render_redraw`. -/
theorem exec_uninterrupted (e : Editor) :
    Run.exec (Action.perform P t) (.ofLine (.call (.edit .redraw)) :: List.replicate 7 .advance)
        { phase := .outside, editor := e } =
      (nrlRenderRedraw P t e).map fun editor => { phase := .outside, editor } := by
  have hredraw : nrlRenderRedraw P t e = requery P t e.screen >>= fun screen =>
      drawAndClear P t { line := { e.line with buffer := e.line.buffer ++ [0] }, screen } := rfl
  rw [Run.exec, Action.perform]
  dsimp only
  rw [exec_advance, Phase.perform.eq_2, Run.ok_bind, Phase.next, hredraw, requery]
  dsimp only
  cases hqueries : e.screen.render.needsQueries with
  | false =>
    rw [Render.needsQueries] at hqueries
    rw [hqueries, if_neg (by decide)]
    exact exec_drawing P t 2 _
  | true =>
    rw [Render.needsQueries] at hqueries
    rw [if_pos hqueries, cond_true, exec_advance, Phase.perform]
    dsimp only
    cases queryCursor P t e.screen.io with
    | error f => rfl
    | ok r =>
      obtain ⟨cursorPos, io⟩ := r
      dsimp only [Run.ok_bind]
      rw [Run.pure_eq_ok, Run.ok_bind, Phase.next, exec_advance, Phase.perform]
      dsimp only
      cases querySize P t e.screen.render.termSize { io, render := { e.screen.render with
          cursorPos := cursorPos.getD e.screen.render.cursorPos } } with
      | error f => rfl
      | ok r => exact exec_drawing P t 0 _

/-! ### What happens to a notification -/

/-- What has been queried since the last notification, and whether this one has arrived where
the redraw goes on to clear the flag. -/
structure Since where
  cursor : Bool
  size : Bool
  cleared : Bool
  deriving Repr, DecidableEq

/-- What an action does to that. -/
def Action.since : Action → Machine → Since → Since
  | .ofLine .notify, m, _ => { cursor := false, size := false, cleared := m.phase.clears }
  | .advance, m, n =>
    match m.phase with
    | .queryingCursor => { n with cursor := true }
    | .queryingSize => { n with size := true }
    | _ => n
  | _, _, n => n

/-- Where a session starts, both have been queried, unless a notification is pending. -/
def Since.atStart (resizeFlag : Bool) : Since :=
  { cursor := !resizeFlag, size := !resizeFlag, cleared := false }

/-- What the flag and the place in the redraw say about the last notification. -/
def Since.Accounts (n : Since) (resizeFlag : Bool) : Phase → Prop
  | .outside | .testing | .flushing =>
    n.cleared = bif resizeFlag then false else !(n.cursor && n.size)
  | .queryingCursor => n.cleared = false
  | .queryingSize => n.cleared = !n.cursor
  | .drawing | .unterminating | .clearing => n.cleared = !(n.cursor && n.size)

/-- The invariant: the terminal is smart and echoes, and the last notification is accounted
for. -/
structure Followed (s : Since × Machine) : Prop where
  termSmart : s.2.editor.screen.render.termSmart = true
  echoMode : s.2.editor.screen.render.echoMode ≠ .off
  accounts : s.1.Accounts s.2.editor.screen.render.resizeFlag s.2.phase

variable {P t}

/-- No step of a redraw touches terminal and echo mode, and one touches the flag. -/
theorem Phase.perform_render {phase : Phase} {e e' : Editor} (h : phase.perform P t e = .ok e') :
    e'.screen.render.termSmart = e.screen.render.termSmart ∧
      e'.screen.render.echoMode = e.screen.render.echoMode ∧
      e'.screen.render.resizeFlag = bif phase = .clearing then false else e.screen.render.resizeFlag := by
  cases phase with
  | outside =>
    obtain rfl := Except.ok.inj h
    exact ⟨rfl, rfl, rfl⟩
  | testing =>
    obtain rfl := Except.ok.inj h
    exact ⟨rfl, rfl, rfl⟩
  | queryingCursor =>
    obtain ⟨_, -, h⟩ := Run.bind_eq_ok.mp h
    obtain rfl := Except.ok.inj h
    exact ⟨rfl, rfl, rfl⟩
  | queryingSize =>
    obtain ⟨⟨_, termSize, s⟩, hsize, h⟩ := Run.bind_eq_ok.mp h
    obtain rfl := Except.ok.inj h
    obtain ⟨_, hrender⟩ := (querySize_ends (F := fun _ => True) P t _ _).of_ok hsize
    dsimp only at hrender ⊢
    rw [hrender]
    exact ⟨rfl, rfl, rfl⟩
  | drawing =>
    obtain ⟨_, _, _, hrender⟩ :=
      ((redrawByMode_ends (F := fun _ => True) P t e fun _ => trivial).of_ok h).render
    rw [hrender]
    exact ⟨rfl, rfl, rfl⟩
  | unterminating =>
    obtain rfl := Except.ok.inj h
    exact ⟨rfl, rfl, rfl⟩
  | clearing =>
    obtain rfl := Except.ok.inj h
    exact ⟨rfl, rfl, rfl⟩
  | flushing =>
    obtain ⟨s, hflush, h⟩ := Run.bind_eq_ok.mp h
    obtain rfl := Except.ok.inj h
    dsimp only
    rw [((Screen.flush_ends (F := fun _ => True) P _).of_ok hflush).render]
    exact ⟨rfl, rfl, rfl⟩

/-- The step of a redraw. -/
theorem Followed.advance {n : Since} {m m' : Machine} (h : Followed (n, m))
    (hadvance : m.advance P t = .ok m') : Followed (Action.advance.since m n, m') := by
  obtain ⟨e', hperform, hpure⟩ := Run.bind_eq_ok.mp hadvance
  obtain rfl := Except.ok.inj hpure
  obtain ⟨hsmart, hmode, hflag⟩ := Phase.perform_render hperform
  refine ⟨hsmart.trans h.termSmart, hmode ▸ h.echoMode, ?_⟩
  have haccounts := h.accounts
  have hqueries : m.editor.screen.render.needsQueries = m.editor.screen.render.resizeFlag := by
    simp [Render.needsQueries, show m.editor.screen.render.termSmart = true from h.termSmart,
      show m.editor.screen.render.echoMode ≠ .off from h.echoMode]
  obtain ⟨phase, e⟩ := m
  dsimp only at hflag haccounts hqueries ⊢
  rw [hqueries, hflag]
  cases phase with
  | testing =>
    -- the test decides which of the two the notification is
    cases hset : e.screen.render.resizeFlag with
    | false =>
      rw [hset] at haccounts
      exact haccounts
    | true =>
      rw [hset] at haccounts
      exact haccounts
  | queryingCursor => exact haccounts
  | queryingSize =>
    show n.cleared = !(n.cursor && true)
    rw [Bool.and_true]
    exact haccounts
  | outside => exact haccounts
  | drawing => exact haccounts
  | unterminating => exact haccounts
  | clearing => exact haccounts
  | flushing => exact haccounts

/-- A step other than a notification or a redraw is performed outside, and waits inside. -/
theorem Action.perform_quiet {step : Step} {m m' : Machine} (hnotify : step ≠ .notify)
    (hredraw : step ≠ .call (.edit .redraw)) (h : (Action.ofLine step).perform P t m = .ok m') :
    m' = m ∨ (m.phase = .outside ∧ m'.phase = .outside ∧
      m.editor.screen.render.MovedTo m'.editor.screen.render) := by
  have hperform : (Action.ofLine step).perform P t m = match m.phase with
      | .outside => (step.perform P t m.editor).map fun editor => { phase := .outside, editor }
      | _ => .ok m := by
    cases step with
    | notify => exact absurd rfl hnotify
    | read root buffer => rfl
    | call op =>
      exact CursorOp.of_ne (fun hop => hredraw (congrArg _ hop)) (fun _ _ => rfl) (fun _ => rfl)
        (fun _ => rfl) rfl
  rw [hperform] at h
  split at h
  · rename_i hphase
    obtain ⟨e', hstep, rfl⟩ := Run.map_eq_ok.mp h
    refine .inr ⟨hphase, rfl, ?_⟩
    cases step with
    | notify => exact absurd rfl hnotify
    | read root buffer =>
      obtain ⟨_, -, hstep⟩ := Run.bind_eq_ok.mp hstep
      obtain rfl := Except.ok.inj hstep
      exact ⟨_, rfl⟩
    | call op => exact CursorOp.perform_movedTo P t (fun hop => hredraw (congrArg _ hop)) hstep
  · exact .inl (Except.ok.inj h).symm

theorem Action.since_of_ne {step : Step} (hnotify : step ≠ .notify) (m : Machine) (n : Since) :
    (Action.ofLine step).since m n = n := by
  cases step with
  | notify => exact absurd rfl hnotify
  | read root buffer => rfl
  | call op => rfl

/-- The step. -/
theorem Followed.perform {action : Action} {s s' : Since × Machine} (h : Followed s)
    (haction : Run.recorded (Action.perform P t) Action.since action s = .ok s') : Followed s' := by
  obtain ⟨n, m⟩ := s
  obtain ⟨m', hperform, rfl⟩ := Run.map_eq_ok.mp haction
  cases action with
  | advance => exact h.advance hperform
  | ofLine step =>
    by_cases hnotify : step = .notify
    · subst hnotify
      obtain rfl := Except.ok.inj hperform
      refine ⟨h.termSmart, h.echoMode, ?_⟩
      obtain ⟨phase, e⟩ := m
      cases phase <;> rfl
    · dsimp only
      rw [Action.since_of_ne hnotify]
      by_cases hredraw : step = .call (.edit .redraw)
      · subst hredraw
        obtain ⟨phase, e⟩ := m
        cases phase with
        | outside =>
          obtain rfl := Except.ok.inj hperform
          exact ⟨h.termSmart, h.echoMode, h.accounts⟩
        | _ =>
          obtain rfl := Except.ok.inj hperform
          exact h
      · rcases Action.perform_quiet hnotify hredraw hperform with rfl | ⟨hphase, hphase', _, hrender⟩
        · exact h
        · have haccounts := h.accounts
          dsimp only at haccounts
          rw [hphase] at haccounts
          refine ⟨?_, ?_, ?_⟩ <;> dsimp only <;> rw [hrender]
          · exact h.termSmart
          · exact h.echoMode
          · rw [hphase']
            exact haccounts

/-- No notification of the run arrives where the redraw goes on to clear the flag. -/
def Action.Timely (action : Action) (s : Since × Machine) : Prop :=
  action = .ofLine .notify → s.2.phase.clears = false

/-- In such a run none is lost. -/
theorem cleared_of_timely {actions : List Action} {s s' : Since × Machine}
    (hcleared : s.1.cleared = false)
    (htimely : Run.Guarded (Run.recorded (Action.perform P t) Action.since) Action.Timely actions s)
    (hrun : Run.exec (Run.recorded (Action.perform P t) Action.since) actions s = .ok s') :
    s'.1.cleared = false := by
  refine Run.exec_guarded (I := fun s : Since × Machine => s.1.cleared = false) ?_ hcleared htimely hrun
  intro action s s' hcleared htimely haction
  obtain ⟨m', -, rfl⟩ := Run.map_eq_ok.mp haction
  dsimp only
  cases action with
  | advance =>
    rw [Action.since]
    split <;> exact hcleared
  | ofLine step =>
    by_cases hnotify : step = .notify
    · subst hnotify
      exact htimely rfl
    · rw [Action.since_of_ne hnotify]
      exact hcleared

end Notify

/-- **What becomes of a notification.** Whatever comes between the steps of a redraw, in every
state outside of one the last notification has been answered by both queries or is still
flagged, if and only if it did not arrive where a redraw goes on to clear the flag. -/
theorem notification_kept_iff {P : Platform} {t : Terminfo} {mode : EchoMode} (hmode : mode ≠ .off)
    {echoFile : Int} {s s₀ : Screen} (hinit : nrlRenderInit P t mode echoFile s = .ok (true, s₀))
    (hsmart : nrlTermIsSmart t = true) {actions : List Action} {n : Since} {m : Machine}
    (hrun : Run.exec (Run.recorded (Action.perform P t) Action.since) actions
      (.atStart s₀.render.resizeFlag,
        { phase := .outside, editor := { line := emptyLine, screen := s₀ } }) = .ok (n, m))
    (houtside : m.phase = .outside) :
    (m.editor.screen.render.resizeFlag = false → n.cursor = true ∧ n.size = true) ↔
      n.cleared = false := by
  have hopens := nrlRenderInit_ok P t hinit
  have hstart : Followed (.atStart s₀.render.resizeFlag,
      { phase := .outside, editor := { line := emptyLine, screen := s₀ } }) := by
    refine ⟨hopens.termSmart.trans hsmart, hopens.echoMode.symm ▸ hmode, ?_⟩
    show false = bif s₀.render.resizeFlag then false else !(!s₀.render.resizeFlag && !s₀.render.resizeFlag)
    cases s₀.render.resizeFlag <;> rfl
  have hfollowed : Followed (n, m) :=
    Run.exec_invariant (fun _ _ _ h haction => h.perform haction) hstart hrun
  have haccounts := hfollowed.accounts
  dsimp only at haccounts
  rw [houtside] at haccounts
  have hcleared : n.cleared =
      bif m.editor.screen.render.resizeFlag then false else !(n.cursor && n.size) := haccounts
  rw [hcleared]
  cases m.editor.screen.render.resizeFlag <;> simp

/-- These actions from where a session on xterm starts. -/
def xtermActions (actions : List Action) : Except Fault (Since × Machine) := do
  let (_, s₀) ← nrlRenderInit referencePlatform xtermTerminfo .on 1 resizedScreen
  Run.exec (Run.recorded (Action.perform referencePlatform xtermTerminfo) Action.since) actions
    (.atStart s₀.render.resizeFlag, { phase := .outside, editor := { line := emptyLine, screen := s₀ } })

/-- A notification before a redraw, and one between its test and its queries. -/
def answeredActions : List Action :=
  .ofLine .notify :: .ofLine (.call (.edit (.insert [97]))) :: .ofLine (.call (.edit .redraw)) ::
    .advance :: .ofLine .notify :: List.replicate 6 .advance

theorem notification_kept_answered : ∃ n m, xtermActions answeredActions = .ok (n, m) ∧
    m.editor.screen.render.resizeFlag = false ∧ n.cursor = true ∧ n.size = true := by
  have hfacts : (nrlRenderInit referencePlatform xtermTerminfo .on 1 resizedScreen).map (fun r => (r.1,
      (Run.exec (Run.recorded (Action.perform referencePlatform xtermTerminfo) Action.since)
        answeredActions (.atStart r.2.render.resizeFlag,
          { phase := .outside, editor := { line := emptyLine, screen := r.2 } })).map fun s =>
            (s.1.cleared, s.2.phase, s.2.editor.screen.render.resizeFlag))) =
      .ok (true, .ok (false, .outside, false)) := by
    decide +kernel
  obtain ⟨⟨done, s₀⟩, hinit, hfacts⟩ := Run.map_eq_ok.mp hfacts
  obtain ⟨rfl, hfacts⟩ := Prod.mk.inj hfacts
  obtain ⟨⟨n, m⟩, hrun, hfacts⟩ := Run.map_eq_ok.mp hfacts
  obtain ⟨hcleared, hfacts⟩ := Prod.mk.inj hfacts
  obtain ⟨houtside, hflag⟩ := Prod.mk.inj hfacts
  exact ⟨n, m, by rw [xtermActions, hinit, Run.ok_bind]; exact hrun, hflag,
    (notification_kept_iff (by decide) hinit (by decide) hrun houtside).mpr hcleared hflag⟩

/-- A notification that arrives while the line is drawn: the redraw clears the flag, and
nothing has been queried. -/
theorem notification_lost :
    (xtermActions (.ofLine (.call (.edit (.insert [97]))) :: .ofLine (.call (.edit .redraw)) ::
        .advance :: .ofLine .notify :: List.replicate 4 .advance)).map
      (fun s => (s.2.phase, s.2.editor.screen.render.resizeFlag, s.1.cursor, s.1.size)) =
      .ok (.outside, false, false, false) := by
  decide +kernel

end Nanorl
