import Nanorl.Sound.DfaParse
import Nanorl.Sound.Echo
import Nanorl.Sound.Loop
import Nanorl.Sound.Query
import Nanorl.Sound.Terminfo
import Nanorl.Sound.Tokens

/-!
# Nanorl.Sound.Capability

What a session needs of the terminal's description, and what `nrl_term_is_smart` looks
at.

`nrl_render_sync_cursors` asserts a smart terminal. Whether a terminal that is not smart
gets there depends on the keys its tree delivers (`DfaNode.Delivers`): two keys cannot
do without it, two others need a character before the cursor, and a handler is called
behind it (`syncCursors_asserted_iff`).

On a smart terminal the renderer follows three capabilities that `nrl_term_is_smart`
does not look at (`capabilities_iff`).
-/

namespace Nanorl

open Run (Ends)
open DfaNode (childAt descend)

/-! ### Keys -/

/-- The tree has an acceptor with this flag and this value. -/
def DfaNode.Delivers (root : DfaNode) (custom : Bool) (bits : Nat) : Prop :=
  ∃ path node, path ≠ [] ∧ descend path root = some node ∧ node.childrenCount = 0 ∧
    node.custom = custom ∧ node.acceptor = ⟨bits⟩

section Parse

theorem resultOf_ne_empty (custom : Bool) : resultOf custom ≠ .empty := by
  cases custom <;> exact nofun

variable {σ : Type} {nextChar : σ → Except Fault (Byte × σ)} {buf value : DfaAcceptor} {s' : σ}
  {custom : Bool}

mutual
/-- A result is an acceptor below the node the parser is at. -/
theorem DfaNode.parse_delivers (node : DfaNode) {s : σ}
    (h : node.parse nextChar buf s = .ok (resultOf custom, value, s')) :
    node.Delivers custom value.bits := by
  cases node with
  | accept edge flag v =>
    obtain ⟨_, -, h⟩ := Run.bind_eq_ok.mp h
    exact absurd (Prod.mk.inj (Except.ok.inj h)).1.symm (resultOf_ne_empty custom)
  | children edge flag nodes =>
    obtain ⟨⟨input, s₁⟩, -, h⟩ := Run.bind_eq_ok.mp h
    obtain ⟨path, node, hpath, hnode⟩ := DfaNode.parseChildren_delivers nodes h
    exact ⟨input :: path, node, List.cons_ne_nil _ _, hpath, hnode⟩
theorem DfaNode.parseChildren_delivers (nodes : List DfaNode) {input : Byte} {s : σ}
    (h : DfaNode.parseChildren nextChar nodes input buf s = .ok (resultOf custom, value, s')) :
    ∃ path node, (childAt nodes input).bind (descend path) = some node ∧ node.childrenCount = 0 ∧
      node.custom = custom ∧ node.acceptor = value := by
  cases nodes with
  | nil => exact absurd (Prod.mk.inj (Except.ok.inj h)).1.symm (resultOf_ne_empty custom)
  | cons child nodes =>
    rw [DfaNode.parseChildren] at h
    by_cases hedge : input = child.edge
    · have hat : childAt (child :: nodes) input = some child := by simp [childAt, hedge]
      rw [if_pos hedge] at h
      rw [hat]
      split at h
      · rename_i hcount
        obtain ⟨hresult, hrest⟩ := Prod.mk.inj (Except.ok.inj h)
        exact ⟨[], child, DfaNode.descend_nil child, hcount, resultOf_injective hresult,
          (Prod.mk.inj hrest).1⟩
      · obtain ⟨path, node, -, hnode⟩ := DfaNode.parse_delivers child h
        exact ⟨path, node, hnode⟩
    · have hat : childAt (child :: nodes) input = childAt nodes input := by
        simp [childAt, Ne.symm hedge]
      rw [if_neg hedge] at h
      rw [hat]
      exact DfaNode.parseChildren_delivers nodes h
end

end Parse

/-- What is read as a key is one the tree delivers. -/
theorem nrlIoRead_delivers {P : Platform} {root : DfaNode} {type : InputType}
    {buffer buffer' : InputBuf} {s s' : Io}
    (h : nrlIoRead P root buffer s = .ok (type, buffer', s')) :
    (type = .escape → root.Delivers false buffer'.escape.bits) ∧
      (type = .customEscape → root.Delivers true buffer'.escape.bits) := by
  unfold nrlIoRead at h
  obtain ⟨⟨result, escape, s₁⟩, hparse, h⟩ := Run.bind_eq_ok.mp h
  dsimp only at h
  split at h
  · rename_i hresult
    obtain ⟨rfl, hrest⟩ := Prod.mk.inj (Except.ok.inj h)
    obtain ⟨rfl, -⟩ := Prod.mk.inj hrest
    unfold nrlDfaParse at hparse
    split at hparse
    · exact absurd (Prod.mk.inj (Except.ok.inj hparse)).1.symm hresult
    · cases result with
      | empty => exact absurd rfl hresult
      | input =>
        have hinput : resultOf false = .input := rfl
        exact ⟨fun _ => DfaNode.parse_delivers root (hinput ▸ hparse), nofun⟩
      | custom =>
        have hcustom : resultOf true = .custom := rfl
        exact ⟨nofun, fun _ => DfaNode.parse_delivers root (hcustom ▸ hparse)⟩
  · obtain ⟨s₂, -, h⟩ := Run.bind_eq_ok.mp h
    obtain ⟨⟨uc, s₃⟩, -, h⟩ := Run.bind_eq_ok.mp h
    obtain ⟨rfl, -⟩ := Prod.mk.inj (Except.ok.inj h)
    have htype : ∀ b, (classify uc b).1 = .stop ∨ (classify uc b).1 = .text := by
      intro b
      rw [classify_eq]
      split
      · exact .inl rfl
      · exact .inr rfl
    rcases htype { buffer with escape, more := decide (s₃.rdUsed < s₃.rdCount) } with h | h <;>
      exact ⟨fun hescape => (by rw [h] at hescape; cases hescape),
        fun hcustom => (by rw [h] at hcustom; cases hcustom)⟩

/-- An input a session with this tree and this table can be given. -/
def CursorOp.Delivered (root : DfaNode) (table : EscapeTable) : CursorOp → Prop
  | .edit (.insert _) | .edit .redraw => True
  | .edit .sync => False
  | .edit (.escape key) => root.Delivers false key.id
  | .custom table' escape => table' = table ∧ root.Delivers true escape

def Step.Delivered (root : DfaNode) (table : EscapeTable) : Step → Prop
  | .call op => op.Delivered root table
  | _ => True

theorem Step.OfLoop.delivered {P : Platform} {t : Terminfo} {table : EscapeTable}
    {ignoreDefault : Bool} {root : DfaNode} {step : Step}
    (h : step.OfLoop P t table ignoreDefault root) : step.Delivered root table := by
  cases h with
  | read buffer => trivial
  | redraw => trivial
  | @input type buffer buffer' s s' ops op hread hops hop =>
    obtain ⟨hescape, hcustom⟩ := nrlIoRead_delivers hread
    cases type with
    | text =>
      obtain rfl := Except.ok.inj hops
      obtain rfl := List.mem_singleton.mp hop
      trivial
    | stop =>
      obtain rfl := Except.ok.inj hops
      cases hop
    | escape =>
      obtain rfl := Except.ok.inj hops
      obtain ⟨key, hkey, rfl⟩ := List.mem_map.mp hop
      have hid : key.id = buffer'.escape.bits := by
        simpa using List.find?_some (Option.mem_toList.mp hkey)
      show root.Delivers false key.id
      rw [hid]
      exact hescape rfl
    | customEscape =>
      rw [inputCalls] at hops
      split at hops
      · obtain rfl := Except.ok.inj hops
        obtain rfl := List.mem_singleton.mp hop
        exact ⟨rfl, hcustom rfl⟩
      · split at hops
        · obtain rfl := Except.ok.inj hops
          cases hop
        · split at hops
          · cases hops
          · obtain rfl := Except.ok.inj hops
            obtain ⟨c, -, rfl⟩ := List.mem_map.mp hop
            trivial

/-! ### The assertion of the renderer -/

/-- No input of the session moves the cursor back. -/
structure StaysAtEnd (root : DfaNode) (table : EscapeTable) : Prop where
  keys : ∀ key ∈ [TerminfoInput.keyLeft, .keyBackspace, .keyHome, .keyEnd], ¬ root.Delivers false key.id
  customs : ∀ escape, root.Delivers true escape → table escape = none

section Smart

variable {P : Platform} {t : Terminfo}

/-- A fault other than the assertion of a smart terminal. -/
def UnassertedFault (f : Fault) : Prop := f ≠ .assertion .termSmart

instance : DrawFaults UnassertedFault where
  assertion _ ha h := ha.2 (Fault.assertion.inj h)
  outOfBounds := nofun
  uninitialised := nofun
  outOfFuel := nofun
  nullDeref := nofun

theorem Step.perform_smart (step : Step) {e : Editor} (h : e.screen.render.termSmart = true) :
    Ends UnassertedFault (fun e' => e'.screen.render.termSmart = true)
      (step.perform P t e) := by
  cases step with
  | notify => exact .ok h
  | read root buffer => exact (nrlIoRead_ends P root buffer e.screen.io).bind fun _ _ => .ok h
  | call op =>
    have hfaults : Ends UnassertedFault (fun _ => True) (op.perform P t e) := by
      refine CursorOp.perform_faults P t nofun (fun _ => ⟨fun hfalse => ?_, fun _ => nofun⟩)
        fun _ _ _ _ => nofun
      exact absurd (hfalse.symm.trans h) Bool.false_ne_true
    exact ⟨fun hop => (CursorOp.perform_terminal P t hop).1.trans h, hfaults.of_error⟩

/-- The cursor is behind the text. -/
def Editor.AtEnd (e : Editor) : Prop := e.line.cursor = e.line.buffer.length

/-- An input that does not move the cursor back leaves it behind the text and does not
enter the renderer. -/
theorem CursorOp.perform_atEnd {root : DfaNode} {table : EscapeTable} (hstays : StaysAtEnd root table)
    {op : CursorOp} (hop : op.Delivered root table) {e : Editor} (h : e.AtEnd) :
    op.syncs e.line = false ∧ ∀ e', op.perform P t e = .ok e' → e'.AtEnd := by
  have hnever : ∀ key ∈ [TerminfoInput.keyLeft, .keyBackspace, .keyHome, .keyEnd],
      (CursorOp.edit (.escape key)).Delivered root table → False := hstays.keys
  have hlt : ¬ e.line.cursor < e.line.buffer.length := by
    rw [show e.line.cursor = _ from h]
    exact Nat.lt_irrefl _
  cases op with
  | custom table' escape =>
    obtain ⟨rfl, hdelivers⟩ := hop
    have hnone := hstays.customs escape hdelivers
    refine ⟨by rw [CursorOp.syncs, hnone]; rfl, fun e' he' => ?_⟩
    rw [CursorOp.perform, nrlManipEvalCustom, hnone] at he'
    obtain rfl := Except.ok.inj he'
    exact h
  | edit op =>
    cases op with
    | sync => exact hop.elim
    | redraw =>
      refine ⟨rfl, fun e' he' => ?_⟩
      have htext := (nrlRenderRedraw_ok P t he').text
      exact htext.cursor.trans (h.trans (congrArg List.length htext.buffer).symm)
    | insert text =>
      refine ⟨rfl, fun e' he' => ?_⟩
      have hinsert : nrlManipInsertText P text e = .ok e' := he'
      rw [nrlManipInsertText_eq P text (Nat.le_of_eq h)] at hinsert
      obtain rfl := Except.ok.inj hinsert
      show e.line.cursor + text.length = _
      rw [show e.line.cursor = _ from h]
      simp
    | escape key =>
      have hkey : (CursorOp.edit (.escape key)).perform P t e = nrlManipEvalEscape P t key.id e := rfl
      rw [hkey, nrlManipEvalEscape_key]
      cases key with
      | keyLeft => exact (hnever _ (by decide) hop).elim
      | keyBackspace => exact (hnever _ (by decide) hop).elim
      | keyHome => exact (hnever _ (by decide) hop).elim
      | keyEnd => exact (hnever _ (by decide) hop).elim
      | keyRight =>
        -- neither of these two finds anything behind the cursor
        refine ⟨decide_eq_false hlt, fun e' he' => ?_⟩
        dsimp only at he'
        rw [escapeRight, if_neg hlt] at he'
        obtain rfl := Except.ok.inj he'
        exact h
      | keyDelete =>
        refine ⟨rfl, fun e' he' => ?_⟩
        dsimp only at he'
        rw [escapeDelete, if_neg hlt] at he'
        obtain rfl := Except.ok.inj he'
        exact h

theorem Step.perform_atEnd {root : DfaNode} {table : EscapeTable} (hstays : StaysAtEnd root table)
    {step : Step} (hstep : step.Delivered root table) {e : Editor} (h : e.AtEnd) :
    Ends UnassertedFault Editor.AtEnd (step.perform P t e) := by
  cases step with
  | notify => exact .ok h
  | read root' buffer => exact (nrlIoRead_ends P root' buffer e.screen.io).bind fun _ _ => .ok h
  | call op =>
    obtain ⟨hsyncs, hkeeps⟩ := CursorOp.perform_atEnd (P := P) (t := t) hstays hstep h
    have hfaults : Ends UnassertedFault (fun _ => True) (op.perform P t e) := by
      refine CursorOp.perform_faults P t nofun (fun hsync => ?_) fun _ _ _ _ => nofun
      exact absurd (hsyncs.symm.trans hsync) Bool.false_ne_true
    exact ⟨fun hop => hkeeps _ hop, hfaults.of_error⟩

/-- Without a smart terminal, and with asserts, a call that enters the renderer fails. -/
theorem CursorOp.perform_dumb (hdebug : P.ndebug = false) {op : CursorOp} {e : Editor}
    (hsyncs : op.syncs e.line = true) (hdumb : e.screen.render.termSmart = false) :
    op.perform P t e = .error (.assertion .termSmart) := by
  obtain ⟨finish, -, hperform⟩ := CursorOp.perform_syncs P t hsyncs
  rw [hperform, nrlRenderSyncCursors, hdumb, Platform.assert, hdebug]
  rfl

/-- A terminal that is smart, or a session that stays at the end of the line, does not
fail the assertion. -/
theorem exec_asserted {root : DfaNode} {table : EscapeTable} {mode : EchoMode} {echoFile : Int}
    {s s₀ : Screen} (hinit : nrlRenderInit P t mode echoFile s = .ok (true, s₀))
    (h : nrlTermIsSmart t = true ∨ StaysAtEnd root table) {steps : List Step}
    (hsteps : ∀ step ∈ steps, step.Delivered root table) :
    Run.exec (Step.perform P t) steps { line := emptyLine, screen := s₀ } ≠
      .error (.assertion .termSmart) := by
  intro hfails
  rcases h with hsmart | hstays
  · have hstart : s₀.render.termSmart = true := (nrlRenderInit_ok P t hinit).termSmart.trans hsmart
    exact (Run.exec_ends (C := fun _ => True) (fun step _ _ he => Step.perform_smart step he)
      (fun _ _ => trivial) (s := { line := emptyLine, screen := s₀ }) hstart).of_error hfails rfl
  · exact (Run.exec_ends (fun _ _ hstep he => Step.perform_atEnd hstays hstep he) hsteps
      (show Editor.AtEnd { line := emptyLine, screen := s₀ } from rfl)).of_error hfails rfl

/-- The loop of `nanorl` is such a session. -/
theorem readLoop_asserted {root : DfaNode} {table : EscapeTable} {mode : EchoMode} {echoFile : Int}
    {s s₀ : Screen} (hinit : nrlRenderInit P t mode echoFile s = .ok (true, s₀))
    (h : nrlTermIsSmart t = true ∨ StaysAtEnd root table) (ignoreDefault : Bool) (fuel : Nat)
    (buffer : InputBuf) :
    readLoop P t root table ignoreDefault fuel buffer { line := emptyLine, screen := s₀ } ≠
      .error (.assertion .termSmart) := by
  intro hloop
  rcases (readLoop_steps P t table ignoreDefault root fuel buffer _).of_error hloop with
    hfuel | hnull | ⟨steps, hof, hfails⟩
  · cases hfuel
  · cases hnull
  · exact exec_asserted hinit h (fun step hstep => (hof step hstep).delivered) hfails

/-- **Cursor keys on dumb terminals.** With asserts, `nrl_render_sync_cursors` is entered
on smart terminals only, exactly if the terminal is smart or no key can move the
cursor back. -/
theorem syncCursors_asserted_iff (P : Platform) (t : Terminfo) (mode : EchoMode) (root : DfaNode)
    (table : EscapeTable) :
    (∀ (echoFile : Int) (s s₀ : Screen) (steps : List Step),
        nrlRenderInit { P with ndebug := false } t mode echoFile s = .ok (true, s₀) →
        (∀ step ∈ steps, step.Delivered root table) →
        Run.exec (Step.perform { P with ndebug := false } t) steps
          { line := emptyLine, screen := s₀ } ≠ .error (.assertion .termSmart)) ↔
      nrlTermIsSmart t = true ∨ StaysAtEnd root table := by
  constructor
  · intro hall
    cases hsmart : nrlTermIsSmart t with
    | true => exact .inl rfl
    | false =>
      -- one character, then the key
      have hfails : ∀ op : CursorOp, op.Delivered root table →
          (∀ dirty, op.syncs { buffer := [97], cursor := 1, renderCursor := 0, dirty } = true) → False := by
        intro op hop hsyncs
        refine hall 1 ⟨staticRender, staticIo⟩ _ [.call (.edit (.insert [97])), .call op]
          (nrlRenderInit_dumb hsmart 1 _) ?_ ?_
        · exact List.forall_mem_cons.mpr ⟨trivial, List.forall_mem_singleton.mpr hop⟩
        · show Run.exec _ ([CursorOp.edit (.insert [97]), op].map Step.call) _ = _
          rw [exec_calls, Run.exec]
          show Run.exec _ [op] _ = _
          rw [exec_singleton]
          exact CursorOp.perform_dumb rfl (hsyncs true) rfl
      refine .inr ⟨fun key hkey hdelivers => ?_, fun escape hdelivers => ?_⟩
      · refine hfails (.edit (.escape key)) hdelivers fun dirty => ?_
        cases key <;> first | rfl | exact absurd hkey (by decide)
      · cases htable : table escape with
        | none => rfl
        | some handler =>
          refine (hfails (.custom table escape) ⟨rfl, hdelivers⟩ fun dirty => ?_).elim
          rw [CursorOp.syncs, htable]
          rfl
  · intro h echoFile s s₀ steps hinit hsteps
    exact exec_asserted hinit h hsteps

end Smart

/-- A description with a home key and nothing else. -/
def homeTerminfo : Terminfo := { Terminfo.unloaded with
  attemptedLoad := true
  loadResult := true
  inputs := [none, none, none, some (ascii "\x1bH"), none, none] }

/-- A terminal of this kind on which the home key is pressed. -/
theorem homeKey_asserted :
    (do
      let (_, screen) ← nrlRenderInit referencePlatform homeTerminfo .on 1
        { dumbScreen with io := { dumbScreen.io with world := { idleWorld with
          reads := [.data (ascii "\x1bH")] } } }
      let root ← nrlDfaBuild homeTerminfo (ascii "vt52") dfaRoot
      readLoop referencePlatform homeTerminfo root nrlManipClearCustomTable true 1 freshBuffer
        { line := emptyLine, screen }).map (fun _ => ()) = .error (.assertion .termSmart) := by
  decide +kernel

/-! ### The capabilities of the renderer -/

/-- `t'` has all that `t` has, and perhaps more of the strings that are formatted or
scanned. -/
structure Terminfo.Completes (t t' : Terminfo) : Prop where
  same : ∃ specials, t' = { t with specials }
  length : t'.specials.length = t.specials.length
  present : ∀ i sequence, nrlLookupSpecial t i = some sequence →
    nrlLookupSpecial t' i = some sequence

/-- A session: `nrl_render_init`, then the steps if it succeeds. -/
def renderSession (P : Platform) (t : Terminfo) (mode : EchoMode) (echoFile : Int) (s : Screen)
    (steps : List Step) : Except Fault Editor := do
  let (ready, screen) ← nrlRenderInit P t mode echoFile s
  let e : Editor := { line := emptyLine, screen }
  if ready then Run.exec (Step.perform P t) steps e else pure e

/-- The run follows a null pointer, and would not with a more complete description. -/
def UsesAbsent (run : Terminfo → Except Fault Editor) (t : Terminfo) : Prop :=
  run t = .error .nullDeref ∧ ∃ t', t.Completes t' ∧ run t' ≠ .error .nullDeref

/-- A reply `query_cursor` gets a position from. -/
structure Answers (P : Platform) (format reply : List Byte) : Prop where
  length : reply.length < cprResBufSize
  last : ∃ lastChar, format.getLast? = some lastChar ∧ reply.getLast? = some lastChar
  parsed : ∃ res rowBuf colBuf,
    nrlTerminfoStringParse2 format (cstr reply) none none = .ok (res, some rowBuf, some colBuf) ∧
      (P.ndebug = true ∨ 0 ≤ rowBuf ∧ 0 ≤ colBuf)

/-- The description has what the renderer formats and scans; without an answer to the
first query it never comes to address the cursor. -/
structure HasCapabilities (P : Platform) (t : Terminfo) : Prop where
  user7 : (nrlLookupSpecial t TerminfoSpecial.user7.id).isSome = true
  user6 : (nrlLookupSpecial t TerminfoSpecial.user6.id).isSome = true
  cursorAddress : (nrlLookupSpecial t TerminfoSpecial.cursorAddress.id).isSome = true ∨
    ∀ format reply, nrlLookupSpecial t TerminfoSpecial.user6.id = some format →
      ¬ Answers P format reply

section Capabilities

variable {P : Platform} {t : Terminfo}

/-- The tables have their size, whatever has been loaded. -/
theorem nrlLoadTerminfo_specials {env : Environment} {loaded : Bool}
    (h : nrlLoadTerminfo env Terminfo.unloaded = .ok (loaded, t)) : t.specials.length = tisCount := by
  unfold nrlLoadTerminfo at h
  rw [if_neg (by decide)] at h
  dsimp only at h
  split at h
  · obtain ⟨-, rfl⟩ := Prod.mk.inj (Except.ok.inj h)
    rfl
  · split at h
    · obtain ⟨-, rfl⟩ := Prod.mk.inj (Except.ok.inj h)
      rfl
    · split at h
      · obtain ⟨-, rfl⟩ := Prod.mk.inj (Except.ok.inj h)
        rfl
      · obtain ⟨⟨res, t₁⟩, hparse, h⟩ := Run.bind_eq_ok.mp h
        obtain ⟨-, rfl⟩ := Prod.mk.inj (Except.ok.inj h)
        rcases (parse_fills _ _).of_ok hparse with heq | ⟨_, _, _, _, hlength, heq⟩
        · exact congrArg (fun t : Terminfo => t.specials.length) heq
        · exact (congrArg (fun t : Terminfo => t.specials.length) heq).trans hlength

/-- The description with `sequence` for whatever it lacks of the three strings. -/
def Terminfo.completed (t : Terminfo) (sequence : List Byte) : Terminfo :=
  { t with specials := t.specials.map fun special => some (special.getD sequence) }

theorem lookupSpecial_completed (hlength : t.specials.length = tisCount) (sequence : List Byte)
    {i : Nat} (hi : i < tisCount) :
    nrlLookupSpecial (t.completed sequence) i = some ((nrlLookupSpecial t i).getD sequence) := by
  obtain ⟨special, hspecial⟩ : ∃ special, t.specials[i]? = some special :=
    ⟨_, List.getElem?_eq_getElem (hlength ▸ hi)⟩
  simp [nrlLookupSpecial, Terminfo.completed, hspecial]

theorem Terminfo.completes_completed (t : Terminfo) (sequence : List Byte) :
    t.Completes (t.completed sequence) := by
  refine ⟨⟨_, rfl⟩, List.length_map _, fun i found hfound => ?_⟩
  unfold nrlLookupSpecial at hfound ⊢
  rw [Terminfo.completed, List.getElem?_map]
  cases hspecial : t.specials[i]? with
  | none =>
    rw [hspecial] at hfound
    cases hfound
  | some special =>
    rw [hspecial] at hfound
    obtain rfl : special = some found := hfound
    rfl

/-- A description that has the three strings is complete. -/
theorem Terminfo.Completes.eq {t' : Terminfo} (h : t.Completes t') (hlength : t.specials.length = tisCount)
    (hpresent : ∀ i < tisCount, (nrlLookupSpecial t i).isSome = true) : t' = t := by
  obtain ⟨specials, rfl⟩ := h.same
  have hspecials : specials = t.specials := by
    apply List.ext_getElem?
    intro i
    by_cases hi : i < tisCount
    · obtain ⟨sequence, hsequence⟩ := Option.isSome_iff_exists.mp (hpresent i hi)
      have hfound : (specials[i]?).join = some sequence := h.present i sequence hsequence
      rw [Option.join_eq_some_iff.mp hfound, Option.join_eq_some_iff.mp hsequence]
    · have hother : specials.length = tisCount := h.length.trans hlength
      rw [List.getElem?_eq_none (by omega), List.getElem?_eq_none (by omega)]
  rw [hspecials]

/-! ### Queries and their answers -/

/-- The request goes out; the rest is the answer. -/
theorem queryCursor_sends {io : Io} {request : List Byte}
    (huser7 : nrlLookupSpecial t TerminfoSpecial.user7.id = some request) (h : io.Echoing)
    (hzero : io.wrCount = 0) :
    ∃ io', queryCursor P t io = receiveReport P t io' ∧ io.Sends request io' := by
  obtain ⟨io', hsends, hall⟩ := sendsRequest (P := P) huser7 h hzero
  exact ⟨io', hsends.queryCursor_eq, hall⟩

/-- A query whose answer cannot be read comes to nothing. -/
theorem receiveReport_failed {io : Io} {format : List Byte} {errno : Errno} {reads : List ReadResult}
    (huser6 : nrlLookupSpecial t TerminfoSpecial.user6.id = some format) (hfile : io.readFile ≠ -1)
    (hreads : io.world.reads = .failed errno :: reads) :
    Ends (· = .outOfBounds) (fun r => r.1 = none) (receiveReport P t io) := by
  unfold receiveReport
  rw [huser6]
  dsimp only
  split
  · exact .error rfl
  · rw [readResponse, nrlIoRawRead_eq hfile (by decide), World.read, hreads]
    exact .ok rfl

theorem answers_iff {format response : List Byte} {lastChar : Byte}
    (hlast : format.getLast? = some lastChar)
    (hends : response.getLast? = some lastChar) (hroom : response.length ≤ cprResBufSize) :
    Answers P format response ↔ ∃ position, positionOf P format response = .ok position := by
  simp only [positionOf_ok]
  constructor
  · rintro ⟨hlength, -, res, rowBuf, colBuf, hparsed, hsigns⟩
    exact ⟨_, Nat.ne_of_lt hlength, res, rowBuf, colBuf, hparsed, hsigns, rfl⟩
  · rintro ⟨_, hsize, res, rowBuf, colBuf, hparsed, hsigns, -⟩
    exact ⟨Nat.lt_of_le_of_ne hroom hsize, ⟨lastChar, hlast, hends⟩, res, rowBuf, colBuf, hparsed, hsigns⟩

/-- A query that is answered has a position. -/
theorem receiveReport_answered {io : Io} {format reply : List Byte} {reads : List ReadResult}
    (huser6 : nrlLookupSpecial t TerminfoSpecial.user6.id = some format) (hfile : io.readFile ≠ -1)
    (hreads : io.world.reads = .data reply :: reads) (h : Answers P format reply) :
    ∃ position, receiveReport P t io =
      .ok (some position, { io with world := { io.world with reads } }) := by
  obtain ⟨lastChar, hformat, hlast⟩ := h.last
  have hroom : reply.length ≤ cprResBufSize := Nat.le_of_lt h.length
  obtain ⟨position, hposition⟩ := (answers_iff hformat hlast hroom).mp h
  rw [receiveReport_eq huser6 hformat, readResponse_whole hfile hreads hlast hroom, Run.ok_bind]
  dsimp only
  rw [hposition]
  exact ⟨position, rfl⟩

/-- A query that comes to an end has read an answer, or nothing. -/
theorem receiveReport_ok {io : Io} {format : List Byte} {lastChar : Byte} {r : Option Pos2d × Io}
    (huser6 : nrlLookupSpecial t TerminfoSpecial.user6.id = some format)
    (hlast : format.getLast? = some lastChar) (h : receiveReport P t io = .ok r) :
    ∃ response, readResponse P lastChar (io.world.pendingReads + 2) [] io = .ok (response, r.2) ∧
      (∀ bytes, response = some bytes → Answers P format bytes) ∧ (response = none → r.1 = none) := by
  rw [receiveReport_eq huser6 hlast] at h
  obtain ⟨⟨_ | response, io₁⟩, hloop, h⟩ := Run.bind_eq_ok.mp h
  · obtain rfl := Except.ok.inj h
    exact ⟨none, hloop, by simp, fun _ => rfl⟩
  · obtain ⟨hlength, hends⟩ := readResponse_last hloop
    obtain ⟨position, hposition, rfl⟩ := Run.map_eq_ok.mp h
    refine ⟨some response, hloop, fun bytes hbytes => ?_, by simp⟩
    obtain rfl := Option.some.inj hbytes
    exact (answers_iff hlast hends hlength).mpr ⟨position, hposition⟩

/-- A position has been read from an answer. -/
theorem receiveReport_answers {io io' : Io} {position : Pos2d}
    (h : receiveReport P t io = .ok (some position, io')) :
    ∃ format reply, nrlLookupSpecial t TerminfoSpecial.user6.id = some format ∧
      Answers P format reply := by
  cases huser6 : nrlLookupSpecial t TerminfoSpecial.user6.id with
  | none =>
    rw [receiveReport, huser6] at h
    cases h
  | some format =>
    cases hformat : format.getLast? with
    | none =>
      rw [receiveReport, huser6] at h
      dsimp only at h
      rw [hformat] at h
      cases h
    | some lastChar =>
      obtain ⟨_ | response, -, hanswers, hnone⟩ := receiveReport_ok huser6 hformat h
      · cases hnone rfl
      · exact ⟨format, response, rfl, hanswers response rfl⟩

theorem queryCursor_answers {io io' : Io} {position : Pos2d}
    (h : queryCursor P t io = .ok (some position, io')) :
    ∃ format reply, nrlLookupSpecial t TerminfoSpecial.user6.id = some format ∧
      Answers P format reply := by
  unfold queryCursor at h
  split at h
  · cases h
  · obtain ⟨⟨written, io₁⟩, -, h⟩ := Run.bind_eq_ok.mp h
    cases written with
    | false => cases h
    | true =>
      obtain ⟨⟨flushed, io₂⟩, -, h⟩ := Run.bind_eq_ok.mp h
      cases flushed with
      | false => cases h
      | true => exact receiveReport_answers h

/-! ### Sessions -/

/-- A fault other than a null pointer. -/
def NonNullFault (f : Fault) : Prop := f ≠ .nullDeref

instance : IoFaults NonNullFault where
  assertion _ _ := nofun
  outOfBounds := nofun
  uninitialised := nofun
  outOfFuel := nofun

/-- A smart terminal is asked for its cursor before anything else. -/
theorem nrlRenderInit_smart {mode : EchoMode} (hmode : mode ≠ .off) (hsmart : nrlTermIsSmart t = true)
    (echoFile : Int) (s : Screen) :
    ∃ render : Render, render.echoMode = mode ∧ render.termSmart = true ∧
      nrlRenderInit P t mode echoFile s = queryCursor P t s.io >>= fun r =>
        match r with
        | (none, io) => .ok (false, { render, io })
        | (some cursorPos, io) =>
          querySize P t render.termSize { render := { render with cursorPos }, io } >>= fun r =>
            .ok (r.1, { r.2.2 with render := { r.2.2.render with termSize := r.2.1 } }) := by
  refine ⟨{ s.render with
    echoMode := mode, lastRenderedWidth := 0, termSmart := true, echoFd := echoFile, scrolled := 0 },
    rfl, rfl, ?_⟩
  unfold nrlRenderInit
  rw [hsmart]
  dsimp only
  rw [if_pos (by simp [hmode])]
  cases queryCursor P t s.io with
  | error f => rfl
  | ok r =>
    obtain ⟨_ | cursorPos, io⟩ := r <;> rfl

/-- A terminal from which these replies can be read, and 24 rows and 80 columns. -/
def repliesScreen (reads : List ReadResult) : Screen := { dumbScreen with
  io := { dumbScreen.io with world := { idleWorld with reads, winsizes := [some (24, 80)] } } }

theorem repliesScreen_echoing (reads : List ReadResult) : (repliesScreen reads).io.Echoing :=
  ⟨show (1 : Int) ≠ -1 by decide, rfl, Nat.zero_le _, fun _ h => absurd h List.not_mem_nil⟩

/-- Without the strings of the query, `nrl_render_init` follows a null pointer. -/
theorem query_usesAbsent (hlength : t.specials.length = tisCount) (hsmart : nrlTermIsSmart t = true)
    (hlacks : nrlLookupSpecial t TerminfoSpecial.user7.id = none ∨
      nrlLookupSpecial t TerminfoSpecial.user6.id = none) :
    UsesAbsent (fun t => renderSession P t .on 1 (repliesScreen [.failed .other]) []) t := by
  refine ⟨?_, t.completed [97], t.completes_completed [97], ?_⟩
  · have hnull : queryCursor P t (repliesScreen [.failed .other]).io = .error .nullDeref := by
      cases huser7 : nrlLookupSpecial t TerminfoSpecial.user7.id with
      | none =>
        unfold queryCursor
        rw [huser7]
      | some request =>
        obtain ⟨io', hquery, -⟩ :=
          queryCursor_sends (P := P) huser7 (repliesScreen_echoing [.failed .other]) rfl
        rw [hquery]
        unfold receiveReport
        rw [hlacks.resolve_left (by simp [huser7])]
    obtain ⟨render, -, -, hinit⟩ := nrlRenderInit_smart (P := P) (by decide : EchoMode.on ≠ .off) hsmart 1
      (repliesScreen [.failed .other])
    dsimp only
    rw [renderSession, hinit, hnull]
    rfl
  · -- with strings in their places the query only fails to read its reply
    have huser7 := lookupSpecial_completed hlength [97] (by decide : TerminfoSpecial.user7.id < tisCount)
    have huser6 := lookupSpecial_completed hlength [97] (by decide : TerminfoSpecial.user6.id < tisCount)
    obtain ⟨io', hquery, hsends⟩ :=
      queryCursor_sends (P := P) huser7 (repliesScreen_echoing [.failed .other]) rfl
    obtain ⟨_, _, _, _, hsame⟩ := hsends.same
    have hfile : io'.readFile ≠ -1 := by
      rw [hsame]
      exact (by decide : (0 : Int) ≠ -1)
    have hreads : io'.world.reads = [.failed .other] := by
      rw [hsame]
      rfl
    have hfailed := receiveReport_failed (P := P) huser6 hfile hreads
    obtain ⟨render, -, -, hinit⟩ := nrlRenderInit_smart (P := P) (t := t.completed [97])
      (by decide : EchoMode.on ≠ .off) hsmart 1 (repliesScreen [.failed .other])
    dsimp only
    rw [renderSession, hinit, hquery]
    generalize receiveReport P (t.completed [97]) io' = outcome at hfailed
    cases outcome with
    | error f =>
      obtain rfl : f = .outOfBounds := hfailed.of_error rfl
      exact nofun
    | ok r =>
      obtain ⟨position, io₂⟩ := r
      obtain rfl : position = none := hfailed.of_ok rfl
      exact nofun

/-- A size request that is answered. -/
theorem querySize_replied {s : Screen} {rows cols : UInt16} {winsizes : List (Option (UInt16 × UInt16))}
    (h : s.io.world.winsizes = some (rows, cols) :: winsizes) (buf : Pos2d) :
    querySize P t buf s = .ok (true, { row := rows.toNat, col := cols.toNat },
      { s with io := { s.io with world := { s.io.world with winsizes } } }) := by
  unfold querySize World.winsize
  rw [h]
  rfl

/-- The home key on an empty line that has just been opened moves the cursor where it is. -/
theorem homeKey_moves {e : Editor} (hline : e.line = emptyLine)
    (hsmart : e.screen.render.termSmart = true) (hmode : e.screen.render.echoMode = .on)
    (hcols : e.screen.render.termSize.col ≠ 0) :
    ∃ location, (Step.call (.edit (.escape .keyHome))).perform P t e =
      moveCursor2d P t location e.screen >>= fun r => r.2.flush P >>= fun screen =>
        .ok { line := emptyLine, screen } := by
  obtain ⟨location, hlocation⟩ : ∃ location,
      linearOffsetTo2d e.screen.render.termSize e.screen.render.cursorPos 0 = .ok location := by
    unfold linearOffsetTo2d
    dsimp only
    rw [if_neg hcols]
    split <;> exact ⟨_, rfl⟩
  refine ⟨location, ?_⟩
  show nrlManipEvalEscape P t TerminfoInput.keyHome.id e = _
  rw [nrlManipEvalEscape_key]
  dsimp only
  rw [escapeHome, nrlRenderSyncCursors, hline]
  dsimp only
  rw [P.assert_of _ hsmart, Run.ok_bind, moveByMode]
  dsimp only
  rw [hmode]
  dsimp only
  rw [moveToPosNormal]
  dsimp only
  rw [show stepCursor P emptyLine.buffer 0 _ _ emptyLine.renderCursor 0 = .ok (0, 0) from rfl,
    Run.ok_bind]
  dsimp only
  rw [hlocation, Run.ok_bind]
  cases moveCursor2d P t location e.screen with
  | error f => rfl
  | ok r => rfl

/-- A terminal that answers the query comes to its first move. -/
theorem renderSession_moves (hsmart : nrlTermIsSmart t = true) {request format reply : List Byte}
    (huser7 : nrlLookupSpecial t TerminfoSpecial.user7.id = some request)
    (huser6 : nrlLookupSpecial t TerminfoSpecial.user6.id = some format)
    (hanswers : Answers P format reply) :
    ∃ location screen, renderSession P t .on 1 (repliesScreen [.data reply])
        [.call (.edit (.escape .keyHome))] =
      moveCursor2d P t location screen >>= fun r => r.2.flush P >>= fun screen =>
        .ok { line := emptyLine, screen } := by
  obtain ⟨io₁, hquery, hsends⟩ := queryCursor_sends (P := P) huser7
    (repliesScreen_echoing [.data reply]) rfl
  obtain ⟨_, _, _, _, hsame⟩ := hsends.same
  obtain ⟨position, hreport⟩ : ∃ position, receiveReport P t io₁ =
      .ok (some position, { io₁ with world := { io₁.world with reads := [] } }) := by
    refine receiveReport_answered huser6 ?_ ?_ hanswers <;> rw [hsame]
    · exact (by decide : (0 : Int) ≠ -1)
    · rfl
  obtain ⟨render, hmode, hrender, hinit⟩ := nrlRenderInit_smart (P := P)
    (by decide : EchoMode.on ≠ .off) hsmart 1 (repliesScreen [.data reply])
  have hwinsizes : io₁.world.winsizes = [some (24, 80)] := by
    rw [hsame]
    rfl
  obtain ⟨screen, hready, hscreenSmart, hscreenMode, hcols⟩ : ∃ screen,
      nrlRenderInit P t .on 1 (repliesScreen [.data reply]) = .ok (true, screen) ∧
        screen.render.termSmart = true ∧ screen.render.echoMode = .on ∧
        screen.render.termSize.col ≠ 0 := by
    rw [hinit, hquery, hreport, Run.ok_bind]
    dsimp only
    rw [querySize_replied hwinsizes]
    exact ⟨_, rfl, hrender, hmode, (by decide : (80 : UInt16).toNat ≠ 0)⟩
  obtain ⟨location, hmoves⟩ := homeKey_moves (P := P) (t := t) (e := { line := emptyLine, screen })
    rfl hscreenSmart hscreenMode hcols
  refine ⟨location, screen, ?_⟩
  rw [← hmoves, renderSession, hready, Run.ok_bind]
  dsimp only
  rw [if_pos rfl, Run.exec]
  cases (Step.call (.edit (.escape .keyHome))).perform P t { line := emptyLine, screen } <;> rfl

/-- A `cursor_address` without parameters is written as it is. -/
theorem moveCursor2d_constant
    (haddress : nrlLookupSpecial t TerminfoSpecial.cursorAddress.id = some [97]) (location : Pos2d)
    (s : Screen) : Ends NonNullFault (fun _ => True) (moveCursor2d P t location s) := by
  unfold moveCursor2d
  rw [haddress]
  refine (nrlIoWrite_ends P [97] s.io).bind fun ⟨written, io⟩ _ => ?_
  cases written with
  | false => exact .ok trivial
  | true =>
    refine (nrlIoFlush_ends P io).bind fun ⟨flushed, io'⟩ _ => ?_
    cases flushed <;> exact .ok trivial

/-- Without `cursor_address`, a session that gets its position and its size follows a
null pointer with the first move. -/
theorem move_usesAbsent (hlength : t.specials.length = tisCount) (hsmart : nrlTermIsSmart t = true)
    {request format reply : List Byte}
    (huser7 : nrlLookupSpecial t TerminfoSpecial.user7.id = some request)
    (huser6 : nrlLookupSpecial t TerminfoSpecial.user6.id = some format)
    (hanswers : Answers P format reply)
    (hlacks : nrlLookupSpecial t TerminfoSpecial.cursorAddress.id = none) :
    UsesAbsent (fun t => renderSession P t .on 1 (repliesScreen [.data reply])
      [.call (.edit (.escape .keyHome))]) t := by
  have hcompletes := t.completes_completed [97]
  refine ⟨?_, t.completed [97], hcompletes, ?_⟩
  · obtain ⟨location, screen, hsession⟩ := renderSession_moves hsmart huser7 huser6 hanswers
    dsimp only
    rw [hsession, moveCursor2d, hlacks]
    rfl
  · obtain ⟨location, screen, hsession⟩ := renderSession_moves (P := P) (t := t.completed [97]) hsmart
      (hcompletes.present _ _ huser7) (hcompletes.present _ _ huser6) hanswers
    have haddress := lookupSpecial_completed hlength [97]
      (by decide : TerminfoSpecial.cursorAddress.id < tisCount)
    rw [hlacks] at haddress
    have hends : Ends NonNullFault (fun _ => True)
        (moveCursor2d P (t.completed [97]) location screen >>= fun r => r.2.flush P >>= fun screen =>
          .ok ({ line := emptyLine, screen } : Editor)) :=
      (moveCursor2d_constant haddress location screen).bind fun r _ =>
        (r.2.flush_ends P).bind fun _ _ => .ok trivial
    dsimp only
    rw [hsession]
    exact fun hnull => hends.of_error hnull rfl

/-- A terminal has no strings but these three. -/
theorem lookupSpecial_all
    (haddress : (nrlLookupSpecial t TerminfoSpecial.cursorAddress.id).isSome = true)
    (huser6 : (nrlLookupSpecial t TerminfoSpecial.user6.id).isSome = true)
    (huser7 : (nrlLookupSpecial t TerminfoSpecial.user7.id).isSome = true) :
    ∀ i < tisCount, (nrlLookupSpecial t i).isSome = true := by
  intro i hi
  have hcases : i = TerminfoSpecial.cursorAddress.id ∨ i = TerminfoSpecial.user6.id ∨
      i = TerminfoSpecial.user7.id := by
    simp only [tisCount] at hi
    simp only [TerminfoSpecial.id]
    omega
  rcases hcases with rfl | rfl | rfl
  · exact haddress
  · exact huser6
  · exact huser7

/-- A session whose query nothing answers ends with it. -/
theorem renderSession_unanswered {mode : EchoMode} (hmode : mode ≠ .off) (hsmart : nrlTermIsSmart t = true)
    (huser7 : (nrlLookupSpecial t TerminfoSpecial.user7.id).isSome = true)
    (huser6 : (nrlLookupSpecial t TerminfoSpecial.user6.id).isSome = true)
    (hunanswered : ∀ format reply,
      nrlLookupSpecial t TerminfoSpecial.user6.id = some format → ¬ Answers P format reply)
    (echoFile : Int) (s : Screen) (steps : List Step) :
    renderSession P t mode echoFile s steps ≠ .error .nullDeref := by
  intro hnull
  obtain ⟨render, -, -, hinit⟩ := nrlRenderInit_smart (P := P) hmode hsmart echoFile s
  have hquery : Ends NonNullFault (fun r => r.1 = none) (queryCursor P t s.io) := by
    constructor
    · intro r hr
      obtain ⟨_ | position, io⟩ := r
      · rfl
      · obtain ⟨format, reply, hformat, hanswers⟩ := queryCursor_answers hr
        exact absurd hanswers (hunanswered format reply hformat)
    · refine (queryCursor_ends (F := NonNullFault) P t s.io fun hlacks => ?_).of_error
      rcases hlacks with hlacks | hlacks
      · exact absurd huser7 (by simp [hlacks])
      · exact absurd huser6 (by simp [hlacks])
  rw [renderSession, hinit] at hnull
  generalize queryCursor P t s.io = outcome at hquery hnull
  cases outcome with
  | error f =>
    obtain rfl : f = .nullDeref := Except.error.inj hnull
    exact hquery.of_error rfl rfl
  | ok r =>
    obtain ⟨position, io⟩ := r
    obtain rfl : position = none := hquery.of_ok rfl
    cases hnull

end Capabilities

/-- **Smart terminals have what the renderer needs** exactly if their description has the
three strings; `nrl_term_is_smart` looks at none of them. -/
theorem capabilities_iff {env : Environment} {loaded : Bool} {t : Terminfo}
    (h : nrlLoadTerminfo env Terminfo.unloaded = .ok (loaded, t)) (P : Platform) :
    (nrlTermIsSmart t = true → ∀ (mode : EchoMode) (echoFile : Int) (s : Screen) (steps : List Step),
        mode ≠ .off → ¬ UsesAbsent (fun t => renderSession P t mode echoFile s steps) t) ↔
      (nrlTermIsSmart t = true → HasCapabilities P t) := by
  have hlength := nrlLoadTerminfo_specials h
  have hpresent : ∀ {x : Option (List Byte)}, (x = none → False) → x.isSome = true :=
    fun hx => Option.isSome_iff_ne_none.mpr hx
  refine forall_congr' fun hsmart => ⟨fun hall => ?_, fun hhas mode echoFile s steps hmode huses => ?_⟩
  · -- a missing string is used by the session that asks for it first
    have huser7 := hpresent fun hnone => hall .on 1 _ [] (by decide)
      (query_usesAbsent (P := P) hlength hsmart (.inl hnone))
    have huser6 := hpresent fun hnone => hall .on 1 _ [] (by decide)
      (query_usesAbsent (P := P) hlength hsmart (.inr hnone))
    refine ⟨huser7, huser6, ?_⟩
    cases haddress : nrlLookupSpecial t TerminfoSpecial.cursorAddress.id with
    | some sequence => exact .inl rfl
    | none =>
      refine .inr fun format reply hformat hanswers => ?_
      obtain ⟨request, hrequest⟩ := Option.isSome_iff_exists.mp huser7
      exact hall .on 1 _ _ (by decide) (move_usesAbsent hlength hsmart hrequest hformat hanswers haddress)
  · obtain ⟨hnull, t', hcompletes, hdiffers⟩ := huses
    rcases hhas.cursorAddress with haddress | hunanswered
    · -- nothing is missing, so there is nothing to complete
      rw [hcompletes.eq hlength (lookupSpecial_all haddress hhas.user6 hhas.user7)] at hdiffers
      exact hdiffers hnull
    · exact renderSession_unanswered hmode hsmart hhas.user7 hhas.user6 hunanswered echoFile s steps hnull

/-- The home key on an xterm. -/
theorem capabilities_iff_xterm :
    ¬ UsesAbsent (fun t => renderSession referencePlatform t .on 1
      (repliesScreen [.data (ascii "\x1b[2;1R")]) [.call (.edit (.escape .keyHome))]) xtermTerminfo := by
  have hload : nrlLoadTerminfo ⟨some (ascii "xterm"), none, none, none, fun _ => none⟩
      Terminfo.unloaded = .ok (true, xtermTerminfo) := by
    decide +kernel
  exact (capabilities_iff hload referencePlatform).mpr
    (fun _ => ⟨by decide, by decide, .inl (by decide)⟩) (by decide) .on 1 _ _ (by decide)

/-- A compiled description with the two keypad strings and no others. -/
def keypadFile : File where
  content := Words.encode 2 ([magicInt16, 0, 0, 0, 295, 4] ++ List.replicate 88 0xffff ++ [0, 2] ++
    List.replicate 205 0xffff) ++ [97, 0, 98, 0]
  seekable := true

/-- A terminal of this kind is smart, and its first query has nothing to send. -/
theorem keypad_usesAbsent : ∃ t,
    nrlLoadTerminfo ⟨some (ascii "keypad"), none, none, none, fun _ => some keypadFile⟩
      Terminfo.unloaded = .ok (true, t) ∧ nrlTermIsSmart t = true ∧
    UsesAbsent (fun t => renderSession referencePlatform t .on 1 (repliesScreen [.failed .other]) []) t := by
  refine ⟨{ Terminfo.unloaded with
    attemptedLoad := true, loadResult := true, outputs := [some [97], some [98]] }, ?_, by decide, ?_⟩
  · decide +kernel
  · exact query_usesAbsent rfl (by decide) (.inl (by decide))

end Nanorl
