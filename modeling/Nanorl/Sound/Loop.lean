import Nanorl.Sound.Cursor

/-!
# Nanorl.Sound.Loop

The read loop of `nanorl` as a run of calls.

Reading leaves the echo side of `io.c` alone (`nrlIoRead_ends`). An input stands for a
list of calls into `manip.c` (`inputCalls`), and a round of the loop performs them and
redraws a dirty line once the buffer is used up. So the loop is a run of reads and calls
(`readLoop_steps`), and what holds of all such runs, with resize notifications anywhere
in between, holds of it.

Whether the line has been drawn when the loop ends is decided by the events that came
out of the buffer since it was last used up (`readLoop_drawn_iff`).
-/

namespace Nanorl

open Run (Ends)

/-! ### Reading -/

section Reading

variable (P : Platform) {F : Fault → Prop} [PlainFaults F]

theorem Io.store_ends (start : Nat) (data : List Byte) (s : Io) :
    Ends F s.ReadsFrom (s.store start data) := by
  unfold Io.store
  split
  · exact .ok ⟨rfl, rfl, rfl, rfl, rfl, id, .refl _⟩
  · exact .error PlainFaults.outOfBounds

theorem readWrapper_ends (start count : Nat) (s : Io) :
    Ends F (fun r => s.ReadsFrom r.2) (readWrapper P start count s) := by
  unfold readWrapper
  refine (assert_ends P (by decide) _).bind fun _ _ => ?_
  refine (assert_ends P (by decide) _).bind fun _ _ => ?_
  split
  · rename_i preload hpreload
    have hsome : s.preloadData = none → False := fun hnone => nomatch hnone.symm.trans hpreload
    dsimp only
    split
    · exact (s.store_ends start _).bind fun s₁ h => .ok ⟨h.readFile, h.echoFile, h.wrBuf, h.wrCount,
        h.echoEnabled, fun hnone => (hsome hnone).elim, h.world⟩
    · exact (s.store_ends start _).bind fun s₁ h => .ok ⟨h.readFile, h.echoFile, h.wrBuf, h.wrCount,
        h.echoEnabled, fun hnone => (hsome hnone).elim, h.world⟩
  · have hread : ∀ world, s.world.ReadsFrom world → s.ReadsFrom { s with world } :=
      fun _ hworld => ⟨rfl, rfl, rfl, rfl, rfl, id, hworld⟩
    have hworld := s.world.readsFrom_read count
    generalize s.world.read count = result at hworld
    obtain ⟨_ | ⟨_ | ⟨byte, bytes⟩⟩, world⟩ := result
    · exact (Io.store_ends start _ _).bind fun _ h => .ok ((hread _ hworld).trans h)
    · exact (Io.store_ends start _ _).bind fun _ h => .ok ((hread _ hworld).trans h)
    · exact (Io.store_ends start _ _).bind fun _ h => .ok ((hread _ hworld).trans h)

/-- A change of the counters alone. -/
theorem Io.ReadsFrom.counters {s s' : Io} (h : s.ReadsFrom s') (rdCount rdUsed rdPending : Nat) :
    s.ReadsFrom { s' with rdCount, rdUsed, rdPending } :=
  ⟨h.readFile, h.echoFile, h.wrBuf, h.wrCount, h.echoEnabled, h.preload, h.world⟩

theorem nextChar_ends (s : Io) : Ends F (fun r => s.ReadsFrom r.2) (nextChar P s) := by
  have hfill : Ends F s.ReadsFrom (fillBuffer P s) := by
    unfold fillBuffer
    split
    · exact (readWrapper_ends P _ _ _).bind fun ⟨bytes, s₁⟩ h =>
        .ok (((Io.ReadsFrom.refl s).counters _ 0 0).trans (h.counters bytes _ _))
    · exact .ok (.refl s)
  have hrefill : ∀ s : Io, Ends F s.ReadsFrom (refillBuffer P s) := by
    intro s
    unfold refillBuffer
    split
    · refine (s.store_ends 0 _).bind fun s₁ h₁ => ?_
      refine (readWrapper_ends P _ _ _).bind fun ⟨bytes, s₂⟩ h₂ => .ok ?_
      have hstray : s₁.ReadsFrom { s₁ with
          rdCount := s₁.rdPending, rdUsed := 0, world := s₁.world.nextStray } :=
        ⟨rfl, rfl, rfl, rfl, rfl, id, s₁.world.readsFrom_nextStray⟩
      exact h₁.trans (hstray.trans (h₂.counters _ _ _))
    · exact .ok (.refl s)
  refine hfill.bind fun s₁ h₁ => (hrefill s₁).bind fun s₂ h₂ => ?_
  unfold takeChar
  split
  · exact .ok ((h₁.trans h₂).counters _ _ _)
  · exact .error PlainFaults.outOfBounds

theorem nextChars_ends (count : Nat) (s : Io) :
    Ends F (fun r => s.ReadsFrom r.2) (nextChars P count s) := by
  induction count generalizing s with
  | zero => exact .ok (.refl s)
  | succ count ih =>
    exact (nextChar_ends P s).bind fun ⟨byte, s₁⟩ h₁ => (ih s₁).bind fun _ h₂ => .ok (h₁.trans h₂)

theorem nextUchar_ends (s : Io) : Ends F (fun r => s.ReadsFrom r.2) (nextUchar P s) := by
  unfold nextUchar
  refine (nextChar_ends P s).bind fun ⟨lead, s₁⟩ h₁ => ?_
  refine (nextChars_ends P _ s₁).bind fun ⟨bytes, s₂⟩ h₂ => ?_
  dsimp only
  split
  · exact .ok ((h₁.trans h₂).counters _ _ _)
  · exact .ok ((h₁.trans h₂).counters _ _ _)

/-- Reading an input leaves the echo side alone, whatever it comes to. -/
theorem nrlIoRead_ends (root : DfaNode) (buffer : InputBuf) (s : Io) :
    Ends F (fun r => s.ReadsFrom r.2.2) (nrlIoRead P root buffer s) := by
  have hparse : Ends F (fun r => s.ReadsFrom r.2.2)
      (nrlDfaParse (nextChar P) root buffer.escape s) :=
    nrlDfaParse_ends (fun s₁ h => (nextChar_ends P s₁).mono fun _ => h.trans) root buffer.escape (.refl s)
  have hfill : ∀ s : Io, Ends F s.ReadsFrom (fillUnparsed P s) := by
    intro s
    unfold fillUnparsed
    split
    · exact (readWrapper_ends P _ _ _).bind fun _ h => .ok (h.counters _ _ _)
    · exact .ok (.refl s)
  unfold nrlIoRead
  refine hparse.bind fun ⟨result, escape, s₁⟩ h₁ => ?_
  dsimp only
  split
  · exact .ok (h₁.counters _ _ _)
  · refine (hfill s₁).bind fun s₂ h₂ => ?_
    refine (nextUchar_ends P _).bind fun ⟨uc, s₃⟩ h₃ => .ok ?_
    exact h₁.trans (h₂.trans (((Io.ReadsFrom.refl s₂).counters _ _ _).trans h₃))

end Reading

/-! ### Inputs -/

/-- The key an input acceptor stands for. -/
def inputKey (bits : Nat) : Option TerminfoInput :=
  [.keyBackspace, .keyLeft, .keyRight, .keyDelete, .keyHome, .keyEnd].find? fun key =>
    key.id = bits

/-- What one character of a custom sequence is inserted as. -/
def spelling (c : Byte) : List Uchar :=
  match nrlIoParseControl (signedChar c) freshBuffer with
  | (true, buffer) => buffer.text
  | (false, _) => [signedChar c]

/-- The calls an input is evaluated with. -/
def inputCalls (t : Terminfo) (table : EscapeTable) (ignoreDefault : Bool) :
    InputType → InputBuf → Except Fault (List CursorOp)
  | .text, buffer => .ok [.edit (.insert buffer.text)]
  | .escape, buffer => .ok ((inputKey buffer.escape.bits).toList.map fun key => .edit (.escape key))
  | .customEscape, buffer =>
    match table buffer.escape.bits with
    | some _ => .ok [.custom table buffer.escape.bits]
    | none =>
      if ignoreDefault then .ok []
      else
        match nrlLookupCustom t buffer.escape.bits with
        | none => .error .nullDeref
        | some asText => .ok (asText.map fun c => .edit (.insert (spelling c)))
  | .stop, _ => .ok []

section Inputs

variable (P : Platform) (t : Terminfo)

theorem exec_singleton (op : CursorOp) (e : Editor) :
    Run.exec (CursorOp.perform P t) [op] e = op.perform P t e := by
  rw [Run.exec]
  cases op.perform P t e <;> rfl

theorem nrlManipEvalEscape_calls (bits : Nat) (e : Editor) :
    nrlManipEvalEscape P t bits e = Run.exec (CursorOp.perform P t)
      ((inputKey bits).toList.map fun key => .edit (.escape key)) e := by
  cases hkey : inputKey bits with
  | none =>
    have hnone : (escManips P t).find? (fun manip => manip.1.id = bits) = none := by
      simp [inputKey, List.find?_eq_none] at hkey
      simp [escManips, hkey]
    rw [nrlManipEvalEscape, hnone]
    rfl
  | some key =>
    obtain rfl : key.id = bits := by simpa using List.find?_some hkey
    exact (exec_singleton P t (.edit (.escape key)) e).symm

/-- One character of a custom sequence. -/
theorem spellCustom_cons (c : Byte) (asText : List Byte) (buffer : InputBuf) (e : Editor) :
    spellCustom P (c :: asText) buffer e = nrlManipInsertText P (spelling c) e >>=
      spellCustom P asText (nrlIoParseControl (signedChar c) buffer).2 := by
  rw [spellCustom, spelling]
  unfold nrlIoParseControl
  split_ifs <;> rfl

theorem nrlIoParseControl_more (c : Uchar) (buffer : InputBuf) :
    (nrlIoParseControl c buffer).2.more = buffer.more := by
  unfold nrlIoParseControl
  split_ifs <;> rfl

/-- A custom sequence is inserted character by character. -/
theorem spellCustom_calls (asText : List Byte) (buffer : InputBuf) (e : Editor) :
    ∃ buffer', buffer'.more = buffer.more ∧ spellCustom P asText buffer e =
      (Run.exec (CursorOp.perform P t) (asText.map fun c => .edit (.insert (spelling c))) e).map
        fun e' => (buffer', e') := by
  induction asText generalizing buffer e with
  | nil => exact ⟨buffer, rfl, rfl⟩
  | cons c asText ih =>
    rw [spellCustom_cons, List.map_cons, Run.exec]
    have hinsert : (CursorOp.edit (.insert (spelling c))).perform P t e =
        nrlManipInsertText P (spelling c) e := rfl
    rw [hinsert]
    cases nrlManipInsertText P (spelling c) e with
    | error f => exact ⟨buffer, rfl, rfl⟩
    | ok e₁ =>
      obtain ⟨buffer', hmore, hspell⟩ := ih (nrlIoParseControl (signedChar c) buffer).2 e₁
      exact ⟨buffer', hmore.trans (nrlIoParseControl_more _ _), hspell⟩

/-- An input is evaluated by its calls. -/
theorem evalInput_calls (table : EscapeTable) (ignoreDefault : Bool) (type : InputType)
    (buffer : InputBuf) (e : Editor) :
    ∃ buffer', buffer'.more = buffer.more ∧ evalInput P t table ignoreDefault type buffer e =
      (inputCalls t table ignoreDefault type buffer >>= fun ops =>
        Run.exec (CursorOp.perform P t) ops e).map fun e' => (buffer', e') := by
  cases type with
  | text =>
    refine ⟨buffer, rfl, ?_⟩
    show _ = (Run.exec (CursorOp.perform P t) [.edit (.insert buffer.text)] e).map _
    rw [exec_singleton]
    rfl
  | escape =>
    refine ⟨buffer, rfl, ?_⟩
    show (nrlManipEvalEscape P t buffer.escape.bits e >>= _) = _
    rw [nrlManipEvalEscape_calls]
    rfl
  | stop => exact ⟨buffer, rfl, rfl⟩
  | customEscape =>
    simp only [evalInput, inputCalls]
    cases htable : table buffer.escape.bits with
    | some handler =>
      refine ⟨buffer, rfl, ?_⟩
      dsimp only [Run.ok_bind]
      rw [exec_singleton, CursorOp.perform, nrlManipEvalCustom, htable]
      dsimp only
      cases nrlRenderSyncCursors P t { e with line := { e.line with cursor := 0 } } with
      | error f => rfl
      | ok e₁ =>
        dsimp only [Run.ok_bind]
        cases callHandler P handler e₁.line.buffer e.line.cursor <;> rfl
    | none =>
      rw [nrlManipEvalCustom, htable]
      cases ignoreDefault with
      | true => exact ⟨buffer, rfl, rfl⟩
      | false =>
        dsimp only [Run.ok_bind]
        rw [if_neg (by decide), if_neg (by decide)]
        cases nrlLookupCustom t buffer.escape.bits with
        | none => exact ⟨buffer, rfl, rfl⟩
        | some asText => exact spellCustom_calls P t asText buffer e

/-- A round performs the calls of its input, and redraws a dirty line if nothing more
is in the buffer. -/
theorem evalRound_calls (table : EscapeTable) (ignoreDefault : Bool) (type : InputType)
    (buffer : InputBuf) (e : Editor) :
    ∃ buffer', buffer'.more = buffer.more ∧ evalRound P t table ignoreDefault type buffer e =
      (do
        let ops ← inputCalls t table ignoreDefault type buffer
        let e ← Run.exec (CursorOp.perform P t) ops e
        if !buffer.more && e.line.dirty then nrlRenderRedraw P t e else pure e).map
          fun e' => (buffer', e') := by
  obtain ⟨buffer', hmore, heval⟩ := evalInput_calls P t table ignoreDefault type buffer e
  refine ⟨buffer', hmore, ?_⟩
  rw [evalRound, heval]
  cases inputCalls t table ignoreDefault type buffer with
  | error f => rfl
  | ok ops =>
    dsimp only [Run.ok_bind]
    cases Run.exec (CursorOp.perform P t) ops e with
    | error f => rfl
    | ok e₁ =>
      show (if !buffer'.more && e₁.line.dirty then _ else _) = _
      rw [hmore]
      show _ = Except.map _ (if !buffer.more && e₁.line.dirty then _ else _)
      cases !buffer.more && e₁.line.dirty with
      | false => rfl
      | true =>
        show (nrlRenderRedraw P t e₁ >>= _) = (nrlRenderRedraw P t e₁).map _
        cases nrlRenderRedraw P t e₁ <;> rfl

end Inputs

/-! ### Steps -/

/-- What happens to a line between its first input and its last: a resize is notified,
the reader moves on, or a call is made. -/
inductive Step
  | notify
  | read (root : DfaNode) (buffer : InputBuf)
  | call (op : CursorOp)

def Step.perform (P : Platform) (t : Terminfo) : Step → Editor → Except Fault Editor
  | .notify, e => .ok { e with screen := nrlRenderNotifyResize e.screen }
  | .read root buffer, e => do
      let (_, _, io) ← nrlIoRead P root buffer e.screen.io
      pure { e with screen := { e.screen with io } }
  | .call op, e => op.perform P t e

section Steps

variable (P : Platform) (t : Terminfo) (table : EscapeTable) (ignoreDefault : Bool)

theorem exec_calls (ops : List CursorOp) (e : Editor) :
    Run.exec (Step.perform P t) (ops.map .call) e = Run.exec (CursorOp.perform P t) ops e :=
  Run.exec_map _ _ _

/-- An input has calls, or is a custom sequence the table of the terminal does not have. -/
theorem inputCalls_error {type : InputType} {buffer : InputBuf} {f : Fault}
    (h : inputCalls t table ignoreDefault type buffer = .error f) :
    f = .nullDeref ∧ nrlLookupCustom t buffer.escape.bits = none := by
  cases type with
  | customEscape =>
    rw [inputCalls] at h
    split at h
    · cases h
    · split at h
      · cases h
      · split at h
        · rename_i hnone
          exact ⟨(Except.error.inj h).symm, hnone⟩
        · cases h
  | text => cases h
  | escape => cases h
  | stop => cases h

/-- A round whose input has calls is a run of these calls, and perhaps of a redraw. -/
theorem evalRound_steps {type : InputType} {buffer : InputBuf} {ops : List CursorOp}
    (hops : inputCalls t table ignoreDefault type buffer = .ok ops) (e : Editor) :
    ∃ (steps : List Step) (buffer' : InputBuf), evalRound P t table ignoreDefault type buffer e =
        (Run.exec (Step.perform P t) steps e).map (fun e' => (buffer', e')) ∧
      ∀ step ∈ steps, (∃ op ∈ ops, step = .call op) ∨ step = .call (.edit .redraw) := by
  obtain ⟨buffer', -, hround⟩ := evalRound_calls P t table ignoreDefault type buffer e
  rw [hops, Run.ok_bind, ← exec_calls] at hround
  have hcalls : ∀ step ∈ ops.map Step.call,
      (∃ op ∈ ops, step = .call op) ∨ step = .call (.edit .redraw) := by
    intro step hstep
    obtain ⟨op, hop, rfl⟩ := List.mem_map.mp hstep
    exact .inl ⟨op, hop, rfl⟩
  cases hexec : Run.exec (Step.perform P t) (ops.map .call) e with
  | error f => exact ⟨ops.map .call, buffer', by rw [hround, hexec]; rfl, hcalls⟩
  | ok e₁ =>
    rw [hexec, Run.ok_bind] at hround
    cases hdraw : !buffer.more && e₁.line.dirty with
    | false =>
      rw [hdraw, if_neg (by decide)] at hround
      exact ⟨ops.map .call, buffer', by rw [hround, hexec]; rfl, hcalls⟩
    | true =>
      rw [hdraw, if_pos rfl] at hround
      refine ⟨ops.map .call ++ [.call (.edit .redraw)], buffer', ?_, ?_⟩
      · rw [hround, Run.exec_append, hexec, Run.ok_bind]
        exact congrArg _ (exec_singleton P t (.edit .redraw) e₁).symm
      · intro step hstep
        rcases List.mem_append.mp hstep with hstep | hstep
        · exact hcalls step hstep
        · exact .inr (List.mem_singleton.mp hstep)

/-- The steps of a loop with this tree and this table: reads, redraws and the calls of
what has been read. -/
inductive Step.OfLoop (root : DfaNode) : Step → Prop
  | read (buffer : InputBuf) : OfLoop root (.read root buffer)
  | redraw : OfLoop root (.call (.edit .redraw))
  | input {type : InputType} {buffer buffer' : InputBuf} {s s' : Io} {ops : List CursorOp}
      {op : CursorOp} (hread : nrlIoRead P root buffer s = .ok (type, buffer', s'))
      (hops : inputCalls t table ignoreDefault type buffer' = .ok ops) (hop : op ∈ ops) :
      OfLoop root (.call op)

/-- Behind steps of the loop, another run of its steps goes on. -/
theorem behind_steps {root : DfaNode} {steps : List Step} {e e₁ : Editor} {outcome : Except Fault Editor}
    (hloop : ∀ step ∈ steps, step.OfLoop P t table ignoreDefault root)
    (hexec : Run.exec (Step.perform P t) steps e = .ok e₁)
    (h : ∃ rest, (∀ step ∈ rest, step.OfLoop P t table ignoreDefault root) ∧
      Run.exec (Step.perform P t) rest e₁ = outcome) :
    ∃ steps, (∀ step ∈ steps, step.OfLoop P t table ignoreDefault root) ∧
      Run.exec (Step.perform P t) steps e = outcome := by
  obtain ⟨rest, hof, hrest⟩ := h
  refine ⟨steps ++ rest, List.forall_mem_append.mpr ⟨hloop, hof⟩, ?_⟩
  rw [Run.exec_append, hexec, Run.ok_bind, hrest]

/-- **The loop is a run of steps.** It ends where some list of its reads and calls ends,
and fails where such a list fails, unless it runs out of rounds or meets a custom
sequence that is not in the table of the terminal. -/
theorem readLoop_steps (root : DfaNode) (fuel : Nat) (buffer : InputBuf) (e : Editor) :
    Ends (fun f => f = .outOfFuel ∨ f = .nullDeref ∨
        ∃ steps, (∀ step ∈ steps, step.OfLoop P t table ignoreDefault root) ∧
          Run.exec (Step.perform P t) steps e = .error f)
      (fun r => ∃ steps, (∀ step ∈ steps, step.OfLoop P t table ignoreDefault root) ∧
        Run.exec (Step.perform P t) steps e = .ok r.2)
      (readLoop P t root table ignoreDefault fuel buffer e) := by
  induction fuel generalizing buffer e with
  | zero => exact .error (.inl rfl)
  | succ fuel ih =>
    rw [readLoop]
    have hread : Step.perform P t (.read root buffer) e =
        (nrlIoRead P root buffer e.screen.io >>= fun r =>
          pure { e with screen := { e.screen with io := r.2.2 } }) := rfl
    have hone : ∀ step ∈ [Step.read root buffer], step.OfLoop P t table ignoreDefault root :=
      List.forall_mem_singleton.mpr (.read buffer)
    cases hio : nrlIoRead P root buffer e.screen.io with
    | error f =>
      rw [hio] at hread
      -- the read has failed, and so does the run of that read
      exact .error (.inr (.inr ⟨[.read root buffer], hone, by rw [Run.exec, hread]; rfl⟩))
    | ok r =>
      obtain ⟨type, buffer₁, io⟩ := r
      rw [hio, Run.ok_bind] at hread
      dsimp only [Run.ok_bind]
      have hfirst : ∀ steps, Run.exec (Step.perform P t) (.read root buffer :: steps) e =
          Run.exec (Step.perform P t) steps { e with screen := { e.screen with io } } := by
        intro steps
        rw [Run.exec, hread]
        rfl
      split
      · exact .ok ⟨[.read root buffer], hone, hfirst []⟩
      · cases hops : inputCalls t table ignoreDefault type buffer₁ with
        | error f =>
          -- the sequence is not in the table, so the round ends on a null pointer
          obtain ⟨buffer', -, hround⟩ := evalRound_calls P t table ignoreDefault type buffer₁
            { e with screen := { e.screen with io } }
          obtain ⟨rfl, -⟩ := inputCalls_error t table ignoreDefault hops
          rw [hround, hops]
          exact .error (.inr (.inl rfl))
        | ok ops =>
          obtain ⟨steps, buffer', hround, hcalls⟩ := evalRound_steps P t table ignoreDefault hops
            { e with screen := { e.screen with io } }
          have hloop : ∀ step ∈ .read root buffer :: steps,
              step.OfLoop P t table ignoreDefault root := by
            intro step hstep
            rcases List.mem_cons.mp hstep with rfl | hstep
            · exact .read buffer
            · rcases hcalls step hstep with ⟨op, hop, rfl⟩ | rfl
              · exact .input hio hops hop
              · exact .redraw
          rw [hround]
          cases hexec : Run.exec (Step.perform P t) steps { e with screen := { e.screen with io } } with
          | error f => exact .error (.inr (.inr ⟨_, hloop, (hfirst steps).trans hexec⟩))
          | ok e₁ =>
            have hsteps := (hfirst steps).trans hexec
            -- the rest of the loop is a run behind these steps
            show Ends _ _ (readLoop P t root table ignoreDefault fuel buffer' e₁)
            exact ⟨fun hr => behind_steps P t table ignoreDefault hloop hsteps ((ih buffer' e₁).of_ok hr),
              fun hf => ((ih buffer' e₁).of_error hf).imp_right
                (Or.imp_right (behind_steps P t table ignoreDefault hloop hsteps))⟩

end Steps

/-! ### What has been drawn -/

/-- The call changes the text of the line, as far as `dirty` tells. -/
def CursorOp.edits : CursorOp → LineData → Bool
  | .edit (.insert _), _ => true
  | .edit (.escape .keyDelete), line => line.cursor < line.buffer.length
  | .edit (.escape .keyBackspace), line => 0 < line.cursor && line.cursor - 1 < line.buffer.length
  | .custom table escape, _ => (table escape).isSome
  | _, _ => false

section Dirty

variable {P : Platform} {t : Terminfo} {e e' : Editor}

theorem escapeDelete_dirty (h : escapeDelete P e = .ok e') :
    e'.line.dirty = (e.line.dirty || e.line.cursor < e.line.buffer.length) := by
  rw [escapeDelete_eq] at h
  obtain rfl := Except.ok.inj h
  split
  · rename_i hlt
    simp [hlt]
  · rename_i hge
    simp [hge]

/-- A synchronisation leaves the line as dirty as it was. -/
theorem syncCursors_dirty {cursor : Nat}
    (h : nrlRenderSyncCursors P t { e with line := { e.line with cursor } } = .ok e') :
    e'.line.dirty = e.line.dirty ∧ e'.line.buffer = e.line.buffer ∧ e'.line.cursor = cursor := by
  obtain ⟨renderCursor, hline⟩ := (nrlRenderSyncCursors_ok P t h).line
  rw [hline]
  exact ⟨rfl, rfl, rfl⟩

theorem escapeLeft_dirty (h : escapeLeft P t e = .ok e') :
    e'.line.dirty = e.line.dirty ∧ e'.line.buffer = e.line.buffer ∧
      e'.line.cursor = e.line.cursor - 1 := by
  rw [escapeLeft] at h
  split at h
  · exact syncCursors_dirty h
  · obtain rfl := Except.ok.inj h
    exact ⟨rfl, rfl, by omega⟩

/-- A call that draws nothing makes the line dirty exactly if it edits it. -/
theorem CursorOp.perform_dirty {op : CursorOp} (hop : op ≠ .edit .redraw)
    (h : op.perform P t e = .ok e') : e'.line.dirty = (e.line.dirty || op.edits e.line) := by
  cases op with
  | custom table escape =>
    obtain ⟨⟨handled, e₂⟩, heval, hpure⟩ := Run.bind_eq_ok.mp h
    obtain rfl := Except.ok.inj hpure
    rw [nrlManipEvalCustom] at heval
    split at heval
    · rename_i hnone
      obtain ⟨rfl, rfl⟩ := Prod.mk.inj (Except.ok.inj heval)
      simp [CursorOp.edits, hnone]
    · rename_i handler hsome
      obtain ⟨e₁, -, heval⟩ := Run.bind_eq_ok.mp heval
      obtain ⟨_, -, heval⟩ := Run.bind_eq_ok.mp heval
      obtain ⟨-, rfl⟩ := Prod.mk.inj (Except.ok.inj heval)
      simp [CursorOp.edits, hsome]
  | edit op =>
    cases op with
    | redraw => exact absurd rfl hop
    | sync =>
      obtain ⟨renderCursor, hline⟩ := (nrlRenderSyncCursors_ok P t h).line
      simp [hline, CursorOp.edits]
    | insert text =>
      obtain ⟨_, -, h⟩ := Run.bind_eq_ok.mp h
      obtain rfl := Except.ok.inj h
      simp [CursorOp.edits]
    | escape key =>
      have hkey : nrlManipEvalEscape P t key.id e = .ok e' := h
      rw [nrlManipEvalEscape_key] at hkey
      cases key with
      | keyDelete => exact escapeDelete_dirty hkey
      | keyLeft => simp [(escapeLeft_dirty hkey).1, CursorOp.edits]
      | keyHome => simp [(syncCursors_dirty hkey).1, CursorOp.edits]
      | keyEnd => simp [(syncCursors_dirty hkey).1, CursorOp.edits]
      | keyRight =>
        dsimp only at hkey
        rw [escapeRight] at hkey
        split at hkey
        · simp [(syncCursors_dirty hkey).1, CursorOp.edits]
        · obtain rfl := Except.ok.inj hkey
          simp [CursorOp.edits]
      | keyBackspace =>
        dsimp only at hkey
        rw [escapeBackspace] at hkey
        split at hkey
        · rename_i hpos
          -- the line is as dirty behind the move, so deleting decides
          obtain ⟨e₁, hleft, hdelete⟩ := Run.bind_eq_ok.mp hkey
          obtain ⟨hdirty, hbuffer, hcursor⟩ := escapeLeft_dirty hleft
          rw [escapeDelete_dirty hdelete, hdirty, hbuffer, hcursor]
          simp [CursorOp.edits, hpos]
        · rename_i hzero
          obtain rfl := Except.ok.inj hkey
          simp [CursorOp.edits, hzero]

/-- A redraw leaves a clean line. -/
theorem nrlRenderRedraw_dirty (h : nrlRenderRedraw P t e = .ok e') : e'.line.dirty = false := by
  obtain ⟨_, -, h⟩ := Run.bind_eq_ok.mp h
  obtain ⟨_, -, h⟩ := Run.bind_eq_ok.mp h
  obtain ⟨_, -, h⟩ := Run.bind_eq_ok.mp h
  obtain rfl := Except.ok.inj h
  rfl

theorem exec_inserts_dirty {texts : List (List Uchar)}
    (h : Run.exec (CursorOp.perform P t) (texts.map fun text => .edit (.insert text)) e = .ok e') :
    e'.line.dirty = (e.line.dirty || !texts.isEmpty) := by
  induction texts generalizing e with
  | nil =>
    obtain rfl := Except.ok.inj h
    simp
  | cons text texts ih =>
    obtain ⟨e₁, hfirst, hrest⟩ := Run.exec_cons_ok.mp h
    rw [ih hrest, CursorOp.perform_dirty (by simp) hfirst]
    simp [CursorOp.edits]

end Dirty

/-! ### Calls and the renderer -/

/-- The call enters `nrl_render_sync_cursors`. -/
def CursorOp.syncs : CursorOp → LineData → Bool
  | .edit .sync, _ => true
  | .edit (.escape .keyLeft), line => 0 < line.cursor
  | .edit (.escape .keyBackspace), line => 0 < line.cursor
  | .edit (.escape .keyRight), line => line.cursor < line.buffer.length
  | .edit (.escape .keyHome), _ => true
  | .edit (.escape .keyEnd), _ => true
  | .custom table escape, _ => (table escape).isSome
  | _, _ => false

/-- The place in the line a call that synchronises takes the cursor to. -/
def CursorOp.target : CursorOp → LineData → Nat
  | .edit (.escape .keyLeft), line => line.cursor - 1
  | .edit (.escape .keyBackspace), line => line.cursor - 1
  | .edit (.escape .keyRight), line => line.cursor + 1
  | .edit (.escape .keyHome), _ => 0
  | .edit (.escape .keyEnd), line => line.buffer.length
  | .custom _ _, _ => 0
  | _, line => line.cursor

/-- What an edit or a handler does behind the synchronisation does not touch the screen. -/
def KeepsScreen (finish : Editor → Except Fault Editor) : Prop :=
  ∀ e, Ends (fun f => f = .assertion .vectorStatus ∨ f = .outOfBounds)
    (fun e' => e'.screen = e.screen) (finish e)

section Draw

variable (P : Platform) (t : Terminfo) {e : Editor}

theorem escapeDelete_keepsScreen : KeepsScreen (escapeDelete P) := by
  intro e
  rw [escapeDelete_eq]
  split <;> exact .ok rfl

theorem ok_keepsScreen : KeepsScreen .ok := fun _ => .ok rfl

/-- A call that neither synchronises nor redraws does not touch the screen. -/
theorem CursorOp.perform_quiet {op : CursorOp} (hop : op ≠ .edit .redraw)
    (h : op.syncs e.line = false) :
    Ends (fun f => f = .assertion .vectorStatus) (fun e' => e'.screen = e.screen)
      (op.perform P t e) := by
  cases op with
  | custom table escape =>
    have hnone : table escape = none := by simpa [CursorOp.syncs] using h
    rw [CursorOp.perform, nrlManipEvalCustom, hnone]
    exact .ok rfl
  | edit op =>
    cases op with
    | redraw => exact absurd rfl hop
    | sync => cases h
    | insert text =>
      have hassert : ∀ b, Ends (fun f => f = .assertion .vectorStatus) (fun _ => True)
          (P.assert .vectorStatus b) := fun b => ⟨fun _ => trivial, P.assert_error⟩
      exact (hassert _).bind fun _ _ => .ok rfl
    | escape key =>
      show Ends _ _ (nrlManipEvalEscape P t key.id e)
      rw [nrlManipEvalEscape_key]
      cases key with
      | keyHome => cases h
      | keyEnd => cases h
      | keyLeft =>
        have hzero : ¬ 0 < e.line.cursor := by simpa [CursorOp.syncs] using h
        dsimp only
        rw [escapeLeft, if_neg hzero]
        exact .ok rfl
      | keyBackspace =>
        have hzero : ¬ 0 < e.line.cursor := by simpa [CursorOp.syncs] using h
        dsimp only
        rw [escapeBackspace, if_neg hzero]
        exact .ok rfl
      | keyRight =>
        have hge : ¬ e.line.cursor < e.line.buffer.length := by simpa [CursorOp.syncs] using h
        dsimp only
        rw [escapeRight, if_neg hge]
        exact .ok rfl
      | keyDelete =>
        dsimp only
        rw [escapeDelete_eq]
        split <;> exact .ok rfl

theorem callHandler_ends (handler : EscapeHandler) (ucLine : List Uchar) (savedCursor : Nat) :
    Ends (fun f => f = .outOfBounds) (fun _ => True) (callHandler P handler ucLine savedCursor) := by
  have hentry : ∀ line k, Ends (fun f => f = .outOfBounds) (fun _ => True) (entryAt line k) := by
    intro line k
    rw [entryAt]
    split
    · exact .ok trivial
    · exact .error rfl
  have hadjust : ∀ ucLine ucBeforeCursor adjust, Ends (fun f => f = .outOfBounds) (fun _ => True)
      (adjustCursor ucLine ucBeforeCursor adjust) := by
    intro ucLine ucBeforeCursor adjust
    induction adjust with
    | zero =>
      refine (hentry _ _).bind fun c _ => (hentry _ _).bind fun d _ => ?_
      split
      · exact .error rfl
      · exact .ok trivial
    | succ adjust ih =>
      refine (hentry _ _).bind fun c _ => (hentry _ _).bind fun d _ => ?_
      split
      · exact ih
      · exact .ok trivial
  have himport : ∀ line cursor, Ends (fun f => f = .outOfBounds) (fun _ => True)
      (importUtf8 P line cursor) := by
    intro line cursor
    rw [importUtf8]
    dsimp only
    split
    · exact .error rfl
    · split
      · exact (hadjust _ _ _).bind fun _ _ => .ok trivial
      · exact .ok trivial
  rw [callHandler]
  split
  · exact .ok trivial
  · split
    · exact .error rfl
    · exact himport _ _

/-- A call that synchronises does so on the screen it finds, and leaves the screen
alone from there on. -/
theorem CursorOp.perform_syncs {op : CursorOp} (h : op.syncs e.line = true) :
    ∃ finish : Editor → Except Fault Editor, KeepsScreen finish ∧
      op.perform P t e =
        nrlRenderSyncCursors P t { e with line := { e.line with cursor := op.target e.line } } >>= finish := by
  have hlast : op.perform P t e =
        nrlRenderSyncCursors P t { e with line := { e.line with cursor := op.target e.line } } →
      ∃ finish : Editor → Except Fault Editor, KeepsScreen finish ∧ op.perform P t e =
        nrlRenderSyncCursors P t { e with line := { e.line with cursor := op.target e.line } } >>= finish := by
    intro hop
    refine ⟨.ok, ok_keepsScreen, ?_⟩
    rw [hop]
    cases nrlRenderSyncCursors P t { e with line := { e.line with cursor := op.target e.line } } <;> rfl
  cases op with
  | custom table escape =>
    obtain ⟨handler, hhandler⟩ := Option.isSome_iff_exists.mp h
    -- the terminal is at the beginning of the line when the handler is called
    refine ⟨fun e₁ => callHandler P handler e₁.line.buffer e.line.cursor >>= fun r =>
      .ok { e₁ with line := { e₁.line with buffer := r.1, cursor := r.2, dirty := true } }, ?_, ?_⟩
    · intro e₁
      refine Ends.bind (Q := fun _ => True)
        ⟨fun _ => trivial, fun hf => .inr ((callHandler_ends P _ _ _).of_error hf)⟩ fun _ _ => .ok rfl
    · rw [CursorOp.perform, nrlManipEvalCustom, hhandler]
      dsimp only [CursorOp.target]
      cases nrlRenderSyncCursors P t { e with line := { e.line with cursor := 0 } } with
      | error f => rfl
      | ok e₁ =>
        dsimp only [Run.ok_bind]
        cases callHandler P handler e₁.line.buffer e.line.cursor <;> rfl
  | edit op =>
    cases op with
    | insert text => cases h
    | redraw => cases h
    | sync => exact hlast rfl
    | escape key =>
      have hkey : (CursorOp.edit (.escape key)).perform P t e = nrlManipEvalEscape P t key.id e := rfl
      rw [nrlManipEvalEscape_key] at hkey
      cases key with
      | keyDelete => cases h
      | keyHome => exact hlast hkey
      | keyEnd => exact hlast hkey
      | keyLeft =>
        dsimp only at hkey
        rw [escapeLeft, if_pos (of_decide_eq_true h)] at hkey
        exact hlast hkey
      | keyRight =>
        dsimp only at hkey
        rw [escapeRight, if_pos (of_decide_eq_true h)] at hkey
        exact hlast hkey
      | keyBackspace =>
        dsimp only at hkey
        rw [escapeBackspace, if_pos (of_decide_eq_true h), escapeLeft,
          if_pos (of_decide_eq_true h)] at hkey
        -- backspace moves left first, and deleting draws nothing
        exact ⟨escapeDelete P, escapeDelete_keepsScreen P, hkey⟩

/-- How a call comes by its screen. -/
inductive CursorOp.Shown (op : CursorOp) (e : Editor) (s : Screen) : Prop
  | same (hop : op ≠ .edit .redraw) (hsyncs : op.syncs e.line = false) (hs : s = e.screen)
  | synced {e₁ : Editor} (hop : op ≠ .edit .redraw) (hsyncs : op.syncs e.line = true)
      (h : Syncs P { e with line := { e.line with cursor := op.target e.line } } e₁)
      (hs : s = e₁.screen)
  | redrawn {e₁ : Editor} (hop : op = .edit .redraw) (h : Redraws P t e e₁) (hs : s = e₁.screen)

theorem CursorOp.perform_shown {op : CursorOp} {e' : Editor} (h : op.perform P t e = .ok e') :
    op.Shown P t e e'.screen := by
  by_cases hop : op = .edit .redraw
  · subst hop
    exact .redrawn rfl (nrlRenderRedraw_ok P t h) rfl
  · cases hsyncs : op.syncs e.line with
    | false => exact .same hop hsyncs ((CursorOp.perform_quiet P t hop hsyncs).of_ok h)
    | true =>
      obtain ⟨finish, hfinish, hop'⟩ := CursorOp.perform_syncs P t hsyncs
      rw [hop'] at h
      obtain ⟨e₁, hsync, h⟩ := Run.bind_eq_ok.mp h
      exact .synced hop hsyncs (nrlRenderSyncCursors_ok P t hsync) ((hfinish e₁).of_ok h)

/-- Between redraws a call moves the cursor at most. -/
theorem CursorOp.perform_movedTo {op : CursorOp} {e' : Editor} (hop : op ≠ .edit .redraw)
    (h : op.perform P t e = .ok e') : e.screen.render.MovedTo e'.screen.render := by
  cases CursorOp.perform_shown P t h with
  | same _ _ hs => exact ⟨_, congrArg Screen.render hs⟩
  | synced _ _ hsync hs => exact hs ▸ hsync.render
  | redrawn hredraw _ _ => exact absurd hredraw hop

/-- Whether the terminal is smart and what is echoed is decided once. -/
theorem CursorOp.perform_terminal {op : CursorOp} {e' : Editor} (h : op.perform P t e = .ok e') :
    e'.screen.render.termSmart = e.screen.render.termSmart ∧
      e'.screen.render.echoMode = e.screen.render.echoMode := by
  by_cases hop : op = .edit .redraw
  · subst hop
    exact (nrlRenderRedraw_ok P t h).terminal
  · obtain ⟨cursorPos, hrender⟩ := CursorOp.perform_movedTo P t hop h
    rw [hrender]
    exact ⟨rfl, rfl⟩

theorem Step.perform_terminal {step : Step} {e' : Editor} (h : step.perform P t e = .ok e') :
    e'.screen.render.termSmart = e.screen.render.termSmart ∧
      e'.screen.render.echoMode = e.screen.render.echoMode := by
  cases step with
  | notify =>
    obtain rfl := Except.ok.inj h
    exact ⟨rfl, rfl⟩
  | read root buffer =>
    obtain ⟨_, -, h⟩ := Run.bind_eq_ok.mp h
    obtain rfl := Except.ok.inj h
    exact ⟨rfl, rfl⟩
  | call op => exact CursorOp.perform_terminal P t h

/-- The faults of a call: those of drawing, a failed edit, and what its entry into the
renderer adds to them. -/
theorem CursorOp.perform_widths {F : Fault → Prop} [QueryFaults F] (hvector : F (.assertion .vectorStatus))
    {op : CursorOp} (hwidths : WidthFaults P F (e.line.buffer ++ [0]))
    (hsync : op.syncs e.line = true →
      (e.screen.render.termSmart = false → F (.assertion .termSmart)) ∧
        (e.screen.render.termSize.col = 0 → F .divByZero))
    (hredraw : op = .edit .redraw → ∀ s, Requeries P t e.screen s →
      s.render.termSize.col = 0 → F .divByZero) :
    Ends F (fun _ => True) (op.perform P t e) := by
  by_cases hop : op = .edit .redraw
  · subst hop
    exact (nrlRenderRedraw_widths P t e hwidths (hredraw rfl)).mono fun _ _ => trivial
  · cases hsyncs : op.syncs e.line with
    | false =>
      refine ⟨fun _ => trivial, fun hf => ?_⟩
      rw [(CursorOp.perform_quiet P t hop hsyncs).of_error hf]
      exact hvector
    | true =>
      obtain ⟨finish, hfinish, hperform⟩ := CursorOp.perform_syncs P t hsyncs
      obtain ⟨hsmart, hdiv⟩ := hsync hsyncs
      rw [hperform]
      refine (nrlRenderSyncCursors_widths P t { e with line := { e.line with cursor := op.target e.line } }
        hwidths.of_append hsmart hdiv).bind fun e₁ _ => ⟨fun _ => trivial, fun hf => ?_⟩
      rcases (hfinish e₁).of_error hf with rfl | rfl
      · exact hvector
      · exact PlainFaults.outOfBounds

theorem CursorOp.perform_faults {F : Fault → Prop} [DrawFaults F] (hvector : F (.assertion .vectorStatus))
    {op : CursorOp}
    (hsync : op.syncs e.line = true →
      (e.screen.render.termSmart = false → F (.assertion .termSmart)) ∧
        (e.screen.render.termSize.col = 0 → F .divByZero))
    (hredraw : op = .edit .redraw → ∀ s, Requeries P t e.screen s →
      s.render.termSize.col = 0 → F .divByZero) :
    Ends F (fun _ => True) (op.perform P t e) :=
  CursorOp.perform_widths P t hvector (.of_draw _) hsync hredraw

end Draw

/-- A round of the loop: what was read, and the line it meets. -/
structure Round where
  type : InputType
  buffer : InputBuf
  line : LineData

section Rounds

variable (P : Platform) (t : Terminfo) (root : DfaNode) (table : EscapeTable) (ignoreDefault : Bool)

/-- One round of the loop of `nanorl`, which does nothing behind a stop. -/
def loopRound (s : InputBuf × Editor) : Except Fault (Round × (InputBuf × Editor)) := do
  let (type, buffer, io) ← nrlIoRead P root s.1 s.2.screen.io
  let e := { s.2 with screen := { s.2.screen with io } }
  if type = .stop then pure (⟨type, buffer, e.line⟩, (buffer, e))
  else
    let s ← evalRound P t table ignoreDefault type buffer e
    pure (⟨type, buffer, e.line⟩, s)

/-- The rounds of the loop, up to the stop. -/
def loopRounds (fuel : Nat) (buffer : InputBuf) (e : Editor) : Except Fault (List Round) :=
  Run.collect (loopRound P t root table ignoreDefault) (fun r => decide (r.type = .stop)) fuel
    (buffer, e)

namespace Round

variable (r : Round)

/-- The input changes the text of the line. -/
def edits : Bool :=
  match inputCalls t table ignoreDefault r.type r.buffer with
  | .ok ops => ops.any fun op => op.edits r.line
  | .error _ => false

/-- Nothing more is in the buffer behind the input. -/
def UsesUp : Prop := r.type ≠ .stop ∧ r.buffer.more = false

instance : Decidable r.UsesUp := inferInstanceAs (Decidable (_ ∧ _))

end Round

/-- Every input that changes the line uses up the buffer, or is followed by one that does. -/
def Drawn : List Round → Prop
  | [] => True
  | r :: rounds =>
    (r.edits t table ignoreDefault = true → ∃ r' ∈ r :: rounds, r'.UsesUp) ∧ Drawn rounds

instance Drawn.decidable : ∀ rounds, Decidable (Drawn t table ignoreDefault rounds)
  | [] => isTrue trivial
  | r :: rounds =>
    have := Drawn.decidable rounds
    inferInstanceAs (Decidable ((_ → ∃ r' ∈ r :: rounds, r'.UsesUp) ∧ _))

end Rounds

section Drawn

variable {P : Platform} {t : Terminfo} {root : DfaNode} {table : EscapeTable} {ignoreDefault : Bool}

/-- The calls of an input leave a dirty line, or a line as dirty as it was. -/
theorem inputCalls_dirty {type : InputType} {buffer : InputBuf} {ops : List CursorOp}
    (hops : inputCalls t table ignoreDefault type buffer = .ok ops) {e e' : Editor}
    (h : Run.exec (CursorOp.perform P t) ops e = .ok e') :
    e'.line.dirty = (e.line.dirty || ops.any fun op => op.edits e.line) := by
  have hsingle : ∀ {op : CursorOp}, op ≠ .edit .redraw → ops = [op] →
      e'.line.dirty = (e.line.dirty || ops.any fun op => op.edits e.line) := by
    intro op hop hops
    subst hops
    rw [exec_singleton] at h
    simp [CursorOp.perform_dirty hop h]
  have hnone : ops = [] → e'.line.dirty = (e.line.dirty || ops.any fun op => op.edits e.line) := by
    intro hops
    subst hops
    obtain rfl := Except.ok.inj h
    simp
  cases type with
  | text => exact hsingle (by simp) (Except.ok.inj hops).symm
  | stop => exact hnone (Except.ok.inj hops).symm
  | escape =>
    rw [inputCalls] at hops
    cases hkey : inputKey buffer.escape.bits with
    | none =>
      rw [hkey] at hops
      exact hnone (Except.ok.inj hops).symm
    | some key =>
      rw [hkey] at hops
      exact hsingle (by simp) (Except.ok.inj hops).symm
  | customEscape =>
    rw [inputCalls] at hops
    split at hops
    · exact hsingle (by simp) (Except.ok.inj hops).symm
    · split at hops
      · exact hnone (Except.ok.inj hops).symm
      · split at hops
        · cases hops
        · rename_i asText _
          obtain rfl := Except.ok.inj hops
          rw [show (asText.map fun c => CursorOp.edit (.insert (spelling c))) =
            (asText.map spelling).map fun text => .edit (.insert text) from by simp] at h ⊢
          rw [exec_inserts_dirty h]
          cases asText <;> simp [CursorOp.edits]

/-- Behind a round the line is dirty if the round or one before it has edited it, and
more is in the buffer. -/
theorem evalRound_dirty {type : InputType} {buffer buffer' : InputBuf} {e e' : Editor}
    (h : evalRound P t table ignoreDefault type buffer e = .ok (buffer', e')) :
    e'.line.dirty =
      ((e.line.dirty || (Round.mk type buffer e.line).edits t table ignoreDefault) && buffer.more) := by
  obtain ⟨_, -, hround⟩ := evalRound_calls P t table ignoreDefault type buffer e
  rw [hround] at h
  unfold Round.edits
  cases hops : inputCalls t table ignoreDefault type buffer with
  | error f =>
    rw [hops] at h
    cases h
  | ok ops =>
    rw [hops, Run.ok_bind] at h
    cases hexec : Run.exec (CursorOp.perform P t) ops e with
    | error f =>
      rw [hexec] at h
      cases h
    | ok e₁ =>
      rw [hexec, Run.ok_bind] at h
      have hdirty := inputCalls_dirty hops hexec
      dsimp only
      rw [← hdirty]
      split at h
      · rename_i hdraw
        cases hredraw : nrlRenderRedraw P t e₁ with
        | error f =>
          rw [hredraw] at h
          cases h
        | ok e₂ =>
          rw [hredraw] at h
          obtain ⟨-, rfl⟩ := Prod.mk.inj (Except.ok.inj h)
          rw [nrlRenderRedraw_dirty hredraw]
          simp only [Bool.and_eq_true, Bool.not_eq_true'] at hdraw
          rw [hdraw.1, Bool.and_false]
      · rename_i hskip
        obtain ⟨-, rfl⟩ := Prod.mk.inj (Except.ok.inj h)
        cases hmore : buffer.more <;> cases hd : e₁.line.dirty <;> simp [hmore, hd] at hskip ⊢

/-- What the first round of a loop that ends can be: the stop, or an input and the rest of
the loop behind it. -/
theorem readLoop_cases {fuel : Nat} {buffer buffer' : InputBuf} {e e' : Editor}
    (h : readLoop P t root table ignoreDefault (fuel + 1) buffer e = .ok (buffer', e')) :
    ∃ type buffer₁ io, nrlIoRead P root buffer e.screen.io = .ok (type, buffer₁, io) ∧
      ((type = .stop ∧ buffer' = buffer₁ ∧ e' = { e with screen := { e.screen with io } } ∧
          loopRounds P t root table ignoreDefault (fuel + 1) buffer e = .ok [⟨type, buffer₁, e.line⟩]) ∨
        (type ≠ .stop ∧ ∃ buffer₂ e₂,
          evalRound P t table ignoreDefault type buffer₁ { e with screen := { e.screen with io } } =
            .ok (buffer₂, e₂) ∧
          readLoop P t root table ignoreDefault fuel buffer₂ e₂ = .ok (buffer', e') ∧
          ∀ rounds, loopRounds P t root table ignoreDefault fuel buffer₂ e₂ = .ok rounds →
            loopRounds P t root table ignoreDefault (fuel + 1) buffer e =
              .ok (⟨type, buffer₁, e.line⟩ :: rounds))) := by
  rw [readLoop] at h
  obtain ⟨⟨type, buffer₁, io⟩, hread, h⟩ := Run.bind_eq_ok.mp h
  refine ⟨type, buffer₁, io, hread, ?_⟩
  dsimp only at h
  by_cases hstop : type = .stop
  · rw [if_pos hstop] at h
    obtain ⟨rfl, rfl⟩ := Prod.mk.inj (Except.ok.inj h)
    have hround : loopRound P t root table ignoreDefault (buffer, e) =
        .ok (⟨type, buffer₁, e.line⟩, (buffer₁, { e with screen := { e.screen with io } })) := by
      rw [loopRound, hread, Run.ok_bind]
      dsimp only
      rw [if_pos hstop]
      rfl
    refine .inl ⟨hstop, rfl, rfl, ?_⟩
    rw [loopRounds, Run.collect_succ hround, if_pos (decide_eq_true hstop)]
  · rw [if_neg hstop] at h
    obtain ⟨⟨buffer₂, e₂⟩, heval, hrest⟩ := Run.bind_eq_ok.mp h
    have hround : loopRound P t root table ignoreDefault (buffer, e) =
        .ok (⟨type, buffer₁, e.line⟩, (buffer₂, e₂)) := by
      rw [loopRound, hread, Run.ok_bind]
      dsimp only
      rw [if_neg hstop, heval]
      rfl
    refine .inr ⟨hstop, buffer₂, e₂, heval, hrest, fun rounds hrounds => ?_⟩
    rw [loopRounds, Run.collect_succ hround, if_neg (by simpa using hstop),
      show Run.collect _ _ _ _ = _ from hrounds]
    rfl

/-- Whether the line is clean when the loop ends, for a line that may be dirty when it
starts. The induction is on the rounds. -/
theorem readLoop_dirty {fuel : Nat} {buffer buffer' : InputBuf} {e e' : Editor}
    (h : readLoop P t root table ignoreDefault fuel buffer e = .ok (buffer', e')) :
    ∃ rounds, loopRounds P t root table ignoreDefault fuel buffer e = .ok rounds ∧
      (e'.line.dirty = false ↔ Drawn t table ignoreDefault rounds ∧
        (e.line.dirty = true → ∃ r ∈ rounds, r.UsesUp)) := by
  induction fuel generalizing buffer e with
  | zero => cases h
  | succ fuel ih =>
    obtain ⟨type, buffer₁, io, -, hcases⟩ := readLoop_cases h
    obtain ⟨hstop, -, rfl, hrounds⟩ | ⟨hstop, buffer₂, e₂, heval, hrest, hcons⟩ := hcases
    · subst hstop
      refine ⟨_, hrounds, ?_⟩
      simp [Drawn, Round.edits, inputCalls, Round.UsesUp]
    · obtain ⟨rounds, hrounds, hclean⟩ := ih hrest
      refine ⟨_, hcons rounds hrounds, ?_⟩
      have hdirty := evalRound_dirty heval
      dsimp only at hdirty
      rw [hclean, hdirty, Drawn]
      have huses : (Round.mk type buffer₁ e.line).UsesUp ↔ buffer₁.more = false :=
        and_iff_right hstop
      simp only [List.mem_cons, exists_eq_or_imp, huses]
      cases buffer₁.more <;> cases e.line.dirty <;>
        cases (Round.mk type buffer₁ e.line).edits t table ignoreDefault <;> simp <;> tauto

end Drawn

/-- **Everything typed is shown**, exactly if every input that changes the line uses up
the buffer or is followed by one that does. -/
theorem readLoop_drawn_iff {P : Platform} {t : Terminfo} {root : DfaNode} {table : EscapeTable}
    {ignoreDefault : Bool} {fuel : Nat} {screen : Screen} {buffer : InputBuf} {e : Editor}
    (h : readLoop P t root table ignoreDefault fuel freshBuffer { line := emptyLine, screen } =
      .ok (buffer, e)) :
    ∃ rounds, loopRounds P t root table ignoreDefault fuel freshBuffer
        { line := emptyLine, screen } = .ok rounds ∧
      (e.line.dirty = false ↔ Drawn t table ignoreDefault rounds) := by
  obtain ⟨rounds, hrounds, hclean⟩ := readLoop_dirty h
  refine ⟨rounds, hrounds, hclean.trans (and_iff_left fun hdirty => ?_)⟩
  exact absurd hdirty Bool.false_ne_true

/-- An xterm on which these pieces of input are typed. -/
def xtermTyping (chunks : List (List Byte)) : Screen :=
  { xtermScreen with io := { xtermScreen.io with world := { xtermScreen.io.world with
    reads := xtermScreen.io.world.reads ++ chunks.map .data } } }

/-- A line typed there, from the first query of the terminal to the end of the loop. -/
def xtermLoop {α : Type} (chunks : List (List Byte))
    (loop : DfaNode → Editor → Except Fault α) : Except Fault α := do
  let (_, screen) ← nrlRenderInit referencePlatform xtermTerminfo .on 1 (xtermTyping chunks)
  let root ← nrlDfaBuild xtermTerminfo (ascii "xterm") dfaRoot
  loop root { line := emptyLine, screen }

/-- The newline comes with a read of its own. -/
theorem readLoop_drawn_iff_twoReads :
    xtermLoop [[97], [10]] (fun root e => (readLoop referencePlatform xtermTerminfo root
      nrlManipClearCustomTable true 3 freshBuffer e).map fun r => r.2.line.dirty) = .ok false := by
  have hdrawn : xtermLoop [[97], [10]] (fun root e => (loopRounds referencePlatform xtermTerminfo
      root nrlManipClearCustomTable true 3 freshBuffer e).map fun rounds =>
        decide (Drawn xtermTerminfo nrlManipClearCustomTable true rounds)) = .ok true := by
    decide +kernel
  have hok : xtermLoop [[97], [10]] (fun root e => .ok (readLoop referencePlatform xtermTerminfo
      root nrlManipClearCustomTable true 3 freshBuffer e).isOk) = .ok true := by
    decide +kernel
  obtain ⟨⟨done, screen⟩, hinit, hok⟩ := Run.bind_eq_ok.mp hok
  obtain ⟨root, hbuild, hok⟩ := Run.bind_eq_ok.mp hok
  obtain ⟨r, hloop⟩ := Run.isOk_iff.mp (Except.ok.inj hok)
  obtain ⟨rounds, hrounds, hclean⟩ := readLoop_drawn_iff hloop
  have hstarts : ∀ {α : Type} (loop : DfaNode → Editor → Except Fault α),
      xtermLoop [[97], [10]] loop = loop root { line := emptyLine, screen } := by
    intro α loop
    rw [xtermLoop, hinit, Run.ok_bind]
    dsimp only
    rw [hbuild, Run.ok_bind]
  rw [hstarts, hrounds] at hdrawn
  rw [hstarts, hloop]
  exact congrArg Except.ok (hclean.mpr (of_decide_eq_true (Except.ok.inj hdrawn)))

/-- Text and newline come in one read: the line is never drawn. -/
theorem readLoop_oneRead :
    xtermLoop [[97, 10]] (fun root e => (readLoop referencePlatform xtermTerminfo root
        nrlManipClearCustomTable true 3 freshBuffer e).map fun r =>
          (r.2.line.buffer, r.2.line.dirty)) = .ok ([97], true) := by
  decide +kernel

end Nanorl
