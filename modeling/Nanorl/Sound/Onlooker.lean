import Nanorl.Sound.DfaParse
import Nanorl.Sound.Drawing
import Nanorl.Sound.Edited

/-!
# Nanorl.Sound.Onlooker

The echo only looks on.

Drawing writes and nothing else, so it leaves the reader alone, and the line but for its render
cursor. Beside a loop that returns, whatever it echoes, where and with what success, there runs a
silent one that comes to the same line (`readLoop_beside`). So two loops that return come to the
same line if they have the same input (`readLoop_agree`).
-/

namespace Nanorl

open Run (Ends Leads Same)

/-! ### The same input -/

/-- What is to be read is the same. -/
structure World.SameInput (w w' : World) : Prop where
  reads : w'.reads = w.reads
  stray : w'.stray = w.stray

/-- All the reader looks at is the same. -/
def Io.SameReader (s s' : Io) : Prop :=
  ∃ echoFile wrBuf wrCount echoEnabled world, s' = { s with
    echoFile, wrBuf, wrCount, echoEnabled, world } ∧ s.world.SameInput world

/-- The same result from readers that are the same again. -/
def ReadAlike {α : Type} (r r' : α × Io) : Prop := ∃ io, r' = (r.1, io) ∧ r.2.SameReader io

theorem Io.Writes.sameReader {s s' : Io} (h : s.Writes s') : s.SameReader s' := by
  obtain ⟨_, _, _, _, _, rfl⟩ := h
  exact ⟨_, _, _, _, _, rfl, rfl, rfl⟩

theorem Io.SameReader.symm {s s' : Io} (h : s.SameReader s') : s'.SameReader s := by
  obtain ⟨_, _, _, _, _, rfl, hinput⟩ := h
  exact ⟨_, _, _, _, _, rfl, hinput.reads.symm, hinput.stray.symm⟩

theorem Io.SameReader.trans {s₁ s₂ s₃ : Io} (h : s₁.SameReader s₂) (h' : s₂.SameReader s₃) :
    s₁.SameReader s₃ := by
  obtain ⟨_, _, _, _, _, rfl, hinput⟩ := h
  obtain ⟨_, _, _, _, _, rfl, hinput'⟩ := h'
  exact ⟨_, _, _, _, _, rfl, hinput'.reads.trans hinput.reads, hinput'.stray.trans hinput.stray⟩

theorem Io.SameReader.counters {s s' : Io} (h : s.SameReader s') (rdCount rdUsed rdPending : Nat) :
    Io.SameReader { s with rdCount, rdUsed, rdPending } { s' with rdCount, rdUsed, rdPending } := by
  obtain ⟨_, _, _, _, _, rfl, hinput⟩ := h
  exact ⟨_, _, _, _, _, rfl, hinput⟩

/-- The same stray bytes are met. -/
theorem Io.SameReader.behindCount {s s' : Io} (h : s.SameReader s') : s'.behindCount = s.behindCount := by
  obtain ⟨_, _, _, _, _, rfl, hinput⟩ := h
  rw [Io.behindCount, Io.behindCount, hinput.stray]

theorem Io.SameReader.nextStray {s s' : Io} (h : s.SameReader s') :
    Io.SameReader { s with world := s.world.nextStray } { s' with world := s'.world.nextStray } := by
  obtain ⟨_, _, _, _, _, rfl, hinput⟩ := h
  exact ⟨_, _, _, _, _, rfl, hinput.reads, by rw [World.nextStray, World.nextStray, hinput.stray]⟩

section Reading

variable (P : Platform) {s s' : Io}

theorem Io.store_same (start : Nat) (data : List Byte) (h : s.SameReader s') :
    Same Io.SameReader (s.store start data) (s'.store start data) := by
  obtain ⟨_, _, _, _, _, rfl, hinput⟩ := h
  unfold Io.store
  split
  · exact .ok ⟨_, _, _, _, _, rfl, hinput⟩
  · exact .error _

theorem World.SameInput.read {w w' : World} (h : w.SameInput w') (count : Nat) :
    (w'.read count).1 = (w.read count).1 ∧ (w.read count).2.SameInput (w'.read count).2 := by
  unfold World.read
  rw [h.reads]
  split
  · exact ⟨rfl, h⟩
  · exact ⟨rfl, rfl, h.stray⟩
  · exact ⟨rfl, rfl, h.stray⟩

theorem readWrapper_same (start count : Nat) (h : s.SameReader s') :
    Same ReadAlike (readWrapper P start count s) (readWrapper P start count s') := by
  obtain ⟨echoFile, wrBuf, wrCount, echoEnabled, world', rfl, hinput⟩ := h
  unfold readWrapper
  refine (Same.refl (fun _ => trivial) _).bind fun _ _ (_ : True) => ?_
  refine (Same.refl (fun _ => trivial) _).bind fun _ _ (_ : True) => ?_
  dsimp only
  cases hpre : s.preloadData with
  | some preload =>
    dsimp only
    have hstore : ∀ data, Same Io.SameReader (s.store start data)
        (Io.store { s with echoFile, wrBuf, wrCount, echoEnabled, world := world' } start data) :=
      fun data => Io.store_same start data ⟨_, _, _, _, _, rfl, hinput⟩
    simp only [hpre] at hstore
    split
    · refine (hstore _).bind fun s₁ s₁' h₁ => ?_
      obtain ⟨_, _, _, _, _, rfl, hinput⟩ := h₁
      exact .ok ⟨_, rfl, _, _, _, _, _, rfl, hinput⟩
    · refine (hstore _).bind fun s₁ s₁' h₁ => ?_
      obtain ⟨_, _, _, _, _, rfl, hinput⟩ := h₁
      exact .ok ⟨_, rfl, _, _, _, _, _, rfl, hinput⟩
  | none =>
    obtain ⟨hfound, hrest⟩ := hinput.read count
    dsimp only
    generalize s.world.read count = r at hfound hrest
    generalize world'.read count = r' at hfound hrest
    obtain ⟨found, world⟩ := r
    obtain ⟨found', world₁⟩ := r'
    obtain rfl : found' = found := hfound
    have hstore : ∀ data, Same Io.SameReader (Io.store { s with world } start data)
        (Io.store { s with echoFile, wrBuf, wrCount, echoEnabled, world := world₁ } start data) :=
      fun data => Io.store_same start data ⟨_, _, _, _, _, rfl, hrest⟩
    simp only [hpre] at hstore
    rcases found' with _ | _ | ⟨byte, bytes⟩
    · refine (hstore [charEot]).bind fun s₁ s₁' h₁ => ?_
      exact .ok ⟨_, rfl, h₁⟩
    · refine (hstore [charEot]).bind fun s₁ s₁' h₁ => ?_
      exact .ok ⟨_, rfl, h₁⟩
    · refine (hstore (byte :: bytes)).bind fun s₁ s₁' h₁ => ?_
      exact .ok ⟨_, rfl, h₁⟩

theorem nextChar_same (h : s.SameReader s') : Same ReadAlike (nextChar P s) (nextChar P s') := by
  have hfill : Same Io.SameReader (fillBuffer P s) (fillBuffer P s') := by
    have hstart := h.counters s.rdCount 0 0
    obtain ⟨_, _, _, _, _, rfl, hinput⟩ := h
    unfold fillBuffer
    dsimp only
    split
    · refine (readWrapper_same P 0 ioBufSize hstart).bind fun r r' hread => ?_
      obtain ⟨_, rfl, _, _, _, _, _, rfl, hinput⟩ := hread
      exact .ok ⟨_, _, _, _, _, rfl, hinput⟩
    · exact .ok ⟨_, _, _, _, _, rfl, hinput⟩
  have hrefill : ∀ {s s' : Io}, s.SameReader s' →
      Same Io.SameReader (refillBuffer P s) (refillBuffer P s') := by
    intro s s' h
    have hbehind := h.behindCount
    have hstore := fun data => Io.store_same 0 data h
    obtain ⟨_, _, _, _, world', rfl, hinput⟩ := h
    unfold refillBuffer
    rw [hbehind]
    dsimp only
    split
    · refine (hstore _).bind fun s₁ s₁' h₁ => ?_
      have hrest := (h₁.counters s₁.rdPending 0 s₁.rdPending).nextStray
      obtain ⟨_, _, _, _, _, rfl, hinput⟩ := h₁
      refine (readWrapper_same P _ _ hrest).bind fun r r' hread => ?_
      obtain ⟨_, rfl, _, _, _, _, _, rfl, hinput⟩ := hread
      exact .ok ⟨_, _, _, _, _, rfl, hinput⟩
    · exact .ok ⟨_, _, _, _, _, rfl, hinput⟩
  unfold nextChar
  refine hfill.bind fun s₁ s₁' h₁ => (hrefill h₁).bind fun s₂ s₂' h₂ => ?_
  obtain ⟨_, _, _, _, _, rfl, hinput⟩ := h₂
  unfold takeChar
  dsimp only
  split
  · exact .ok ⟨_, rfl, _, _, _, _, _, rfl, hinput⟩
  · exact .error _

theorem nextChars_same (count : Nat) (h : s.SameReader s') :
    Same ReadAlike (nextChars P count s) (nextChars P count s') := by
  induction count generalizing s s' with
  | zero => exact .ok ⟨_, rfl, h⟩
  | succ count ih =>
    refine (nextChar_same P h).bind fun r r' hchar => ?_
    obtain ⟨s₁', rfl, h₁⟩ := hchar
    refine (ih h₁).bind fun r r' hchars => ?_
    obtain ⟨s₂', rfl, h₂⟩ := hchars
    exact .ok ⟨_, rfl, h₂⟩

theorem nextUchar_same (h : s.SameReader s') : Same ReadAlike (nextUchar P s) (nextUchar P s') := by
  unfold nextUchar
  refine (nextChar_same P h).bind fun r r' hlead => ?_
  obtain ⟨s₁', rfl, h₁⟩ := hlead
  refine (nextChars_same P _ h₁).bind fun r r' hbytes => ?_
  obtain ⟨_, rfl, _, _, _, _, _, rfl, hinput⟩ := hbytes
  dsimp only
  split
  · exact .ok ⟨_, rfl, _, _, _, _, _, rfl, hinput⟩
  · exact .ok ⟨_, rfl, _, _, _, _, _, rfl, hinput⟩

/-- The same input comes to the same event. -/
theorem nrlIoRead_same (root : DfaNode) (buffer : InputBuf) (h : s.SameReader s') :
    Same (fun r r' => ∃ io, r' = (r.1, r.2.1, io) ∧ r.2.2.SameReader io)
      (nrlIoRead P root buffer s) (nrlIoRead P root buffer s') := by
  have hfill : ∀ {s s' : Io}, s.SameReader s' →
      Same Io.SameReader (fillUnparsed P s) (fillUnparsed P s') := by
    intro s s' h
    have hread := readWrapper_same P 0 ioBufSize h
    obtain ⟨_, _, _, _, _, rfl, hinput⟩ := h
    unfold fillUnparsed
    dsimp only
    split
    · refine hread.bind fun r r' hread => ?_
      obtain ⟨_, rfl, _, _, _, _, _, rfl, hinput⟩ := hread
      exact .ok ⟨_, _, _, _, _, rfl, hinput⟩
    · exact .ok ⟨_, _, _, _, _, rfl, hinput⟩
  have hchar : ∀ s s', Io.SameReader s s' → Same (fun r r' => r'.1 = r.1 ∧ r.2.SameReader r'.2)
      (nextChar P s) (nextChar P s') := by
    intro s s' h
    refine (nextChar_same P h).mono ?_
    rintro r _ ⟨io, rfl, h₁⟩
    exact ⟨rfl, h₁⟩
  unfold nrlIoRead
  refine (nrlDfaParse_same hchar root buffer.escape h).bind fun r r' hparse => ?_
  obtain ⟨result, escape, s₁⟩ := r
  obtain ⟨_, _, s₁'⟩ := r'
  obtain ⟨hresult, hescape, hsame⟩ := hparse
  dsimp only at hresult hescape hsame
  subst hresult hescape
  obtain ⟨_, _, _, _, _, rfl, hinput⟩ := hsame
  dsimp only
  split
  · exact .ok ⟨_, rfl, _, _, _, _, _, rfl, hinput⟩
  · refine (hfill ⟨_, _, _, _, _, rfl, hinput⟩).bind fun s₂ s₂' h₂ => ?_
    have hstart := h₂.counters s₂.rdCount s₂.rdUsed 0
    obtain ⟨_, _, _, _, _, rfl, hinput⟩ := h₂
    refine (nextUchar_same P hstart).bind fun r r' huchar => ?_
    obtain ⟨_, rfl, _, _, _, _, _, rfl, hinput⟩ := huchar
    exact .ok ⟨_, rfl, _, _, _, _, _, rfl, hinput⟩

end Reading

/-! ### The same line -/

/-- The loop at `e'` has come as far as that at `e`, and echoes nothing. -/
structure Beside (e e' : Editor) : Prop where
  text : e.line.SameText e'.line
  dirty : e'.line.dirty = e.line.dirty
  reader : e.screen.io.SameReader e'.screen.io
  calm : e.screen.render.resizeFlag = false
  termSmart : e'.screen.render.termSmart = e.screen.render.termSmart
  silent : Silent e'.screen

/-- The same result from lines that are the same again. -/
def EvalAlike {α : Type} (r r' : α × Editor) : Prop := ∃ e', r' = (r.1, e') ∧ Beside r.2 e'

theorem LineData.SameText.symm {line line' : LineData} (h : line.SameText line') : line'.SameText line :=
  ⟨h.buffer.symm, h.cursor.symm⟩

theorem LineData.SameText.trans {line₁ line₂ line₃ : LineData} (h : line₁.SameText line₂)
    (h' : line₂.SameText line₃) : line₁.SameText line₃ :=
  ⟨h'.buffer.trans h.buffer, h'.cursor.trans h.cursor⟩

section Editing

variable {P : Platform} (t : Terminfo) {e e' : Editor}

theorem Beside.moved (h : Beside e e') (cursor : Nat) :
    Beside { e with line := { e.line with cursor } } { e' with line := { e'.line with cursor } } :=
  ⟨⟨h.text.buffer, rfl⟩, h.dirty, h.reader, h.calm, h.termSmart, h.silent⟩

theorem Beside.changed (h : Beside e e') (buffer : List Uchar) (dirty : Bool) :
    Beside { e with line := { e.line with buffer, dirty } }
      { e' with line := { e'.line with buffer, dirty } } :=
  ⟨⟨rfl, h.text.cursor⟩, rfl, h.reader, h.calm, h.termSmart, h.silent⟩

theorem Io.writes_outputFrame (P : Platform) : Io.OutputFrame P Io.Writes where
  refl := .refl
  trans := .trans
  write := nrlIoWrite_writes P
  flush := nrlIoFlush_writes P

theorem nrlRenderSyncCursors_beside (h : Beside e e') :
    Leads Beside (nrlRenderSyncCursors P t e) (nrlRenderSyncCursors P t e') := by
  intro e₁ hsync
  have hwrites := ((Io.writes_outputFrame P).renderSyncCursors t e).of_ok hsync
  have hsyncs := nrlRenderSyncCursors_ok P t hsync
  obtain ⟨_, hline⟩ := hsyncs.line
  obtain ⟨_, hrender⟩ := hsyncs.render
  -- `term_smart` is asserted on both sides, and nothing behind it fails without an echo
  obtain ⟨_, hassert, -⟩ := Run.bind_eq_ok.mp hsync
  rw [← h.termSmart] at hassert
  refine ⟨e', ?_, ?_⟩
  · rw [nrlRenderSyncCursors_off h.silent, hassert]
    rfl
  · exact
      { text := hsyncs.text.symm.trans h.text
        dirty := by rw [hline, h.dirty]
        reader := hwrites.sameReader.symm.trans h.reader
        calm := by rw [hrender, h.calm]
        termSmart := by rw [hrender, h.termSmart]
        silent := h.silent }

theorem nrlRenderRedraw_beside (h : Beside e e') :
    Leads Beside (nrlRenderRedraw P t e) (nrlRenderRedraw P t e') := by
  intro e₁ hredraw
  have hwrites := ((Io.writes_outputFrame P).renderRedraw t h.calm).of_ok hredraw
  have hredraws := nrlRenderRedraw_ok P t hredraw
  obtain ⟨_, _, -, -, hrender⟩ := hredraws.requeried
  refine ⟨_, nrlRenderRedraw_silent t h.silent, ?_⟩
  exact
    { text := hredraws.text.symm.trans (h.text.trans ⟨rfl, rfl⟩)
      dirty := (nrlRenderRedraw_dirty hredraw).symm
      reader := hwrites.sameReader.symm.trans h.reader
      calm := by rw [hrender]
      termSmart := h.termSmart.trans hredraws.terminal.1.symm
      silent := ⟨h.silent.echoMode, h.silent.echoFile, h.silent.wrCount⟩ }

theorem nrlManipInsertText_beside (data : List Uchar) (h : Beside e e') :
    Leads Beside (nrlManipInsertText P data e) (nrlManipInsertText P data e') := by
  unfold nrlManipInsertText
  rw [h.text.buffer, h.text.cursor]
  obtain ⟨res, buffer⟩ := vecBulkInsert e.line.buffer e.line.cursor data
  refine (Leads.refl (fun _ => trivial) _).bind fun _ _ (_ : True) => ?_
  exact .ok ((h.moved _).changed buffer true)

theorem nrlManipEvalEscape_beside (escape : Nat) (h : Beside e e') :
    Leads Beside (nrlManipEvalEscape P t escape e) (nrlManipEvalEscape P t escape e') := by
  have hleft : Leads Beside (escapeLeft P t e) (escapeLeft P t e') := by
    unfold escapeLeft
    rw [h.text.cursor]
    split
    · exact nrlRenderSyncCursors_beside t (h.moved _)
    · exact .ok h
  have hright : Leads Beside (escapeRight P t e) (escapeRight P t e') := by
    unfold escapeRight
    rw [h.text.cursor, h.text.buffer]
    split
    · exact nrlRenderSyncCursors_beside t (h.moved _)
    · exact .ok h
  have hdelete : ∀ {e e' : Editor}, Beside e e' → Leads Beside (escapeDelete P e) (escapeDelete P e') := by
    intro e e' h
    rw [escapeDelete_eq, escapeDelete_eq, h.text.cursor, h.text.buffer]
    split
    · exact .ok (h.changed _ true)
    · exact .ok h
  have hbackspace : Leads Beside (escapeBackspace P t e) (escapeBackspace P t e') := by
    unfold escapeBackspace
    rw [h.text.cursor]
    split
    · exact hleft.bind fun _ _ h₁ => hdelete h₁
    · exact .ok h
  rw [nrlManipEvalEscape_calls, nrlManipEvalEscape_calls]
  cases inputKey escape with
  | none => exact .ok h
  | some key =>
    dsimp only [Option.toList, List.map]
    rw [exec_singleton, exec_singleton]
    show Leads Beside (nrlManipEvalEscape P t key.id e) (nrlManipEvalEscape P t key.id e')
    rw [nrlManipEvalEscape_key, nrlManipEvalEscape_key]
    cases key with
    | keyLeft => exact hleft
    | keyRight => exact hright
    | keyBackspace => exact hbackspace
    | keyDelete => exact hdelete h
    | keyHome => exact nrlRenderSyncCursors_beside t (h.moved 0)
    | keyEnd =>
      dsimp only
      rw [escapeEnd, escapeEnd, h.text.buffer]
      exact nrlRenderSyncCursors_beside t (h.moved _)

theorem nrlManipEvalCustom_beside (table : EscapeTable) (escape : Nat) (h : Beside e e') :
    Leads EvalAlike (nrlManipEvalCustom P t table escape e) (nrlManipEvalCustom P t table escape e') := by
  unfold nrlManipEvalCustom
  cases table escape with
  | none => exact .ok ⟨_, rfl, h⟩
  | some handler =>
    dsimp only
    refine (nrlRenderSyncCursors_beside t (h.moved 0)).bind fun e₁ e₁' h₁ => ?_
    rw [h.text.cursor, h₁.text.buffer]
    refine (Leads.refl (fun _ => Eq.refl _) _).bind ?_
    rintro ⟨buffer, cursor⟩ _ rfl
    exact .ok ⟨_, rfl, (h₁.moved cursor).changed buffer true⟩

theorem spellCustom_beside (asText : List Byte) (buffer : InputBuf) (h : Beside e e') :
    Leads EvalAlike (spellCustom P asText buffer e) (spellCustom P asText buffer e') := by
  induction asText generalizing buffer e e' with
  | nil => exact .ok ⟨_, rfl, h⟩
  | cons c asText ih =>
    rw [spellCustom_cons, spellCustom_cons]
    exact (nrlManipInsertText_beside (spelling c) h).bind fun _ _ h₁ => ih _ h₁

theorem evalInput_beside (table : EscapeTable) (ignoreDefault : Bool) (type : InputType)
    (buffer : InputBuf) (h : Beside e e') :
    Leads EvalAlike (evalInput P t table ignoreDefault type buffer e)
      (evalInput P t table ignoreDefault type buffer e') := by
  cases type with
  | text => exact (nrlManipInsertText_beside buffer.text h).bind fun _ _ h₁ => .ok ⟨_, rfl, h₁⟩
  | escape => exact (nrlManipEvalEscape_beside t _ h).bind fun _ _ h₁ => .ok ⟨_, rfl, h₁⟩
  | stop => exact .ok ⟨_, rfl, h⟩
  | customEscape =>
    unfold evalInput
    refine (nrlManipEvalCustom_beside t table _ h).bind ?_
    rintro ⟨handled, e₁⟩ _ ⟨e₁', rfl, h₁⟩
    dsimp only
    split
    · exact .ok ⟨_, rfl, h₁⟩
    · cases nrlLookupCustom t buffer.escape.bits with
      | none => exact .error _ _
      | some asText => exact spellCustom_beside asText buffer h₁

theorem evalRound_beside (table : EscapeTable) (ignoreDefault : Bool) (type : InputType)
    (buffer : InputBuf) (h : Beside e e') :
    Leads EvalAlike (evalRound P t table ignoreDefault type buffer e)
      (evalRound P t table ignoreDefault type buffer e') := by
  unfold evalRound
  refine (evalInput_beside t table ignoreDefault type buffer h).bind ?_
  rintro ⟨buffer₁, e₁⟩ _ ⟨e₁', rfl, h₁⟩
  dsimp only
  rw [h₁.dirty]
  split
  · exact (nrlRenderRedraw_beside t h₁).bind fun _ _ h₂ => .ok ⟨_, rfl, h₂⟩
  · exact .ok ⟨_, rfl, h₁⟩

/-- Beside a loop that returns a silent one does. -/
theorem readLoop_beside (root : DfaNode) (table : EscapeTable) (ignoreDefault : Bool) (fuel : Nat)
    (buffer : InputBuf) (h : Beside e e') :
    Leads EvalAlike (readLoop P t root table ignoreDefault fuel buffer e)
      (readLoop P t root table ignoreDefault fuel buffer e') := by
  induction fuel generalizing buffer e e' with
  | zero => exact .error _ _
  | succ fuel ih =>
    have hread : Leads
        (fun r r' => ∃ io, r' = (r.1, r.2.1, io) ∧ r.2.2.SameReader io ∧ e'.screen.io.ReadsFrom io)
        (nrlIoRead P root buffer e.screen.io) (nrlIoRead P root buffer e'.screen.io) := by
      intro r hr
      obtain ⟨_, hr', io, rfl, hio⟩ := (nrlIoRead_same P root buffer h.reader).of_ok hr
      exact ⟨_, hr', io, rfl, hio, (nrlIoRead_ends (F := fun _ => True) P root buffer _).of_ok hr'⟩
    refine hread.bind ?_
    rintro ⟨type, buffer₁, io⟩ _ ⟨io', rfl, hio, hfrom⟩
    have h₁ : Beside { e with screen := { e.screen with io } }
        { e' with screen := { e'.screen with io := io' } } :=
      ⟨h.text, h.dirty, hio, h.calm, h.termSmart, h.silent.of_reads hfrom⟩
    dsimp only
    split
    · exact .ok ⟨_, rfl, h₁⟩
    · refine (evalRound_beside t table ignoreDefault type buffer₁ h₁).bind ?_
      rintro ⟨buffer₂, e₂⟩ _ ⟨e₂', rfl, h₂⟩
      exact ih buffer₂ h₂

/-- A loop that returns does so with more fuel as well. -/
theorem readLoop_more (root : DfaNode) (table : EscapeTable) (ignoreDefault : Bool) (fuel more : Nat)
    (buffer : InputBuf) (e : Editor) :
    Leads Eq (readLoop P t root table ignoreDefault fuel buffer e)
      (readLoop P t root table ignoreDefault (fuel + more) buffer e) := by
  induction fuel generalizing buffer e with
  | zero => exact .error _ _
  | succ fuel ih =>
    rw [Nat.succ_add]
    refine (Leads.refl (fun _ => Eq.refl _) _).bind ?_
    rintro ⟨type, buffer₁, io⟩ _ rfl
    dsimp only
    split
    · exact .ok rfl
    · refine (Leads.refl (fun _ => Eq.refl _) _).bind ?_
      rintro ⟨buffer₂, e₂⟩ _ rfl
      exact ih buffer₂ e₂

/-- The same screen with nothing echoed on it. -/
def Screen.silenced (s : Screen) : Screen :=
  { render := { s.render with echoMode := .off }, io := { s.io with echoFile := 1, wrCount := 0 } }

/-- Two loops on the same input come to the same line. A silent one runs beside both. -/
theorem readLoop_agree {root : DfaNode} {table : EscapeTable} {ignoreDefault : Bool} {fuel fuel' : Nat}
    {buffer buffer₁ buffer₁' : InputBuf} {line : LineData} {s s' : Screen} (hreader : s.io.SameReader s'.io)
    (hsmart : s'.render.termSmart = s.render.termSmart) (hcalm : s.render.resizeFlag = false)
    (hcalm' : s'.render.resizeFlag = false)
    (hloop : readLoop P t root table ignoreDefault fuel buffer { line, screen := s } = .ok (buffer₁, e))
    (hloop' : readLoop P t root table ignoreDefault fuel' buffer { line, screen := s' } =
      .ok (buffer₁', e')) :
    buffer₁' = buffer₁ ∧ e.line.SameText e'.line ∧ e.screen.io.SameReader e'.screen.io := by
  have hsilenced : s'.io.SameReader s'.silenced.io := ⟨_, _, _, _, _, rfl, rfl, rfl⟩
  have hsilent : Silent s'.silenced := ⟨rfl, show (1 : Int) ≠ -1 by decide, rfl⟩
  have hbeside : Beside { line, screen := s } { line, screen := s'.silenced } :=
    ⟨⟨rfl, rfl⟩, rfl, hreader.trans hsilenced, hcalm, hsmart, hsilent⟩
  have hbeside' : Beside { line, screen := s' } { line, screen := s'.silenced } :=
    ⟨⟨rfl, rfl⟩, rfl, hsilenced, hcalm', rfl, hsilent⟩
  obtain ⟨_, hmore, rfl⟩ := readLoop_more t root table ignoreDefault fuel fuel' buffer _ _ hloop
  obtain ⟨_, hmore', rfl⟩ := readLoop_more t root table ignoreDefault fuel' fuel buffer _ _ hloop'
  obtain ⟨_, hrun, e₂, rfl, h⟩ := readLoop_beside t root table ignoreDefault _ buffer hbeside _ hmore
  obtain ⟨_, hrun', e₂', rfl, h'⟩ := readLoop_beside t root table ignoreDefault _ buffer hbeside' _ hmore'
  rw [Nat.add_comm, hrun] at hrun'
  obtain ⟨rfl, rfl⟩ := Prod.mk.inj (Except.ok.inj hrun')
  exact ⟨rfl, h.text.trans h'.text.symm, h.reader.trans h'.reader.symm⟩

end Editing

end Nanorl
