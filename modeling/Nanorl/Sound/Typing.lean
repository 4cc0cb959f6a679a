import Nanorl.Sound.Characters
import Nanorl.Sound.Echo
import Nanorl.Sound.Keystrokes

/-!
# Nanorl.Sound.Typing

The read loop of `nanorl` as a line discipline.

`typedLine` says what a list of keystrokes makes of a line, on the two-list text of
`Nanorl.Lib.Zipper` and without a terminal. A screen `Hosts` the loop if reads and calls keep
an invariant of it and no call faults; what such a screen is, the modules behind this one
say. On it the loop takes one round for each keystroke and leaves the line they type
(`Hosts.types`), and it has drawn the line whenever it waits for input.
-/

namespace Nanorl

/-- What an event makes of the line; `custom` is what the custom keys do. -/
def lineEvent (custom : Nat → Zipper Uchar → Zipper Uchar) (z : Zipper Uchar) : IoEvent → Zipper Uchar
  | .text text => z.insert text
  | .escape id => ((inputKey id).map (zipperKey z)).getD z
  | .custom id => custom id z
  | .stop _ => z

/-- What a list of keystrokes makes of the line. -/
def typedLine (custom : Nat → Zipper Uchar → Zipper Uchar) (typed : List Keystroke) (z : Zipper Uchar) :
    Zipper Uchar :=
  typed.foldl (fun z k => lineEvent custom z k.event) z

/-- A custom key without a handler: nothing, or its sequence is spelled. -/
def unhandledKey (t : Terminfo) (ignoreDefault : Bool) (id : Nat) (z : Zipper Uchar) : Zipper Uchar :=
  if ignoreDefault then z else z.insert (((nrlLookupCustom t id).getD []).flatMap spelling)

section Spelling

variable {P : Platform} {t : Terminfo} {e e' : Editor}

/-- Two texts that go in one behind the other are one text. -/
theorem nrlManipInsertText_append {text rest : List Uchar} (h : e.line.cursor ≤ e.line.buffer.length)
    (hfirst : nrlManipInsertText P text e = .ok e') :
    nrlManipInsertText P rest e' = nrlManipInsertText P (text ++ rest) e := by
  rw [nrlManipInsertText_eq P text h] at hfirst
  obtain rfl := Except.ok.inj hfirst
  have htake : (e.line.buffer.take e.line.cursor ++ text).length = e.line.cursor + text.length := by
    rw [List.length_append, List.length_take_of_le h]
  rw [nrlManipInsertText_eq P (text ++ rest) h, nrlManipInsertText_eq P rest (by
    dsimp only
    rw [List.length_append, htake]
    omega)]
  dsimp only
  rw [List.take_left' htake, List.drop_left' htake, List.length_append, Nat.add_assoc]
  simp only [List.append_assoc]

/-- The characters of a custom sequence go in one by one. -/
theorem exec_spelling {asText : List Byte} (hne : asText ≠ []) (h : e.line.cursor ≤ e.line.buffer.length) :
    Run.exec (CursorOp.perform P t) (asText.map fun c => .edit (.insert (spelling c))) e =
      nrlManipInsertText P (asText.flatMap spelling) e := by
  induction asText generalizing e with
  | nil => exact absurd rfl hne
  | cons c asText ih =>
    have hfirst := nrlManipInsertText_eq P (spelling c) h
    rw [List.map_cons, Run.exec_cons, show CursorOp.perform P t (.edit (.insert (spelling c))) e = _ from hfirst,
      Run.ok_bind, List.flatMap_cons]
    obtain rfl | hrest := eq_or_ne asText []
    · rw [List.flatMap_nil, List.append_nil]
      exact hfirst.symm
    · rw [ih hrest (by simp; omega)]
      exact nrlManipInsertText_append h hfirst

theorem caretForm_ne_nil (uc : Uchar) : caretForm uc ≠ [] := by
  unfold caretForm
  split_ifs <;> exact List.cons_ne_nil _ _

theorem spelling_ne_nil {asText : List Byte} (h : asText ≠ []) : asText.flatMap spelling ≠ [] := by
  obtain ⟨c, hc⟩ := List.exists_mem_of_ne_nil asText h
  intro hnil
  have hempty := List.flatMap_eq_nil_iff.mp hnil c hc
  rw [spelling_eq] at hempty
  exact caretForm_ne_nil _ hempty

end Spelling

/-- `io'` is `io` after output that has come through: the reader and `errno` are untouched. -/
def Io.Draws (io io' : Io) : Prop :=
  ∃ wrBuf wrCount writes echoed, io' = { io with
    wrBuf, wrCount, world := { io.world with writes, echoed } }

theorem Io.Draws.refl (io : Io) : io.Draws io := ⟨_, _, _, _, rfl⟩

theorem Io.Draws.trans {io₁ io₂ io₃ : Io} (h : io₁.Draws io₂) (h' : io₂.Draws io₃) :
    io₁.Draws io₃ := by
  obtain ⟨_, _, _, _, rfl⟩ := h
  obtain ⟨wrBuf, wrCount, writes, echoed, rfl⟩ := h'
  exact ⟨wrBuf, wrCount, writes, echoed, rfl⟩

theorem Io.Sends.draws {data : List Byte} {io io' : Io} (h : io.Sends data io') : io.Draws io' := h.same

/-- What the loop does on a terminal, with cursor keys or without. -/
def EditOp.Permitted (Keys : Prop) (e : Editor) : EditOp → Prop
  | .insert text => text ≠ []
  | .redraw => e.line.dirty = true
  | .escape _ | .sync => Keys

/-- A screen on which the line can be edited as long as it has room: reads and calls keep
`I`, no call faults, apart from keys where there are no `Keys`, and the handlers do what
`custom` says. -/
structure Hosts (P : Platform) (t : Terminfo) (table : EscapeTable) (ignoreDefault : Bool)
    (custom : Nat → Zipper Uchar → Zipper Uchar) (Keys : Prop) (Room : Zipper Uchar → Prop)
    (I : Editor → Prop) : Prop where
  read : ∀ {e : Editor} {io : Io}, I e → e.screen.io.ReadsFrom io →
    I { e with screen := { e.screen with io } }
  perform : ∀ {e : Editor} {z : Zipper Uchar} {op : EditOp}, op.Permitted Keys e → I e →
    e.line.Shows z → Room z → Room (zipperOp z op) →
    ∃ e', op.perform P t e = .ok e' ∧ I e' ∧ e.screen.io.Draws e'.screen.io
  handled : ∀ {e : Editor} {z : Zipper Uchar} {id : Nat} {handler : EscapeHandler}, table id = some handler →
    I e → e.line.Shows z → Room z → Room (custom id z) →
    ∃ e', nrlManipEvalCustom P t table id e = .ok (true, e') ∧ I e' ∧ e'.line.Shows (custom id z) ∧
      e.screen.io.Draws e'.screen.io
  unhandled : ∀ id, table id = none → custom id = unhandledKey t ignoreDefault id

/-- The head of the loop: `I` holds, the line is `z`, and what has been read is drawn once the
buffer is used up. -/
structure RoundHead (I : Editor → Prop) (z : Zipper Uchar) (a : Stream' Byte) (e : Editor) : Prop where
  inv : I e
  shows : e.line.Shows z
  ready : Ready a e.screen.io
  drawn : e.screen.io.rdUsed = e.screen.io.rdCount → e.line.dirty = false

section Draws

variable {io io' : Io}

theorem Io.Draws.ready (h : io.Draws io') {a : Stream' Byte} (hready : Ready a io) : Ready a io' := by
  obtain ⟨_, _, _, _, rfl⟩ := h
  exact ⟨hready.readFile, hready.pending, hready.count_le, hready.used_le, hready.preload,
    fun i _ hi => absurd hi (Nat.not_lt_zero i), hready.rest⟩

theorem Io.Draws.atHand (h : io.Draws io') {mark : Mark} {n : Nat} (hhand : io.AtHand mark n) :
    io'.AtHand mark n := by
  obtain ⟨_, _, _, _, rfl⟩ := h
  exact hhand

theorem Io.Draws.usedUp (h : io.Draws io') : io'.rdUsed = io'.rdCount ↔ io.rdUsed = io.rdCount := by
  obtain ⟨_, _, _, _, rfl⟩ := h
  exact Iff.rfl

end Draws

section Hosts

variable {P : Platform} {t : Terminfo} {table : EscapeTable} {ignoreDefault : Bool}
  {custom : Nat → Zipper Uchar → Zipper Uchar} {Keys : Prop} {Room : Zipper Uchar → Prop}
  {I : Editor → Prop}
  {e : Editor} {z : Zipper Uchar}

theorem Hosts.op (h : Hosts P t table ignoreDefault custom Keys Room I) (op : EditOp)
    (hpermitted : op.Permitted Keys e) (hI : I e) (hz : e.line.Shows z) (hroom : Room z)
    (hroom' : Room (zipperOp z op)) :
    ∃ e', op.perform P t e = .ok e' ∧ I e' ∧ e'.line.Shows (zipperOp z op) ∧
      e.screen.io.Draws e'.screen.io := by
  obtain ⟨e', hop, hI', hdraws⟩ := h.perform hpermitted hI hz hroom hroom'
  exact ⟨e', hop, hI', (op.perform_ends P t hz).of_ok hop, hdraws⟩

/-- The evaluation of one input. -/
theorem Hosts.evalInput (h : Hosts P t table ignoreDefault custom Keys Room I)
    {type : InputType} (htype : type ≠ .stop) (buffer : InputBuf) (htext : type = .text → buffer.text ≠ [])
    (hlookup : type = .customEscape →
      ∃ asText, nrlLookupCustom t buffer.escape.bits = some asText ∧ asText ≠ [])
    (hkeys : type = .escape → Keys) (hI : I e) (hz : e.line.Shows z) (hroom : Room z)
    (hroom' : Room (lineEvent custom z (eventOf type buffer))) :
    ∃ buffer' e', evalInput P t table ignoreDefault type buffer e = .ok (buffer', e') ∧
      buffer'.more = buffer.more ∧ I e' ∧ e'.line.Shows (lineEvent custom z (eventOf type buffer)) ∧
      e.screen.io.Draws e'.screen.io := by
  cases type with
  | stop => exact absurd rfl htype
  | text =>
    obtain ⟨e', hop, hrest⟩ := h.op (.insert buffer.text) (htext rfl) hI hz hroom hroom'
    exact ⟨buffer, e', congrArg (· >>= _) hop, rfl, hrest⟩
  | escape =>
    cases hkey : inputKey buffer.escape.bits with
    | none =>
      have hcalls := nrlManipEvalEscape_calls P t buffer.escape.bits e
      rw [hkey] at hcalls
      refine ⟨buffer, e, congrArg (· >>= _) hcalls, rfl, hI, ?_, .refl _⟩
      rw [eventOf, lineEvent, hkey]
      exact hz
    | some key =>
      have hevent : lineEvent custom z (eventOf .escape buffer) = zipperOp z (.escape key) := by
        simp only [eventOf, lineEvent, hkey, Option.map_some, Option.getD_some, zipperOp]
      rw [hevent] at hroom' ⊢
      obtain ⟨e', hop, hrest⟩ := h.op (.escape key) (hkeys rfl) hI hz hroom hroom'
      have hcalls := nrlManipEvalEscape_calls P t buffer.escape.bits e
      rw [hkey, show (some key).toList.map _ = [CursorOp.edit (.escape key)] from rfl, exec_singleton] at hcalls
      exact ⟨buffer, e', congrArg (· >>= _) (hcalls.trans hop), rfl, hrest⟩
  | customEscape =>
    cases htable : table buffer.escape.bits with
    | some handler =>
      obtain ⟨e', hcustom, hI', hz', hdraws⟩ := h.handled htable hI hz hroom hroom'
      refine ⟨buffer, e', ?_, rfl, hI', hz', hdraws⟩
      rw [Nanorl.evalInput, hcustom]
      rfl
    | none =>
      have hevent : lineEvent custom z (eventOf .customEscape buffer) =
          unhandledKey t ignoreDefault buffer.escape.bits z :=
        congrFun (h.unhandled _ htable) z
      have hcustom : nrlManipEvalCustom P t table buffer.escape.bits e = .ok (false, e) := by
        rw [nrlManipEvalCustom, htable]
      rw [hevent] at hroom' ⊢
      cases ignoreDefault with
      | true =>
        refine ⟨buffer, e, ?_, rfl, hI, hz, .refl _⟩
        rw [Nanorl.evalInput, hcustom]
        rfl
      | false =>
        obtain ⟨asText, hsome, hne⟩ := hlookup rfl
        have hspelled : unhandledKey t false buffer.escape.bits z =
            zipperOp z (.insert (asText.flatMap spelling)) := by
          rw [unhandledKey, if_neg Bool.false_ne_true, hsome]
          rfl
        rw [hspelled] at hroom' ⊢
        obtain ⟨e', hop, hrest⟩ :=
          h.op (.insert (asText.flatMap spelling)) (spelling_ne_nil hne) hI hz hroom hroom'
        obtain ⟨buffer', hmore, hspell⟩ := spellCustom_calls P t asText buffer e
        rw [exec_spelling hne hz.cursor_le,
          show nrlManipInsertText P _ e = _ from hop] at hspell
        refine ⟨buffer', e', ?_, hmore, hrest⟩
        rw [Nanorl.evalInput, hcustom, Run.ok_bind]
        dsimp only
        rw [if_neg (by decide), hsome]
        exact hspell

/-- A round behind its read. -/
theorem Hosts.evalRound (h : Hosts P t table ignoreDefault custom Keys Room I)
    {type : InputType} (htype : type ≠ .stop) (buffer : InputBuf) (htext : type = .text → buffer.text ≠ [])
    (hlookup : type = .customEscape →
      ∃ asText, nrlLookupCustom t buffer.escape.bits = some asText ∧ asText ≠ [])
    (hkeys : type = .escape → Keys) (hI : I e) (hz : e.line.Shows z) (hroom : Room z)
    (hroom' : Room (lineEvent custom z (eventOf type buffer))) :
    ∃ buffer' e', evalRound P t table ignoreDefault type buffer e = .ok (buffer', e') ∧
      I e' ∧ e'.line.Shows (lineEvent custom z (eventOf type buffer)) ∧ e.screen.io.Draws e'.screen.io ∧
      (buffer.more = false → e'.line.dirty = false) := by
  obtain ⟨buffer₁, e₁, heval, hmore, hI₁, hz₁, hdraws₁⟩ :=
    h.evalInput htype buffer htext hlookup hkeys hI hz hroom hroom'
  rw [Nanorl.evalRound, heval, Run.ok_bind]
  dsimp only
  by_cases hdraw : (!buffer₁.more && e₁.line.dirty) = true
  · have hdirty : e₁.line.dirty = true := (Bool.and_eq_true_iff.mp hdraw).2
    obtain ⟨e₂, hop, hI₂, hz₂, hdraws₂⟩ := h.op .redraw hdirty hI₁ hz₁ hroom' hroom'
    rw [if_pos hdraw, show nrlRenderRedraw P t e₁ = _ from hop]
    exact ⟨buffer₁, e₂, rfl, hI₂, hz₂, hdraws₁.trans hdraws₂, fun _ => nrlRenderRedraw_dirty hop⟩
  · rw [if_neg hdraw]
    refine ⟨buffer₁, e₁, rfl, hI₁, hz₁, hdraws₁, fun hlast => ?_⟩
    rw [hmore, hlast] at hdraw
    simpa using hdraw

variable {keys : List DfaEntry} {root : DfaNode} {a : Stream' Byte}

/-- A custom key has a sequence, and not the empty one. -/
theorem HasKeys.customs (h : HasKeys t keys root) {k : Keystroke} (hk : k.Typable P keys) {type : InputType}
    {buffer : InputBuf} (hevent : eventOf type buffer = k.event) (htype : type = .customEscape) :
    ∃ asText, nrlLookupCustom t buffer.escape.bits = some asText ∧ asText ≠ [] := by
  subst htype
  cases k with
  | char c => cases hevent
  | control b => cases hevent
  | stray b => cases hevent
  | key entry =>
    change IoEvent.custom _ = keyEvent _ _ at hevent
    unfold keyEvent at hevent
    cases hflag : entry.custom with
    | false =>
      rw [hflag] at hevent
      cases hevent
    | true =>
      rw [hflag] at hevent
      refine ⟨entry.sequence, ?_, fun hnil => h.tree.nil_not_mem (hnil ▸ ⟨entry, hk.1, rfl⟩)⟩
      rw [IoEvent.custom.inj hevent, h.custom entry hk.1 hflag]

/-- No keystroke ends the line. -/
theorem Keystroke.event_ne_stop (k : Keystroke) (eof : Bool) : k.event ≠ .stop eof := by
  cases k with
  | char c => exact nofun
  | control b => exact nofun
  | stray b => exact nofun
  | key entry =>
    change keyEvent _ _ ≠ _
    unfold keyEvent
    split <;> exact nofun

/-- What a keystroke puts into the line is not empty. -/
theorem Keystroke.text_ne_nil (k : Keystroke) {text : List Uchar} (h : k.event = .text text) : text ≠ [] := by
  cases k with
  | char c =>
    obtain rfl := IoEvent.text.inj h
    exact List.cons_ne_nil _ _
  | control b =>
    obtain rfl := IoEvent.text.inj h
    exact caretForm_ne_nil _
  | stray b =>
    obtain rfl := IoEvent.text.inj h
    exact List.cons_ne_nil _ _
  | key entry =>
    change keyEvent _ _ = _ at h
    unfold keyEvent at h
    split at h <;> cases h

/-- The step: one round for one keystroke. -/
theorem Hosts.round (h : Hosts P t table ignoreDefault custom Keys Room I) (hlaw : P.ConsumesAnnounced)
    (hutf8 : P.Utf8Laws) (hkeys : HasKeys t keys root) {k : Keystroke} (hk : k.Typable P keys)
    (hescape : ∀ id, k.event = .escape id → Keys) (hroom : Room z)
    (hroom' : Room (lineEvent custom z k.event))
    (hhead : RoundHead I z (k.bytes ++ₛ a) e) (buffer : InputBuf) :
    ∃ buffer' e', (∀ fuel, readLoop P t root table ignoreDefault (fuel + 1) buffer e =
        readLoop P t root table ignoreDefault fuel buffer' e') ∧
      RoundHead I (lineEvent custom z k.event) a e' ∧
      ∀ mark n, k.bytes.length ≤ n → e.screen.io.AtHand mark n →
        e'.screen.io.AtHand mark (n - k.bytes.length) := by
  obtain ⟨type, buffer₁, io, hread, htakes⟩ := nrlIoRead_keystroke hlaw hutf8 hkeys hk hhead.ready buffer
  have hevent := htakes.event
  have htype : type ≠ .stop := by
    intro hstop
    subst hstop
    exact k.event_ne_stop _ hevent.symm
  have hused := htakes.ready.used_le
  obtain ⟨buffer₂, e₂, hround, hI₂, hz₂, hdraws, hdrawn⟩ :=
    h.evalRound (e := { e with screen := { e.screen with io } }) htype buffer₁
      (fun htext => k.text_ne_nil (hevent.symm.trans (by rw [htext]; rfl)))
      (hkeys.customs hk hevent)
      (fun htype => hescape buffer₁.escape.bits (by rw [← hevent, htype]; rfl))
      (h.read hhead.inv htakes.from_) hhead.shows hroom (hevent ▸ hroom')
  rw [hevent] at hz₂
  refine ⟨buffer₂, e₂, fun fuel => ?_, ⟨hI₂, hz₂, hdraws.ready htakes.ready, fun hempty => hdrawn ?_⟩,
    fun mark n hn hhand => hdraws.atHand (htakes.atHand mark n hn hhand)⟩
  · rw [readLoop, hread, Run.ok_bind]
    dsimp only
    rw [if_neg htype, hround]
    rfl
  · have hio : io.rdUsed = io.rdCount := hdraws.usedUp.mp hempty
    rw [htakes.more, hio]
    exact decide_eq_false (Nat.lt_irrefl _)

/-- The line has room behind each of the keystrokes. -/
def HasRoom (custom : Nat → Zipper Uchar → Zipper Uchar) (Room : Zipper Uchar → Prop)
    (typed : List Keystroke) (z : Zipper Uchar) : Prop :=
  ∀ past, past <+: typed → Room (typedLine custom past z)

instance [DecidablePred Room] (typed : List Keystroke) (z : Zipper Uchar) :
    Decidable (HasRoom custom Room typed z) :=
  decidable_of_iff (∀ past ∈ typed.inits, Room (typedLine custom past z))
    (by simp only [List.mem_inits, HasRoom])

theorem HasRoom.head {typed : List Keystroke} (h : HasRoom custom Room typed z) : Room z :=
  h [] List.nil_prefix

theorem HasRoom.all {typed : List Keystroke} (h : HasRoom custom Room typed z) :
    Room (typedLine custom typed z) :=
  h typed List.prefix_rfl

theorem HasRoom.tail {k : Keystroke} {typed : List Keystroke} (h : HasRoom custom Room (k :: typed) z) :
    HasRoom custom Room typed (lineEvent custom z k.event) :=
  fun past hpast => h (k :: past) (List.cons_prefix_cons.mpr ⟨rfl, hpast⟩)

/-- **The run.** The loop takes a round for each keystroke, from its head to its head, and
leaves the line they type. The induction is on the keystrokes. -/
theorem Hosts.types (h : Hosts P t table ignoreDefault custom Keys Room I) (hlaw : P.ConsumesAnnounced)
    (hutf8 : P.Utf8Laws) (hkeys : HasKeys t keys root)
    {typed : List Keystroke} (htyped : ∀ k ∈ typed, k.Typable P keys)
    (hescape : ∀ k ∈ typed, ∀ id, k.event = .escape id → Keys) (hroom : HasRoom custom Room typed z)
    (hhead : RoundHead I z (typedBytes typed ++ₛ a) e) (buffer : InputBuf) :
    ∃ buffer' e', (∀ fuel, readLoop P t root table ignoreDefault (typed.length + fuel) buffer e =
        readLoop P t root table ignoreDefault fuel buffer' e') ∧
      RoundHead I (typedLine custom typed z) a e' ∧
      ∀ mark n, (typedBytes typed).length ≤ n → e.screen.io.AtHand mark n →
        e'.screen.io.AtHand mark (n - (typedBytes typed).length) := by
  induction typed generalizing z e buffer with
  | nil =>
    refine ⟨buffer, e, fun fuel => ?_, hhead, fun mark n _ hhand => hhand⟩
    rw [List.length_nil, Nat.zero_add]
  | cons k typed ih =>
    rw [List.forall_mem_cons] at htyped hescape
    rw [typedBytes_cons, Stream'.append_append_stream] at hhead
    obtain ⟨buffer₁, e₁, hloop₁, hhead₁, hhand₁⟩ :=
      h.round hlaw hutf8 hkeys htyped.1 hescape.1 hroom.head hroom.tail.head hhead buffer
    obtain ⟨buffer₂, e₂, hloop₂, hhead₂, hhand₂⟩ := ih htyped.2 hescape.2 hroom.tail hhead₁ buffer₁
    refine ⟨buffer₂, e₂, fun fuel => ?_, hhead₂, fun mark n hn hhand => ?_⟩
    · rw [List.length_cons, Nat.add_right_comm, hloop₁, hloop₂]
    · rw [typedBytes_cons, List.length_append] at hn ⊢
      rw [Nat.sub_add_eq]
      exact hhand₂ mark _ (by omega) (hhand₁ mark n (by omega) hhand)

/-- The loop leaves at the end of the line. -/
theorem Hosts.stops (h : Hosts P t table ignoreDefault custom Keys Room I) (hlaw : P.ConsumesAnnounced)
    (hutf8 : P.Utf8Laws) (hkeys : HasKeys t keys root) {b : Byte} (hb : b = 10 ∨ b = charEot)
    (hfirst : ∀ w ∈ sequences keys, w.head? ≠ some b) (hhead : RoundHead I z (Stream'.cons b a) e)
    (buffer : InputBuf) (fuel : Nat) :
    ∃ buffer' io, readLoop P t root table ignoreDefault (fuel + 1) buffer e =
        .ok (buffer', { e with screen := { e.screen with io } }) ∧
      buffer'.eof = decide (b = charEot) ∧ I { e with screen := { e.screen with io } } ∧ Ready a io ∧
      ∀ mark n, 0 < n → e.screen.io.AtHand mark n → io.AtHand mark (n - 1) := by
  obtain ⟨buffer', io, hread, heof, hready, hfrom, hhand⟩ :=
    nrlIoRead_ending hlaw hutf8 hkeys.tree hb hfirst hhead.ready buffer
  refine ⟨buffer', io, ?_, heof, h.read hhead.inv hfrom, hready, hhand⟩
  rw [readLoop, hread]
  rfl

/-- A line and its end, and nothing of what comes behind it. If the end comes in a read of its
own, the line is drawn before. -/
theorem Hosts.line (h : Hosts P t table ignoreDefault custom Keys Room I) (hlaw : P.ConsumesAnnounced)
    (hutf8 : P.Utf8Laws) (hkeys : HasKeys t keys root)
    {typed : List Keystroke} (htyped : ∀ k ∈ typed, k.Typable P keys)
    (hescape : ∀ k ∈ typed, ∀ id, k.event = .escape id → Keys) (hroom : HasRoom custom Room typed z)
    {b : Byte} (hb : b = 10 ∨ b = charEot) (hfirst : ∀ w ∈ sequences keys, w.head? ≠ some b)
    (hhead : RoundHead I z (typedBytes typed ++ₛ Stream'.cons b a) e) {fuel : Nat}
    (hfuel : typed.length < fuel) (buffer : InputBuf) :
    ∃ buffer' e', readLoop P t root table ignoreDefault fuel buffer e = .ok (buffer', e') ∧
      buffer'.eof = decide (b = charEot) ∧ I e' ∧ e'.line.Shows (typedLine custom typed z) ∧
      (∀ mark, e.screen.io.AtHand mark ((typedBytes typed).length + 1) →
        e'.screen.io.world.reads = mark.reads ∧ e'.screen.io.world.errno = mark.errno) ∧
      ∀ mark, e.screen.io.AtHand mark (typedBytes typed).length → e'.line.dirty = false := by
  obtain ⟨buffer₁, e₁, hloop, hhead₁, hhand₁⟩ :=
    h.types hlaw hutf8 hkeys htyped hescape hroom hhead buffer
  obtain ⟨buffer₂, io, hstop, heof, hI, hready, hhand₂⟩ :=
    h.stops hlaw hutf8 hkeys hb hfirst hhead₁ buffer₁ (fuel - (typed.length + 1))
  refine ⟨buffer₂, _, ?_, heof, hI, hhead₁.shows, fun mark hhand => ?_, fun mark hhand => hhead₁.drawn ?_⟩
  · rw [← hstop, ← hloop]
    congr 1
    omega
  · have hone := hhand₁ mark _ (Nat.le_succ _) hhand
    rw [Nat.succ_sub (Nat.le_refl _), Nat.sub_self] at hone
    obtain ⟨hreads, herrno, -⟩ := (hhand₂ mark 1 Nat.one_pos hone).none (by simpa using hready.used_le)
    exact ⟨hreads, herrno⟩
  · have hnone := hhand₁ mark _ (Nat.le_refl _) hhand
    rw [Nat.sub_self] at hnone
    exact (hnone.none (by simpa using hhead₁.ready.used_le)).2.2.1

end Hosts

end Nanorl
