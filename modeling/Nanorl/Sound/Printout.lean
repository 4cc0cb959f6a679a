import Nanorl.Sound.Echo
import Nanorl.Sound.Edited

/-!
# Nanorl.Sound.Printout

A call at a terminal that is not smart.

There the cursor stays behind the line, and a redraw prints the line from its beginning. The
loop redraws a line that has grown whenever it has run out of input: what comes out is a list of
ever longer lines, with every line among them at which the input paused (`nanorl_printed`).
-/

namespace Nanorl

/-- A longer line that starts with the other. -/
def Grows (line line' : List Uchar) : Prop := line <+: line' ∧ line ≠ line'

/-- The lines that have been drawn: those that `Known` says, and none but those that `May` be. -/
structure LinesOut (Known May : List Uchar → Prop) (line : LineData) (drawn : List (List Uchar)) : Prop where
  grows : ([] :: drawn).Pairwise Grows
  front : ∀ old ∈ [] :: drawn, old <+: line.buffer
  dirty : line.dirty = true ↔ line.buffer ∉ [] :: drawn
  known : ∀ old, Known old → old ∈ [] :: drawn
  may : ∀ old ∈ drawn, May old

/-- A dumb terminal that has received `start`, and then each of the drawn lines from its beginning. -/
structure Printed (P : Platform) (mode : EchoMode) (start : List Byte) (Known May : List Uchar → Prop)
    (e : Editor) : Prop where
  dumb : Dumb mode e.line.buffer e
  steady : e.screen.io.world.Steady
  drawn : ∃ drawn, LinesOut Known May e.line drawn ∧
    e.screen.io.world.echoed = start ++ drawn.flatMap (onceEach P mode)

section Lines

variable {Known Known' May : List Uchar → Prop} {line : LineData} {drawn : List (List Uchar)}

/-- The line grows, and has not been drawn as it is now. -/
theorem LinesOut.insert (h : LinesOut Known May line drawn) {text : List Uchar} (htext : text ≠ []) {cursor : Nat} :
    LinesOut Known May { line with buffer := line.buffer ++ text, cursor, dirty := true } drawn where
  grows := h.grows
  front := fun old hold => (h.front old hold).trans (List.prefix_append _ _)
  dirty := by
    refine iff_of_true rfl fun hmem => htext (List.eq_nil_of_length_eq_zero ?_)
    have hlength := (h.front _ hmem).length_le
    rw [List.length_append] at hlength
    omega
  known := h.known
  may := h.may

/-- The line is drawn. -/
theorem LinesOut.draw (h : LinesOut Known May line drawn) (hdirty : line.dirty = true) (hmay : May line.buffer)
    {line' : LineData} (hbuffer : line'.buffer = line.buffer) (hclean : line'.dirty = false) :
    LinesOut Known May line' (drawn ++ [line.buffer]) where
  grows := by
    rw [← List.cons_append, List.pairwise_append]
    refine ⟨h.grows, List.pairwise_singleton _ _, fun old hold new hnew => ?_⟩
    rw [List.mem_singleton] at hnew
    subst hnew
    exact ⟨h.front old hold, fun heq => h.dirty.mp hdirty (heq ▸ hold)⟩
  front := by
    intro old hold
    rw [hbuffer]
    rw [← List.cons_append, List.mem_append, List.mem_singleton] at hold
    rcases hold with hold | rfl
    · exact h.front old hold
    · exact List.prefix_rfl
  dirty := by
    rw [hbuffer, ← List.cons_append]
    exact iff_of_false (hclean ▸ Bool.false_ne_true) fun hnot => hnot (by simp)
  known := by
    intro old hold
    rw [← List.cons_append]
    exact List.mem_append_left _ (h.known old hold)
  may := by
    intro old hold
    rw [List.mem_append, List.mem_singleton] at hold
    rcases hold with hold | rfl
    · exact h.may old hold
    · exact hmay

/-- What is not dirty has been drawn. -/
theorem LinesOut.learn (h : LinesOut Known May line drawn)
    (hknown : ∀ old, Known' old → Known old ∨ old = line.buffer ∧ line.dirty = false) :
    LinesOut Known' May line drawn where
  grows := h.grows
  front := h.front
  dirty := h.dirty
  known := by
    intro old hold
    rcases hknown old hold with hold | ⟨rfl, hclean⟩
    · exact h.known old hold
    · have hdirty := mt h.dirty.mpr (hclean ▸ Bool.false_ne_true)
      exact not_not.mp hdirty
  may := h.may

end Lines

/-! ### The loop -/

section Loop

variable {P : Platform} {t : Terminfo} {mode : EchoMode} {start : List Byte} {Known Known' May : List Uchar → Prop}
  {e : Editor} {z : Zipper Uchar} {ignoreDefault : Bool}

theorem Printed.learn (h : Printed P mode start Known May e)
    (hknown : ∀ old, Known' old → Known old ∨ old = e.line.buffer ∧ e.line.dirty = false) :
    Printed P mode start Known' May e := by
  obtain ⟨drawn, hdrawn, hechoed⟩ := h.drawn
  exact ⟨h.dumb, h.steady, drawn, hdrawn.learn hknown, hechoed⟩

theorem Printed.of_reads (h : Printed P mode start Known May e) {io : Io} (hfrom : e.screen.io.ReadsFrom io) :
    Printed P mode start Known May { e with screen := { e.screen with io } } := by
  have hsteady := hfrom.world.steady h.steady
  have hecho := h.dumb.echoing
  obtain ⟨drawn, hdrawn, hechoed⟩ := h.drawn
  refine ⟨⟨rfl, h.dumb.cursor, h.dumb.renderCursor, h.dumb.termSmart, h.dumb.echoMode,
      ⟨?_, ?_, ?_, hsteady.writes⟩, hfrom.wrCount.trans h.dumb.wrCount⟩, hsteady, drawn, hdrawn,
    hfrom.world.echoed.trans hechoed⟩
  · rw [hfrom.echoFile]
    exact hecho.echoFile
  · rw [hfrom.echoEnabled]
    exact hecho.echoEnabled
  · rw [hfrom.wrCount]
    exact hecho.wrCount

theorem Printed.insert (h : Printed P mode start Known May e) {text : List Uchar} (htext : text ≠ []) :
    ∃ e', nrlManipInsertText P text e = .ok e' ∧ Printed P mode start Known May e' ∧ e'.screen = e.screen := by
  have hcursor := h.dumb.cursor
  obtain ⟨drawn, hdrawn, hechoed⟩ := h.drawn
  have hinsert := nrlManipInsertText_eq P text (Nat.le_of_eq hcursor)
  rw [hcursor, List.take_length, List.drop_length, List.append_nil] at hinsert
  refine ⟨_, hinsert, ⟨⟨rfl, ?_, h.dumb.renderCursor, h.dumb.termSmart, h.dumb.echoMode, h.dumb.echoing,
    h.dumb.wrCount⟩, h.steady, drawn, hdrawn.insert htext, hechoed⟩, rfl⟩
  dsimp only
  rw [List.length_append]

theorem Printed.redraw (hmode : mode ≠ .off) (h : Printed P mode start Known May e) (hdirty : e.line.dirty = true)
    (hlength : e.line.buffer.length < 2 ^ 32) (hmay : May e.line.buffer) :
    ∃ e', nrlRenderRedraw P t e = .ok e' ∧ Printed P mode start Known May e' ∧
      e.screen.io.Draws e'.screen.io := by
  obtain ⟨drawn, hdrawn, hechoed⟩ := h.drawn
  obtain ⟨e', hredraw, hdumb, hsends⟩ := h.dumb.redraw (P := P) (t := t) hmode hlength
  have hbuffer := hdumb.buffer
  refine ⟨e', hredraw, ⟨hbuffer ▸ hdumb, hsends.steady h.steady, drawn ++ [e.line.buffer],
    hdrawn.draw hdirty hmay hbuffer (nrlRenderRedraw_dirty hredraw), ?_⟩, hsends.draws⟩
  rw [← Io.output_of_flushed hdumb.wrCount, hsends.output, Io.output_of_flushed h.dumb.wrCount, hechoed,
    List.flatMap_append, List.flatMap_singleton, List.append_assoc]

/-- **A dumb terminal** hosts a loop without cursor keys and handlers. -/
theorem printed_hosts (P : Platform) (t : Terminfo) (ignoreDefault : Bool) (hmode : mode ≠ .off)
    (start : List Byte) (Known May : List Uchar → Prop) :
    Hosts P t nrlManipClearCustomTable ignoreDefault (unhandledKey t ignoreDefault) False
      (fun z => z.toList.length < 2 ^ 32 ∧ May z.toList) (Printed P mode start Known May) where
  read := fun h hfrom => h.of_reads hfrom
  perform := by
    intro e z op hpermitted hI hz hroom _
    rw [← hz.buffer] at hroom
    cases op with
    | insert text =>
      obtain ⟨e', hinsert, hI', hscreen⟩ := hI.insert hpermitted
      exact ⟨e', hinsert, hI', hscreen ▸ .refl _⟩
    | escape key => exact hpermitted.elim
    | redraw => exact hI.redraw hmode hpermitted hroom.1 hroom.2
    | sync => exact hpermitted.elim
  handled := by
    intro e z id handler htable
    cases htable
  unhandled := fun _ _ => rfl

/-- Where the input pauses, the line has been drawn. -/
theorem RoundHead.pause {a : Stream' Byte} (h : RoundHead (Printed P mode start Known May) z a e) :
    RoundHead (Printed P mode start
      (fun old => Known old ∨ old = z.toList ∧ ∃ mark, e.screen.io.AtHand mark 0) May) z a e := by
  refine ⟨h.inv.learn fun old hold => hold.imp_right fun ⟨hline, mark, hhand⟩ => ?_, h.shows, h.ready, h.drawn⟩
  obtain ⟨-, -, hempty, -⟩ := hhand.none (by simpa using h.ready.used_le)
  exact ⟨hline.trans h.shows.buffer.symm, h.drawn hempty⟩

/-- The run: every line at which the input pauses is drawn. The induction is on the keystrokes. -/
theorem printed_types (hlaw : P.ConsumesAnnounced) (hutf8 : P.Utf8Laws) (hmode : mode ≠ .off)
    {keys : List DfaEntry} {root : DfaNode} (hkeys : HasKeys t keys root) {a : Stream' Byte}
    {typed : List Keystroke} (htyped : ∀ k ∈ typed, k.Typable P keys)
    (hkeyless : ∀ k ∈ typed, ∀ id, k.event ≠ .escape id)
    (hroom : HasRoom (unhandledKey t ignoreDefault) (fun z => z.toList.length < 2 ^ 32 ∧ May z.toList) typed z)
    (hhead : RoundHead (Printed P mode start Known May) z (typedBytes typed ++ₛ a) e) (buffer : InputBuf) :
    ∃ buffer' e',
      (∀ fuel, readLoop P t root nrlManipClearCustomTable ignoreDefault (typed.length + fuel) buffer e =
        readLoop P t root nrlManipClearCustomTable ignoreDefault fuel buffer' e') ∧
      RoundHead (Printed P mode start (fun old => Known old ∨ ∃ past mark, past <+: typed ∧
          e.screen.io.AtHand mark (typedBytes past).length ∧
          old = (typedLine (unhandledKey t ignoreDefault) past z).toList) May)
        (typedLine (unhandledKey t ignoreDefault) typed z) a e' ∧
      ∀ mark n, (typedBytes typed).length ≤ n → e.screen.io.AtHand mark n →
        e'.screen.io.AtHand mark (n - (typedBytes typed).length) := by
  induction typed generalizing z e buffer Known with
  | nil =>
    have hpause := hhead.pause
    refine ⟨buffer, e, fun fuel => ?_, ⟨hpause.inv.learn fun old hold => .inl ?_, hhead.shows, hhead.ready,
      hhead.drawn⟩, fun mark n _ hhand => hhand⟩
    · rw [List.length_nil, Nat.zero_add]
    · refine hold.imp_right ?_
      intro ⟨past, mark, hpast, hhand, hline⟩
      obtain rfl := List.prefix_nil.mp hpast
      exact ⟨hline, mark, hhand⟩
  | cons k typed ih =>
    rw [List.forall_mem_cons] at htyped hkeyless
    have hpause := hhead.pause
    rw [typedBytes_cons, Stream'.append_append_stream] at hpause
    have hosts := printed_hosts P t ignoreDefault hmode start
      (fun old => Known old ∨ old = z.toList ∧ ∃ mark, e.screen.io.AtHand mark 0) May
    obtain ⟨buffer₁, e₁, hloop₁, hhead₁, hhand₁⟩ := hosts.round hlaw hutf8 hkeys htyped.1
      (fun id hid => hkeyless.1 id hid) hroom.head hroom.tail.head hpause buffer
    obtain ⟨buffer₂, e₂, hloop₂, hhead₂, hhand₂⟩ := ih htyped.2 hkeyless.2 hroom.tail hhead₁ buffer₁
    refine ⟨buffer₂, e₂, fun fuel => ?_, ⟨hhead₂.inv.learn fun old hold => .inl ?_, hhead₂.shows,
      hhead₂.ready, hhead₂.drawn⟩, fun mark n hn hhand => ?_⟩
    · rw [List.length_cons, Nat.add_right_comm, hloop₁, hloop₂]
    · rcases hold with hold | ⟨past, mark, hpast, hhand, hline⟩
      · exact .inl (.inl hold)
      · cases past with
        | nil => exact .inl (.inr ⟨hline, mark, hhand⟩)
        | cons k' past =>
          obtain ⟨rfl, hpast'⟩ := List.cons_prefix_cons.mp hpast
          rw [typedBytes_cons, List.length_append] at hhand
          have hrest := hhand₁ mark _ (Nat.le_add_right _ _) hhand
          rw [Nat.add_sub_cancel_left] at hrest
          exact .inr ⟨past, mark, hpast', hrest, hline⟩
    · rw [typedBytes_cons, List.length_append] at hn ⊢
      rw [Nat.sub_add_eq]
      exact hhand₂ mark _ (by omega) (hhand₁ mark n (by omega) hhand)

end Loop

/-! ### The call -/

/-- A line typed with an echo at a terminal that is not smart, without cursor keys and handlers. -/
structure TypedCall.Prints (P : Platform) (t : Terminfo) (keys : List DfaEntry) (mode : EchoMode)
    (c : TypedCall) : Prop extends c.Arrives P t keys where
  dumb : nrlTermIsSmart t = false
  checked : checkArgs c.config = some mode
  visible : mode ≠ .off
  handlers : openedTable c.config mode nrlManipClearCustomTable = nrlManipClearCustomTable
  keyless : ∀ k ∈ c.typed, ∀ id, k.event ≠ .escape id
  room : (c.line t).toList.length < 2 ^ 32
  bytes : (onceEach P mode (c.line t).toList).length < 2 ^ 32

section Calls

variable {P : Platform} {env : Environment} {t : Terminfo} {keys : List DfaEntry} {mode : EchoMode}
  {c : TypedCall} {p : Process} {ignoreDefault : Bool}

/-- Without cursor keys a line never gets shorter. -/
theorem length_le_lineEvent {k : Keystroke} (h : ∀ id, k.event ≠ .escape id) (z : Zipper Uchar) :
    z.toList.length ≤ (lineEvent (unhandledKey t ignoreDefault) z k.event).toList.length := by
  have hinsert : ∀ text, z.toList.length ≤ (z.insert text).toList.length := by
    intro text
    rw [Zipper.toList_insert, List.length_append, List.length_append, List.length_drop]
    have hcursor := z.cursor_le_length
    rw [List.length_take_of_le hcursor]
    omega
  cases hevent : k.event with
  | text text => exact hinsert text
  | escape id => exact absurd hevent (h id)
  | custom id =>
    rw [lineEvent, unhandledKey]
    split
    · exact Nat.le_refl _
    · exact hinsert _
  | stop eof => exact Nat.le_refl _

theorem length_le_typedLine {typed : List Keystroke} (h : ∀ k ∈ typed, ∀ id, k.event ≠ .escape id)
    (z : Zipper Uchar) :
    z.toList.length ≤ (typedLine (unhandledKey t ignoreDefault) typed z).toList.length := by
  induction typed generalizing z with
  | nil => exact Nat.le_refl _
  | cons k typed ih =>
    rw [List.forall_mem_cons] at h
    exact (length_le_lineEvent h.1 z).trans (ih h.2 _)

/-- The lines behind the first keystrokes are not longer than the whole. -/
theorem TypedCall.Prints.hasRoom (h : c.Prints P t keys mode) :
    HasRoom (unhandledKey t c.config.customIgnoreDefault) (fun z => z.toList.length < 2 ^ 32 ∧
      ∃ past, past <+: c.typed ∧
        z.toList = (typedLine (unhandledKey t c.config.customIgnoreDefault) past .empty).toList)
      c.typed .empty := by
  intro past hpast
  refine ⟨Nat.lt_of_le_of_lt ?_ h.room, past, hpast, rfl⟩
  obtain ⟨later, hlater⟩ := hpast
  have hkeyless := h.keyless
  rw [← hlater] at hkeyless
  rw [TypedCall.line, ← hlater, typedLine, typedLine, List.foldl_append]
  exact length_le_typedLine (fun k hk => hkeyless k (List.mem_append_right _ hk)) _

/-- `init` for input with an echo: the loop starts at a terminal that has printed nothing of it. -/
theorem init_printed (hc : c.Prints P t keys mode) (hp : p.Idle env t keys) (May : List Uchar → Prop) :
    ∃ p₁ s, p.Opened env c.config mode t keys p₁ ∧
      init P env c.config mode p.started = .ok (true, { p₁ with screen := s }) ∧
      s.io = p₁.screen.io ∧
      Printed P mode (p.world.echoed ++ openingBytes c.config t) (fun _ => False) May
        { line := emptyLine, screen := s } := by
  obtain ⟨-, hecho⟩ := checkArgs_files hc.checked
  obtain ⟨p₁, hopened, hinit⟩ := init_idle (P := P) hecho mode hc.brief hp
  rw [nrlRenderInit_dumb hc.dumb] at hinit
  have hsteady := hopened.obliging.steady
  refine ⟨p₁, _, hopened, hinit, rfl, ⟨rfl, rfl, rfl, rfl, rfl, ⟨?_, ?_, ?_, hsteady.writes⟩,
    hopened.io.wrCount⟩, hsteady, [], ⟨?_, ?_, ?_, ?_, ?_⟩, ?_⟩
  · show p₁.screen.io.echoFile ≠ -1
    rw [hopened.io.echoFile]
    omega
  · exact hopened.echoEnabled.trans (decide_eq_true hc.visible)
  · show p₁.screen.io.wrCount ≤ ioBufSize
    rw [hopened.io.wrCount]
    exact Nat.zero_le _
  · exact List.pairwise_singleton _ _
  · intro old hold
    rw [List.mem_singleton.mp hold]
    exact List.nil_prefix
  · exact iff_of_false Bool.false_ne_true fun hnot => hnot (List.mem_singleton.mpr rfl)
  · exact fun old hold => hold.elim
  · exact fun old hold => absurd hold List.not_mem_nil
  · rw [List.flatMap_nil, List.append_nil]
    exact hopened.echoed

/-- **What a dumb terminal prints.** A call at it returns the line that is typed. Between its two
ends it sends ever longer lines, each from its beginning: they are lines behind some of the
keystrokes, and among them are all those at which the bytes that had come were used up. -/
theorem nanorl_printed (hlaw : P.ConsumesAnnounced) (hutf8 : P.Utf8Laws) (hc : c.Prints P t keys mode)
    (hp : p.Idle env t keys) {rest : List ReadResult} (hreads : p.world.reads = c.reads ++ rest) :
    ∃ p' drawn, c.perform P env p = .ok (c.result P t p.world.isTty, p') ∧ p'.Idle env t keys ∧
      p'.world.reads = rest ∧
      p'.world.echoed = p.world.echoed ++ openingBytes c.config t ++ drawn.flatMap (onceEach P mode) ++
        closingBytes t ∧
      ([] :: drawn).Pairwise Grows ∧
      (∀ line ∈ drawn, ∃ past, past <+: c.typed ∧
        line = (typedLine (unhandledKey t c.config.customIgnoreDefault) past .empty).toList) ∧
      ∀ past now next, past <+: c.typed → c.reads = now ++ next →
        c.config.preload.getD [] ++ deliveredAll now = typedBytes past →
        (typedLine (unhandledKey t c.config.customIgnoreDefault) past .empty).toList ∈ [] :: drawn := by
  obtain ⟨hread, -⟩ := checkArgs_files hc.checked
  obtain ⟨p₁, s, hopens, hinit, hio, hprinted⟩ := init_printed hc hp fun line => ∃ past, past <+: c.typed ∧
    line = (typedLine (unhandledKey t c.config.customIgnoreDefault) past .empty).toList
  have hopened : s.io.Opened c.config := hio ▸ hopens.io
  have hreads₁ : s.io.world.reads = c.reads ++ rest := by
    rw [hio]
    exact hopens.reads.trans hreads
  obtain ⟨hready, hhand⟩ := hc.opened hopened hread hreads₁
  have hkeys := hopens.hasKeys
  have hfirst : ∀ w ∈ sequences keys, w.head? ≠ some c.ending := forall_mem_sequences.mpr hc.unclaimed
  obtain ⟨buffer₁, e₁, hloop₁, hhead₁, hhand₁⟩ := printed_types hlaw hutf8 hc.visible hkeys
    hc.typable hc.keyless hc.hasRoom ⟨hprinted, ⟨rfl, rfl⟩, hready, fun _ => rfl⟩ freshBuffer
  obtain ⟨buffer, io, hstop, heof, hprinted', hready', hhand₂⟩ :=
    (printed_hosts P t c.config.customIgnoreDefault hc.visible _ _ _).stops hlaw hutf8 hkeys hc.ending hfirst hhead₁
      buffer₁ (c.fuel - (c.typed.length + 1))
  have hloop := (hloop₁ _).trans hstop
  have hfuel : c.typed.length + (c.fuel - (c.typed.length + 1) + 1) = c.fuel := by
    have := hc.fuel
    omega
  rw [hfuel, ← hc.handlers, ← hopens.table] at hloop
  have hone := hhand₁ _ _ (Nat.le_succ _) hhand
  rw [Nat.succ_sub (Nat.le_refl _), Nat.sub_self] at hone
  obtain ⟨hleft, herrno, -⟩ := (hhand₂ _ 1 Nat.one_pos hone).none (by simpa using hready'.used_le)
  -- what is returned
  have hline : e₁.line.buffer = (c.line t).toList := hhead₁.shows.buffer
  have hzero : (0 : Uchar) ∉ e₁.line.buffer := by
    rw [hline]
    intro hmem
    exact absurd (typedLine_graphic hc.typable (fun _ h => absurd h List.not_mem_nil) 0 hmem).1 (by decide)
  have hinterrupted : io.world.errno = .eintr ↔ interrupted c.reads = true := by
    rw [herrno, hio]
    exact errnoAfter_eintr hopens.obliging.errno c.reads
  obtain ⟨drawn, hdrawn, hechoed⟩ := hprinted'.drawn
  obtain ⟨p', hcall, hidle, -, -, hreads', hechoed'⟩ := hopens.ends hc.checked hc.brief hinit hloop hinterrupted
    hprinted'.steady hprinted'.dumb.echoing.echoFile hprinted'.dumb.wrCount hzero
  refine ⟨p', drawn, ?_, hidle, hreads'.trans hleft, ?_, hdrawn.grows, hdrawn.may, ?_⟩
  · rw [TypedCall.perform, hcall, heof, hline]
    rfl
  · rw [hechoed', hechoed]
  · intro past now next hpast hsplit hcut
    rw [hsplit, List.append_assoc] at hreads₁
    exact hdrawn.known _ (.inr ⟨past, _, hpast, (hopened.cut hread hcut hreads₁).2, rfl⟩)

end Calls

/-- An `a` and an `é` behind a prompt. The input pauses behind each of them, and within the second. -/
def dumbCall : TypedCall where
  fuel := 3
  config := { defaultConf with prompt := some (ascii "> ") }
  typed := [.char 'a', .char 'é']
  ending := 10
  reads := [.data [97], .data [0xc3], .data [0xa9], .data [10]]

theorem nanorl_printed_missing : ∃ p' drawn,
    dumbCall.perform referencePlatform (bareEnvironment (ascii "dumb")) (terminalProcess dumbCall.reads) =
      .ok ({ data := some (utf8 ['a', 'é']), error := .ok }, p') ∧
    p'.world.echoed = ascii "> " ++ drawn.flatMap (onceEach referencePlatform .on) ++ ascii "\n" ∧
    ([] :: drawn).Pairwise Grows ∧ [97] ∈ drawn ∧ [97, 233] ∈ drawn := by
  have hidle : (terminalProcess dumbCall.reads).Idle (bareEnvironment (ascii "dumb"))
      { Terminfo.unloaded with attemptedLoad := true } [] :=
    ⟨⟨fun _ hr => absurd hr List.not_mem_nil, fun _ hr => absurd hr List.not_mem_nil⟩, fun _ => rfl,
      .missing rfl rfl, rfl⟩
  have hprints : dumbCall.Prints referencePlatform { Terminfo.unloaded with attemptedLoad := true } [] .on := by
    refine ⟨⟨by decide +kernel, by decide +kernel, .inl rfl, fun _ h => absurd h List.not_mem_nil,
        by decide +kernel, by decide⟩, by decide, rfl, by decide, rfl, ?_, by decide +kernel, by decide +kernel⟩
    simp only [dumbCall, List.forall_mem_cons]
    exact ⟨nofun, nofun, fun _ h => absurd h List.not_mem_nil⟩
  obtain ⟨p', drawn, hcall, -, -, hechoed, hgrows, -, hpauses⟩ := nanorl_printed referencePlatform_consumes
    referencePlatform_utf8 hprints hidle (List.append_nil dumbCall.reads).symm
  have hfirst := hpauses [.char 'a'] [.data [97]] _ ⟨_, rfl⟩ rfl rfl
  have hwhole := hpauses dumbCall.typed [.data [97], .data [0xc3], .data [0xa9]] _ List.prefix_rfl rfl rfl
  refine ⟨p', drawn, hcall, hechoed, hgrows, ?_, ?_⟩
  · exact (List.mem_cons.mp hfirst).resolve_left (by decide)
  · exact (List.mem_cons.mp hwhole).resolve_left (by decide)

end Nanorl
