import Mathlib.Data.List.Infix
import Nanorl.Sound.Chunks
import Nanorl.Sound.Edit

/-!
# Nanorl.Sound.Text

Plain text through the read loop.

A printable character is one event whatever pieces its bytes arrive in, if no key matches
there and what is at hand does not break off within one: a well-formed character is
accepted whole, so that nothing a refill has clobbered is ever looked at again. Without an
echo the loop collects the characters up to the newline (`readLoop_line`).
-/

namespace Nanorl

open PrefixCode (Begins)

/-- The bytes of a text. -/
def utf8 (text : List Char) : List Byte := text.flatMap String.utf8EncodeChar

/-- Neither a control character nor DEL. -/
def Printable (c : Char) : Prop := 0x20 ≤ c.val ∧ c.val ≠ 0x7f

instance : DecidablePred Printable := fun c =>
  inferInstanceAs (Decidable (0x20 ≤ c.val ∧ c.val ≠ 0x7f))

/-- No sequence matches at a character of the text, or at the newline behind it. -/
def Unmatched (W : Set (List Byte)) (text : List Char) (a : Stream' Byte) : Prop :=
  ∀ later, later <:+ text → ∀ w ∈ W, ¬ Begins w (utf8 later ++ₛ Stream'.cons 10 a)

instance (t : Terminfo) (envTerm : List Byte) (text : List Char) (a : Stream' Byte) :
    Decidable (Unmatched (dfaSequences t envTerm) text a) :=
  decidable_of_iff (∀ later ∈ text.tails, ∀ w ∈ dfaSequences t envTerm,
    ¬ Begins w (utf8 later ++ₛ Stream'.cons 10 a)) (by simp only [List.mem_tails, Unmatched])

/-- No sequence starts as a character of the text does. -/
def Unclaimed (W : Set (List Byte)) (text : List Char) : Prop :=
  ∀ w ∈ W, ∀ c ∈ text, w.head? ≠ (String.utf8EncodeChar c).head?

instance (es : List DfaEntry) (text : List Char) : Decidable (Unclaimed (sequences es) text) :=
  decidable_of_iff (∀ w ∈ sequences es,
    text.all fun c => decide (w.head? ≠ (String.utf8EncodeChar c).head?)) (by simp [Unclaimed])

/-- Every sequence starts with a control character or with DEL. -/
def ControlTable (W : Set (List Byte)) : Prop :=
  ∀ w ∈ W, ∀ b, w.head? = some b → b < 0x20 ∨ b = 0x7f

instance (t : Terminfo) (envTerm : List Byte) : Decidable (ControlTable (dfaSequences t envTerm)) :=
  decidable_of_iff (∀ w ∈ dfaSequences t envTerm, w.head?.all fun b => decide (b < 0x20 ∨ b = 0x7f))
    (by simp [ControlTable, Option.all_eq_true])

section Text

variable {P : Platform} {W : Set (List Byte)} {root : DfaNode} {a : Stream' Byte}

theorem Printable.toNat {c : Char} (h : Printable c) : 0x20 ≤ c.val.toNat ∧ c.val.toNat ≠ 0x7f :=
  ⟨UInt32.le_iff_toNat_le.mp h.1, fun heq => h.2 (UInt32.toNat_inj.mp heq)⟩

theorem charEvent_printable {c : Char} (h : Printable c) : charEvent c.val = .text [c.val] := by
  have hstop : ¬ (c.val = 10 ∨ c.val = charEot.toUInt32) := by
    have hle := h.toNat.1
    intro h
    rcases h with heq | heq <;> rw [heq] at hle <;> exact absurd hle (by decide)
  rw [charEvent, if_neg hstop, caretForm, if_neg h.2, if_pos h.1]

/-- A printable text starts no key of a control table. -/
theorem ControlTable.unclaimed (hW : ControlTable W) {text : List Char}
    (htext : ∀ c ∈ text, Printable c) : Unclaimed W text := by
  intro w hw c hc hhead
  obtain ⟨lead, bytes, he, -⟩ := Utf8.size_encode c
  obtain ⟨hle, hdel⟩ := Utf8.ge_of_mem_encode (htext c hc).toNat.1 (htext c hc).toNat.2
    (he ▸ List.mem_cons_self)
  rw [he] at hhead
  rcases hW w hw lead hhead with hlt | rfl
  · exact absurd (UInt8.lt_iff_toNat_lt.mp hlt) (Nat.not_lt.mpr hle)
  · exact hdel rfl

theorem Unclaimed.head {c : Char} (h : Unclaimed W [c]) :
    ∀ w ∈ W, w.head? ≠ some (String.utf8EncodeChar c ++ₛ a).head := by
  intro w hw
  have hne := h w hw c (List.mem_singleton.mpr rfl)
  obtain ⟨lead, bytes, he, -⟩ := Utf8.size_encode c
  rw [he] at hne ⊢
  exact hne

theorem utf8_cons (c : Char) (text : List Char) (a : Stream' Byte) :
    utf8 (c :: text) ++ₛ a = String.utf8EncodeChar c ++ₛ (utf8 text ++ₛ a) := by
  rw [utf8, List.flatMap_cons, Stream'.append_append_stream]
  rfl

theorem Unmatched.tail {c : Char} {text : List Char} (h : Unmatched W (c :: text) a) : Unmatched W text a :=
  fun later hlater => h later (hlater.trans (List.suffix_cons c text))

theorem Unclaimed.tail {c : Char} {text : List Char} (h : Unclaimed W (c :: text)) : Unclaimed W text :=
  fun w hw c' hc' => h w hw c' (List.mem_cons_of_mem c hc')

/-- The next byte of an unclaimed text starts no key. -/
theorem Unclaimed.heads {text : List Char} (h : Unclaimed W text) (hnl : ∀ w ∈ W, w.head? ≠ some 10) :
    ∀ w ∈ W, w.head? ≠ some (utf8 text ++ₛ Stream'.cons 10 a).head := by
  cases text with
  | nil => exact hnl
  | cons c text =>
    rw [utf8_cons]
    exact Unclaimed.head fun w hw c' hc' => h w hw c' (List.mem_singleton.mp hc' ▸ List.mem_cons_self)

theorem Unclaimed.unmatched {text : List Char} (h : Unclaimed W text) (hnl : ∀ w ∈ W, w.head? ≠ some 10)
    (hnil : [] ∉ W) : Unmatched W text a := by
  intro later hlater
  have hlater' : Unclaimed W later := fun w hw c hc => h w hw c (hlater.subset hc)
  exact not_begins_of_head hnil (hlater'.heads hnl)

theorem nrlIoRead_printable (hlaw : P.ConsumesAnnounced) (hutf8 : P.Utf8Laws)
    (hT : TreeOf W root) {c : Char} (hc : Printable c) {s : Io}
    (h : Ready (String.utf8EncodeChar c ++ₛ a) s)
    (hnone : ∀ w ∈ W, ¬ Begins w (String.utf8EncodeChar c ++ₛ a)) (huncut : s.Uncut W) (buffer : InputBuf) :
    ∃ buffer' s', nrlIoRead P root buffer s = .ok (.text, buffer', s') ∧
      buffer'.text = [c.val] ∧ Ready a s' ∧ s.ReadsFrom s' := by
  have hlen : (String.utf8EncodeChar c).length = c.utf8Size := String.length_utf8EncodeChar c
  have hparse : P.utf8ParseUchar (ucharBuffer ((String.utf8EncodeChar c ++ₛ a).take
      (announced P (String.utf8EncodeChar c ++ₛ a)))) = (c.utf8Size, c.val) := by
    rw [hutf8.inspect c a, ← hlen, Stream'.take_append_of_le_length _ _ _ (Nat.le_refl _),
      List.take_length, hutf8.parse c, hlen]
  obtain ⟨type, buffer', s', hread, hevent, hready, hfrom⟩ := nrlIoRead_character P hlaw hT h
    hnone huncut hparse (Nat.pos_iff_ne_zero.mp c.utf8Size_pos) buffer
  rw [charEvent_printable hc] at hevent
  rw [← hlen, Stream'.drop_append_stream] at hready
  cases type with
  | text => exact ⟨buffer', s', hread, IoEvent.text.inj hevent, hready, hfrom⟩
  | escape => cases hevent
  | customEscape => cases hevent
  | stop => cases hevent

theorem nrlIoRead_newline (hlaw : P.ConsumesAnnounced) (hutf8 : P.Utf8Laws)
    (hT : TreeOf W root) {s : Io} (h : Ready (Stream'.cons 10 a) s)
    (hnone : ∀ w ∈ W, ¬ Begins w (Stream'.cons 10 a)) (huncut : s.Uncut W) (buffer : InputBuf) :
    ∃ buffer' s', nrlIoRead P root buffer s = .ok (.stop, buffer', s') ∧
      buffer'.eof = false ∧ Ready a s' ∧ s.ReadsFrom s' := by
  obtain ⟨hann, hparse⟩ := hutf8.ascii (Stream'.cons 10 a) (by show (10 : Byte) < 0x80; decide)
  obtain ⟨type, buffer', s', hread, hevent, hready, hfrom⟩ := nrlIoRead_character P hlaw hT h
    hnone huncut (by rw [hann]; exact hparse) Nat.one_ne_zero buffer
  cases type with
  | stop => exact ⟨buffer', s', hread, IoEvent.stop.inj hevent, hready, hfrom⟩
  | text => cases hevent
  | escape => cases hevent
  | customEscape => cases hevent

/-- Nothing that is at hand during an unclaimed text breaks off within a sequence. The induction
is on the text, and the run stops behind it. -/
theorem Unclaimed.uncut (hlaw : P.ConsumesAnnounced) (hutf8 : P.Utf8Laws) (hT : TreeOf W root)
    (hnl : ∀ w ∈ W, w.head? ≠ some 10) {text : List Char} (htext : ∀ c ∈ text, Printable c)
    (hW : Unclaimed W text) {st : InputBuf × Io} (h : Ready (utf8 text ++ₛ Stream'.cons 10 a) st.2)
    (n : Nat) : AlongReads P root (Io.Uncut W) n st := by
  induction text generalizing st n with
  | nil =>
    cases n with
    | zero => trivial
    | succ n =>
      have huncut := uncut_of_head h (hW.heads hnl)
      obtain ⟨buffer', s', hread, -⟩ := nrlIoRead_newline hlaw hutf8 hT h
        (not_begins_of_head hT.nil_not_mem (hW.heads hnl)) huncut st.1
      refine ⟨huncut, fun o st' hstep hgoes => ?_⟩
      rw [readEvent, hread] at hstep
      obtain ⟨rfl, -⟩ := Prod.mk.inj (Except.ok.inj hstep)
      cases hgoes
  | cons c text ih =>
    cases n with
    | zero => trivial
    | succ n =>
      have huncut := uncut_of_head h (hW.heads hnl)
      rw [utf8_cons] at h
      rw [List.forall_mem_cons] at htext
      have hnone := not_begins_of_head hT.nil_not_mem (hW.heads (a := a) hnl)
      rw [utf8_cons] at hnone
      obtain ⟨buffer', s', hread, -, hready, -⟩ :=
        nrlIoRead_printable hlaw hutf8 hT htext.1 h hnone huncut st.1
      refine ⟨huncut, fun o st' hstep _ => ?_⟩
      rw [readEvent, hread] at hstep
      obtain ⟨-, rfl⟩ := Prod.mk.inj (Except.ok.inj hstep)
      exact ih htext.2 hW.tail hready n

/-! ### The loop without an echo -/

/-- Nothing is echoed, and nothing waits to be. -/
structure Silent (s : Screen) : Prop where
  echoMode : s.render.echoMode = .off
  echoFile : s.io.echoFile ≠ -1
  wrCount : s.io.wrCount = 0

/-- The cursor is behind the text. -/
def LineData.AtEnd (line : LineData) : Prop := line.cursor = line.buffer.length

theorem nrlRenderRedraw_silent (t : Terminfo) {e : Editor} (h : Silent e.screen) :
    nrlRenderRedraw P t e = .ok
      { line := { e.line with dirty := false }
        screen := { e.screen with render := { e.screen.render with resizeFlag := false } } } := by
  have hrequery : requery P t e.screen = .ok e.screen := by
    rw [requery, if_neg (by simp [h.echoMode])]
  have hflush : ∀ s : Screen, s.io = e.screen.io → s.flush P = .ok s := by
    intro s hs
    obtain ⟨render, io⟩ := s
    subst hs
    rw [Screen.flush, nrlIoFlush, P.assert_of _ (decide_eq_true h.echoFile), Run.ok_bind,
      if_pos h.wrCount]
    rfl
  have htext : (e.line.buffer ++ [(0 : Uchar)]).eraseIdx ((e.line.buffer ++ [(0 : Uchar)]).length - 1) =
      e.line.buffer := by
    simp [List.eraseIdx_append_of_length_le]
  have hredraw : ∀ e : Editor, e.screen.render.echoMode = .off → redrawByMode P t e = .ok e := by
    intro e hmode
    rw [redrawByMode, hmode]
  rw [nrlRenderRedraw, hrequery, Run.ok_bind,
    hredraw { line := { e.line with buffer := e.line.buffer ++ [0] }, screen := e.screen } h.echoMode,
    Run.ok_bind]
  dsimp only
  rw [hflush { e.screen with render := { e.screen.render with resizeFlag := false } } rfl, Run.ok_bind,
    htext]
  rfl

/-- A text event appends. -/
theorem evalRound_text (t : Terminfo) (table : EscapeTable) (ignoreDefault : Bool)
    (buffer : InputBuf) {e : Editor} (h : Silent e.screen) (hend : e.line.AtEnd) :
    ∃ e', evalRound P t table ignoreDefault .text buffer e = .ok (buffer, e') ∧
      e'.line.buffer = e.line.buffer ++ buffer.text ∧ e'.line.AtEnd ∧ Silent e'.screen ∧
      e'.screen.io = e.screen.io := by
  have hinsert := nrlManipInsertText_eq P buffer.text (Nat.le_of_eq hend)
  rw [hend, List.take_length, List.drop_length, List.append_nil] at hinsert
  rw [evalRound, evalInput, hinsert]
  dsimp only [Run.ok_bind, Run.pure_eq_ok]
  split
  · have hredraw := nrlRenderRedraw_silent (P := P) t (e := { e with line := { e.line with
      buffer := e.line.buffer ++ buffer.text
      cursor := e.line.buffer.length + buffer.text.length
      dirty := true } }) h
    rw [hredraw]
    exact ⟨_, rfl, rfl, (List.length_append).symm, ⟨h.echoMode, h.echoFile, h.wrCount⟩, rfl⟩
  · exact ⟨_, rfl, rfl, (List.length_append).symm, h, rfl⟩

/-- What reading leaves alone of a process that echoes nothing. -/
theorem Silent.of_reads {s : Screen} (h : Silent s) {io : Io} (hfrom : s.io.ReadsFrom io) :
    Silent { s with io } :=
  ⟨h.echoMode, fun heq => h.echoFile (hfrom.echoFile.symm.trans heq), hfrom.wrCount.trans h.wrCount⟩

/-- **A line.** The loop collects the printable characters before the newline and
leaves the reader behind it. The induction is on the text: each round takes one
character off the stream. -/
theorem readLoop_line (hlaw : P.ConsumesAnnounced) (hutf8 : P.Utf8Laws)
    (hT : TreeOf W root) (t : Terminfo) (table : EscapeTable)
    (ignoreDefault : Bool) {text : List Char} (htext : ∀ c ∈ text, Printable c)
    (hW : Unmatched W text a) {fuel : Nat}
    (hfuel : text.length < fuel) (buffer : InputBuf) {e : Editor} (h : Silent e.screen)
    (hend : e.line.AtEnd) (hready : Ready (utf8 text ++ₛ Stream'.cons 10 a) e.screen.io)
    (huncut : ∀ n, AlongReads P root (Io.Uncut W) n (buffer, e.screen.io)) :
    ∃ buffer' e', readLoop P t root table ignoreDefault fuel buffer e = .ok (buffer', e') ∧
      buffer'.eof = false ∧ e'.line.buffer = e.line.buffer ++ text.map Char.val ∧
      Silent e'.screen ∧ Ready a e'.screen.io ∧ e.screen.io.ReadsFrom e'.screen.io := by
  induction text generalizing fuel buffer e with
  | nil =>
    obtain ⟨n, rfl⟩ : ∃ n, fuel = n + 1 := ⟨fuel - 1, by simp at hfuel; omega⟩
    obtain ⟨buffer', io, hread, heof, hready', hfrom⟩ :=
      nrlIoRead_newline hlaw hutf8 hT hready (hW [] List.nil_suffix) (huncut 1).1 buffer
    refine ⟨buffer', { e with screen := { e.screen with io } }, ?_, heof, ?_, h.of_reads hfrom,
      hready', hfrom⟩
    · rw [readLoop, hread]
      rfl
    · rw [List.map_nil, List.append_nil]
  | cons c text ih =>
    obtain ⟨n, rfl⟩ : ∃ n, fuel = n + 1 := ⟨fuel - 1, by simp at hfuel; omega⟩
    rw [List.forall_mem_cons] at htext
    have hnone := hW (c :: text) (List.suffix_refl _)
    rw [utf8_cons] at hready hnone
    obtain ⟨buffer₁, io, hread, htext₁, hready₁, hfrom₁⟩ :=
      nrlIoRead_printable hlaw hutf8 hT htext.1 hready hnone (huncut 1).1 buffer
    have huncut₁ : ∀ n, AlongReads P root (Io.Uncut W) n (buffer₁, io) := fun n =>
      (huncut (n + 1)).2 (.text buffer₁.text) _ (by rw [readEvent, hread]; rfl) rfl
    obtain ⟨e₂, hround, hbuffer₂, hend₂, hsilent₂, hio₂⟩ := evalRound_text t table ignoreDefault
      buffer₁ (e := { e with screen := { e.screen with io } }) (h.of_reads hfrom₁) hend
    obtain ⟨buffer₃, e₃, hloop, heof, hbuffer₃, hsilent₃, hready₃, hfrom₃⟩ :=
      ih htext.2 hW.tail (by simp at hfuel; omega : text.length < n) buffer₁ hsilent₂ hend₂
        (hio₂ ▸ hready₁) (hio₂ ▸ huncut₁)
    rw [hio₂] at hfrom₃
    refine ⟨buffer₃, e₃, ?_, heof, ?_, hsilent₃, hready₃, hfrom₁.trans hfrom₃⟩
    · rw [readLoop, hread]
      dsimp only [Run.ok_bind]
      rw [if_neg (by decide), hround]
      exact hloop
    · rw [hbuffer₃, hbuffer₂, htext₁, List.map_cons, List.append_assoc]
      rfl

end Text

end Nanorl
