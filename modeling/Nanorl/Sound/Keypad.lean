import Nanorl.Sound.Calls

/-!
# Nanorl.Sound.Keypad

The keypad mode of the terminal over the calls of an application.

`init` writes `keypad_xmit` unless `assume_smkx` is set, and `deinit` writes `keypad_local`
whatever is set. What a call writes reaches the terminal before the call gets to what
comes next (`init_switches`, `deinit_switches`). So a call finds the mode it needs and
leaves the one it has found if and only if the terminal's description has both sequences,
or has no `keypad_local` where `assume_smkx` is set (`keypad_balanced_iff`).
-/

namespace Nanorl

open Run (Ends)

/-! ### A mode that two sequences switch -/

/-- Between `before` and `after`, of all that a terminal receives, only the two sequences
`seq` switch its mode `mode`: one of them on, the other off. -/
structure Switched (mode : List Byte → Bool) (seq : Bool → Option (List Byte))
    (before after : List Byte) : Prop where
  sets : ∀ on, ∀ s ∈ seq on, ∀ out, mode (out ++ s) = on
  only : ∀ out b, before <+: out → out ++ [b] <+: after → mode (out ++ [b]) ≠ mode out →
    ∃ on, ∃ s ∈ seq on, s <:+ out ++ [b]

/-- The last byte of `s` has been received as the last one of `out`, behind `before`. -/
structure Ended (before after s out : List Byte) : Prop where
  begins : before <+: out
  new : out ≠ before
  within : out <+: after
  last : s <:+ out

section Switched

variable {mode : List Byte → Bool} {seq : Bool → Option (List Byte)} {before after : List Byte}

theorem Switched.of_suffix (h : Switched mode seq before after) {on : Bool} {s out : List Byte}
    (hs : s ∈ seq on) (hout : s <:+ out) : mode out = on := by
  obtain ⟨front, rfl⟩ := hout
  exact h.sets on s hs front

/-- The mode stays while the other sequence is not completed. -/
theorem Switched.keeps (h : Switched mode seq before after) (on : Bool) {lo hi : List Byte}
    (hlo : before <+: lo) (hhi : hi <+: after) (hmode : mode lo = on)
    (hnone : ∀ s ∈ seq (!on), ∀ out, ¬Ended lo hi s out) {out : List Byte} (hout : lo <+: out)
    (hend : out <+: hi) : mode out = on := by
  obtain ⟨rest, rfl⟩ := hout
  induction rest using List.reverseRecOn with
  | nil => rwa [List.append_nil]
  | append_singleton rest b ih =>
    rw [← List.append_assoc] at hend ⊢
    have hmode' : mode (lo ++ rest) = on := ih ((List.prefix_append _ _).trans hend)
    by_contra hne
    obtain ⟨on', s, hs, hsuffix⟩ := h.only (lo ++ rest) b (hlo.trans (List.prefix_append _ _))
      (hend.trans hhi) (fun heq => hne (heq.trans hmode'))
    have hon' : mode (lo ++ rest ++ [b]) = on' := h.of_suffix hs hsuffix
    obtain rfl : on' = !on := by
      rw [← hon']
      exact Bool.eq_not.mpr hne
    refine hnone s hs _ ⟨?_, ?_, hend, hsuffix⟩
    · rw [List.append_assoc]
      exact List.prefix_append _ _
    · simp

end Switched

/-! ### What the terminal receives -/

section Output

variable {P : Platform} {io io' : Io}

/-- `s` has been written behind `base`: it has been received, or it is in the buffer. -/
def Io.Wrote (base s : List Byte) (io : Io) : Prop :=
  (∃ front, base <+: front ∧ front ++ s <+: io.world.echoed) ∨ base <+: io.world.echoed ∧ s <:+: io.pending

variable {base s : List Byte}

/-- Wherever new data goes, what has been written stays written. -/
theorem bufferData_wrote {data : List Byte} (hwrote : io.Wrote base s)
    (h : bufferData data io = .ok (true, io')) : io'.Wrote base s := by
  obtain ⟨-, -, ⟨hechoed, hpending⟩ | ⟨hechoed, hpending⟩⟩ := bufferData_delivers h
  · rw [Io.Wrote, hechoed, hpending]
    refine hwrote.imp ?_ ?_
    · rintro ⟨front, hbase, hfront⟩
      exact ⟨front, hbase, hfront.trans (List.prefix_append _ _)⟩
    · exact And.imp_left fun hbase => hbase.trans (List.prefix_append _ _)
  · rw [Io.Wrote, hechoed, hpending]
    exact hwrote.imp_right (And.imp_right fun hs => hs.trans (List.prefix_append _ _).isInfix)

theorem bufferData_self {data : List Byte} (hbase : base <+: io.world.echoed)
    (h : bufferData data io = .ok (true, io')) : io'.Wrote base data := by
  obtain ⟨-, -, ⟨hechoed, -⟩ | ⟨hechoed, hpending⟩⟩ := bufferData_delivers h
  · exact .inl ⟨io.world.echoed, hbase, by rw [hechoed]⟩
  · refine .inr ⟨by rwa [hechoed], ?_⟩
    rw [hpending]
    exact (List.suffix_append _ _).isInfix

theorem nrlIoFlush_received (hwrote : io.Wrote base s) (h : nrlIoFlush P io = .ok (true, io')) :
    ∃ front, base <+: front ∧ front ++ s <+: io'.world.echoed := by
  rw [(nrlIoFlush_delivers h).1]
  rcases hwrote with ⟨front, hbase, hfront⟩ | ⟨hbase, left, right, hpending⟩
  · exact ⟨front, hbase, hfront.trans (List.prefix_append _ _)⟩
  · refine ⟨io.world.echoed ++ left, hbase.trans (List.prefix_append _ _), right, ?_⟩
    rw [← hpending]
    simp only [List.append_assoc]

/-- A write that succeeds has written its data, and what has been written stays. -/
theorem nrlIoWrite_wrote (base s : List Byte) {data : List Byte} (henabled : io.echoEnabled = true)
    (h : nrlIoWrite P data io = .ok (true, io')) : io'.echoEnabled = true ∧
      (base <+: io.world.echoed → io'.Wrote base data) ∧ (io.Wrote base s → io'.Wrote base s) := by
  obtain ⟨io₁, hflush, hbuffer⟩ := nrlIoWrite_cases henabled h
  have hsame : io₁.echoEnabled = true ∧ (base <+: io.world.echoed → base <+: io₁.world.echoed) ∧
      (io.Wrote base s → io₁.Wrote base s) := by
    rcases hflush with rfl | hflush
    · exact ⟨henabled, id, id⟩
    · obtain ⟨hechoed, hsame, -⟩ := nrlIoFlush_delivers hflush
      refine ⟨hsame.trans henabled, fun hbase => ?_, fun hwrote => .inl (nrlIoFlush_received hwrote hflush)⟩
      rw [hechoed]
      exact hbase.trans (List.prefix_append _ _)
  obtain ⟨henabled₁, hbase, hwrote⟩ := hsame
  exact ⟨(bufferData_delivers hbuffer).1.trans henabled₁, fun h => bufferData_self (hbase h) hbuffer,
    fun h => bufferData_wrote (hwrote h) hbuffer⟩

/-- An escape that succeeds is written, if the terminal has it. -/
theorem nrlIoWriteEscape_wrote (base : List Byte) {t : Terminfo} {escape : TerminfoOutput}
    (henabled : io.echoEnabled = true)
    (h : nrlIoWriteEscape P t escape io = .ok (true, io')) : io'.echoEnabled = true ∧
      (base <+: io.world.echoed → ∀ s ∈ nrlLookupOutput t escape.id, io'.Wrote base s) := by
  unfold nrlIoWriteEscape at h
  cases hlookup : nrlLookupOutput t escape.id with
  | none =>
    rw [hlookup] at h
    obtain ⟨-, rfl⟩ := Prod.mk.inj (Except.ok.inj h)
    exact ⟨henabled, fun _ => nofun⟩
  | some asText =>
    rw [hlookup] at h
    obtain ⟨henabled', hself, -⟩ := nrlIoWrite_wrote base [] henabled h
    refine ⟨henabled', fun hbase s hs => ?_⟩
    obtain rfl := Option.some.inj hs
    exact hself hbase

end Output

/-! ### The two ends of a call -/

theorem Process.Calls.echoed {p p' : Process} (h : p.Calls p') : p'.world.echoed = p.world.echoed := by
  obtain ⟨_, _, _, _, hscreen⟩ := h.screen
  rw [Process.world, Process.world, hscreen]
  rfl

/-- The sequence that switches keypad mode on or off. -/
def keypadSequence (t : Terminfo) (on : Bool) : Option (List Byte) :=
  nrlLookupOutput t (if on then TerminfoOutput.keypadXmit else TerminfoOutput.keypadLocal).id

section Ends

variable {P : Platform} {env : Environment} {config : Config} {mode : EchoMode} {p p' : Process}

/-- When the output of `init` has been flushed, the terminal has received `keypad_xmit`. -/
theorem initOutput_switches (h : initOutput P config mode p = .ok (true, p')) :
    p'.terminfo = p.terminfo ∧ (config.assumeSmkx = false → ∀ s ∈ keypadSequence p.terminfo true,
      ∃ front, p.world.echoed <+: front ∧ front ++ s <+: p'.world.echoed) := by
  unfold initOutput at h
  dsimp only at h
  obtain ⟨⟨written, io₁⟩, hkeypad, h⟩ := Run.bind_eq_ok.mp h
  cases written with
  | false => cases h
  | true =>
    obtain ⟨⟨written, io₂⟩, hprompt, h⟩ := Run.bind_eq_ok.mp h
    cases written with
    | false => cases h
    | true =>
      obtain ⟨⟨flushed, io₃⟩, hflush, h⟩ := Run.bind_eq_ok.mp h
      obtain ⟨rfl, rfl⟩ := Prod.mk.inj (Except.ok.inj h)
      refine ⟨by split <;> rfl, fun hassume s hs => ?_⟩
      unfold writeKeypad at hkeypad
      rw [if_neg (by simp [hassume])] at hkeypad
      obtain ⟨henabled₁, hwrote₁⟩ := nrlIoWriteEscape_wrote p.world.echoed rfl hkeypad
      have hwrote₂ : io₂.Wrote p.world.echoed s := by
        unfold writePrompt at hprompt
        split at hprompt
        · obtain ⟨-, rfl⟩ := Prod.mk.inj (Except.ok.inj hprompt)
          exact hwrote₁ List.prefix_rfl s hs
        · exact (nrlIoWrite_wrote _ _ henabled₁ hprompt).2.2 (hwrote₁ List.prefix_rfl s hs)
      have hstate : (nrlIoEchoState (mode ≠ .off) io₂).Wrote p.world.echoed s := hwrote₂
      exact nrlIoFlush_received hstate hflush

/-- When the output of `deinit` has been flushed, the terminal has received `keypad_local`. -/
theorem deinitOutput_switches {t : Terminfo} {io io' : Io}
    (h : deinitOutput P t mode io = .ok (true, io')) : ∀ s ∈ keypadSequence t false,
      ∃ front, io.world.echoed <+: front ∧ front ++ s <+: io'.world.echoed := by
  obtain ⟨io₀, io₁, io₂, hworld, henabled, hnewline, hkeypad, hflush⟩ := deinitOutput_done h
  have henabled₁ : io₁.echoEnabled = true := (nrlIoWrite_wrote [] [] henabled hnewline).1
  have hreaches : io₀.Reaches io₁ := (nrlIoWrite_reaches P [10] io₀).of_ok hnewline
  intro s hs
  rw [← hworld]
  exact nrlIoFlush_received ((nrlIoWriteEscape_wrote _ henabled₁ hkeypad).2 hreaches.echoed s hs) hflush

/-- A call that gets to its loop has switched keypad mode on, unless it is assumed to be. -/
theorem init_switches (h : init P env config mode p = .ok (true, p')) :
    (∃ loaded, nrlLoadTerminfo env p.terminfo = .ok (loaded, p'.terminfo)) ∧
      (config.assumeSmkx = false → ∀ s ∈ keypadSequence p'.terminfo true,
        ∃ front, p.world.echoed <+: front ∧ front ++ s <+: p'.world.echoed) := by
  obtain ⟨terminfo, root, p₂, p₃, hloads, hcalls, houtput, hrender, hp'⟩ := init_done h
  obtain ⟨loaded, hload⟩ := loadDfa_terminfo env hloads
  obtain ⟨hterminfo, hopening⟩ := initOutput_switches houtput
  have hreaches : p₃.screen.io.Reaches p'.screen.io :=
    ((Io.Reaches.frame P).queries.renderInit p₃.terminfo mode config.echoFile p₃.screen).of_ok hrender
  have hterminfo' : p'.terminfo = terminfo := by rw [hp', hterminfo, hcalls.terminfo]
  have hechoed : p₂.world.echoed = p.world.echoed := hcalls.echoed
  rw [hcalls.terminfo, hechoed] at hopening
  rw [hterminfo']
  refine ⟨⟨loaded, hload⟩, fun hassume s hs => ?_⟩
  obtain ⟨front, hfront, hreceived⟩ := hopening hassume s hs
  exact ⟨front, hfront, hreceived.trans hreaches.echoed⟩

/-- A call that succeeds has switched keypad mode off. -/
theorem deinit_switches (h : deinit P mode p = .ok (true, p')) :
    p.world.echoed <+: p'.world.echoed ∧ ∀ s ∈ keypadSequence p.terminfo false,
      ∃ front, p.world.echoed <+: front ∧ front ++ s <+: p'.world.echoed := by
  obtain ⟨p₂, io, hcalls, -, houtput, rfl⟩ := deinit_done h
  have hechoed : p₂.world.echoed = p.world.echoed := hcalls.echoed
  have hterminfo : p₂.terminfo = p.terminfo := hcalls.terminfo
  have hreaches : p₂.screen.io.Reaches io :=
    ((Io.Reaches.frame P).deinitOutput .of_world p₂.terminfo mode p₂.screen.io).of_ok houtput
  rw [← hechoed, ← hterminfo]
  exact ⟨hreaches.echoed, deinitOutput_switches houtput⟩

end Ends

/-! ### One call -/

/-- What a terminal described by `t` has received: `before` a call, at the beginning `lo` and
the end `hi` of its read loop, and `after` it. -/
structure Received (t : Terminfo) (assumeSmkx : Bool) (before lo hi after : List Byte) : Prop where
  init : before <+: lo
  loop : lo <+: hi
  deinit : hi <+: after
  on : assumeSmkx = false → ∀ s ∈ keypadSequence t true, ∃ front, before <+: front ∧ front ++ s <+: lo
  off : ∀ s ∈ keypadSequence t false, ∃ front, hi <+: front ∧ front ++ s <+: after

/-- A terminal on which the keypad sequences of `t` switch the mode `transmits`, and on which
nothing but the two ends of the call writes them. -/
structure KeypadOnly (transmits : List Byte → Bool) (t : Terminfo) (assumeSmkx : Bool)
    (before after : List Byte) : Prop extends Switched transmits (keypadSequence t) before after where
  once : ∀ on, ∀ s ∈ keypadSequence t on, ∀ out out', Ended before after s out →
    Ended before after s out' → out = out'
  assumed : assumeSmkx = true → ∀ s ∈ keypadSequence t true, ∀ out, ¬Ended before after s out

/-- The sequences are a pair, or the one that would do harm is not there. -/
def Pairs (t : Terminfo) (assumeSmkx : Bool) : Prop :=
  if assumeSmkx then keypadSequence t false = none
  else (keypadSequence t true).isSome ∧ (keypadSequence t false).isSome

section Call

variable {transmits : List Byte → Bool} {t : Terminfo} {assumeSmkx : Bool}
  {before lo hi after : List Byte}

theorem Ended.widen {lo hi s out : List Byte} (h : Ended lo hi s out) (hlo : before <+: lo)
    (hhi : hi <+: after) : Ended before after s out := by
  refine ⟨hlo.trans h.begins, fun heq => h.new ?_, h.within.trans hhi, h.last⟩
  subst heq
  exact hlo.eq_of_length_le h.begins.length_le

/-- The mode is on in the loop and comes back to what it was. -/
def Balanced (transmits : List Byte → Bool) (before lo hi after : List Byte) : Prop :=
  (∀ out, lo <+: out → out <+: hi → transmits out = true) ∧ transmits after = transmits before

/-- With `assume_smkx`, only the end of the call writes a sequence. -/
theorem Received.balanced_assumed (h : Received t true before lo hi after)
    (honly : KeypadOnly transmits t true before after) (hmode : transmits before = true) :
    Balanced transmits before lo hi after ↔ keypadSequence t false = none := by
  constructor
  · rintro ⟨-, hafter⟩
    by_contra hsome
    obtain ⟨s, hs⟩ := Option.ne_none_iff_exists'.mp hsome
    obtain ⟨front, hfront, hreceived⟩ := h.off s hs
    have hbefore : before <+: front ++ s :=
      (h.init.trans (h.loop.trans hfront)).trans (List.prefix_append _ _)
    have hoff : transmits after = false := honly.keeps false hbefore List.prefix_rfl
      (honly.sets false s hs front) (fun s' hs' out hended =>
        honly.assumed rfl s' hs' out (hended.widen hbefore List.prefix_rfl)) hreceived List.prefix_rfl
    rw [hoff, hmode] at hafter
    cases hafter
  · intro hnone
    have hall : ∀ out, before <+: out → out <+: after → transmits out = true := fun out hout hend =>
      honly.keeps true List.prefix_rfl List.prefix_rfl hmode (fun s hs => by simp [hnone] at hs)
        hout hend
    refine ⟨fun out hout hend => hall out (h.init.trans hout) (hend.trans h.deinit), ?_⟩
    rw [hmode]
    exact hall after (h.init.trans (h.loop.trans h.deinit)) List.prefix_rfl

/-- Without it, a call that finds no sequence for one of its ends is not balanced. -/
theorem Received.pair_of_balanced (h : Received t false before lo hi after)
    (honly : KeypadOnly transmits t false before after) (hmode : transmits before = false)
    (hbalanced : Balanced transmits before lo hi after) :
    (keypadSequence t true).isSome ∧ (keypadSequence t false).isSome := by
  obtain ⟨hloop, hafter⟩ := hbalanced
  have hxmit : (keypadSequence t true).isSome := by
    by_contra hnone
    have hoff : transmits lo = false := honly.keeps false List.prefix_rfl List.prefix_rfl hmode
      (fun s hs => by simp_all) h.init (h.loop.trans h.deinit)
    rw [hloop lo List.prefix_rfl h.loop] at hoff
    cases hoff
  refine ⟨hxmit, ?_⟩
  by_contra hnone
  obtain ⟨s, hs⟩ := Option.isSome_iff_exists.mp hxmit
  obtain ⟨front, hfront, hreceived⟩ := h.on rfl s hs
  have hon : transmits after = true := honly.keeps true
    (hfront.trans (List.prefix_append _ _)) List.prefix_rfl (honly.sets true s hs front)
    (fun s' hs' => by simp_all) (hreceived.trans (h.loop.trans h.deinit)) List.prefix_rfl
  rw [hon, hmode] at hafter
  cases hafter

/-- With both, one of them is completed before the loop and the other behind it. -/
theorem Received.completed (h : Received t false before lo hi after)
    (honly : KeypadOnly transmits t false before after) (hmode : transmits before = false)
    (hxmit : (keypadSequence t true).isSome) (hlocal : (keypadSequence t false).isSome) :
    ∃ s opened s' closed, s ∈ keypadSequence t true ∧ s' ∈ keypadSequence t false ∧
      Ended before after s opened ∧ Ended before after s' closed ∧ opened <+: lo ∧ hi <+: closed ∧
      closed ≠ hi := by
  obtain ⟨s, hs⟩ := Option.isSome_iff_exists.mp hxmit
  obtain ⟨s', hs'⟩ := Option.isSome_iff_exists.mp hlocal
  obtain ⟨front, hfront, hreceived⟩ := h.on rfl s hs
  obtain ⟨front', hfront', hreceived'⟩ := h.off s' hs'
  have hbefore : before <+: front ++ s := hfront.trans (List.prefix_append _ _)
  have hclosed : hi <+: front' ++ s' := hfront'.trans (List.prefix_append _ _)
  have hend : front ++ s <+: front' ++ s' := hreceived.trans (h.loop.trans hclosed)
  have hon : transmits (front ++ s) = true := honly.sets true s hs front
  have hnew : front ++ s ≠ before := by
    intro heq
    rw [heq, hmode] at hon
    cases hon
  have hnew' : front' ++ s' ≠ before := by
    intro heq
    rw [heq] at hend
    exact hnew (hend.eq_of_length_le hbefore.length_le)
  refine ⟨s, front ++ s, s', front' ++ s', hs, hs',
    ⟨hbefore, hnew, hreceived.trans (h.loop.trans h.deinit), List.suffix_append _ _⟩,
    ⟨hbefore.trans hend, hnew', hreceived', List.suffix_append _ _⟩, hreceived, hclosed, fun heq => ?_⟩
  -- an empty sequence would switch the mode off everywhere
  have hshort : (front' ++ s').length ≤ front'.length := heq ▸ hfront'.length_le
  obtain rfl : s' = [] := List.eq_nil_of_length_eq_zero (by rw [List.length_append] at hshort; omega)
  have hoff : transmits (front ++ s) = false := honly.of_suffix hs' List.nil_suffix
  rw [hoff] at hon
  cases hon

/-- Without it, the two ends of the call write one sequence each. -/
theorem Received.balanced_switching (h : Received t false before lo hi after)
    (honly : KeypadOnly transmits t false before after) (hmode : transmits before = false) :
    Balanced transmits before lo hi after ↔
      (keypadSequence t true).isSome ∧ (keypadSequence t false).isSome := by
  refine ⟨h.pair_of_balanced honly hmode, fun hpair => ?_⟩
  obtain ⟨s, opened, s', closed, hs, hs', hopens, hcloses, hlo, hhi, hne⟩ :=
    h.completed honly hmode hpair.1 hpair.2
  have hend : opened <+: closed := hlo.trans (h.loop.trans hhi)
  constructor
  · intro out hout hout'
    refine honly.keeps true hopens.begins h.deinit (honly.of_suffix hs hopens.last)
      (fun r hr out hended => ?_) (hlo.trans hout) hout'
    obtain rfl : s' = r := Option.some.inj (hs'.symm.trans hr)
    -- it would have to end in the loop and behind it
    have heq : out = closed :=
      honly.once false s' hs' out closed (hended.widen hopens.begins h.deinit) hcloses
    refine hne (hhi.eq_of_length_le ?_).symm
    rw [← heq]
    exact hended.within.length_le
  · rw [hmode]
    refine honly.keeps false (hopens.begins.trans hend) List.prefix_rfl (honly.of_suffix hs' hcloses.last)
      (fun r hr out hended => ?_) hcloses.within List.prefix_rfl
    obtain rfl : s = r := Option.some.inj (hs.symm.trans hr)
    -- it has ended before the loop
    have heq : out = opened :=
      honly.once true s hs out opened (hended.widen (hopens.begins.trans hend) List.prefix_rfl) hopens
    refine hended.new (heq.trans ?_)
    rw [heq] at hended
    exact hend.eq_of_length_le hended.begins.length_le

/-- A call is balanced if and only if its sequences are a pair. -/
theorem Received.balanced_iff (h : Received t assumeSmkx before lo hi after)
    (honly : KeypadOnly transmits t assumeSmkx before after) (hmode : transmits before = assumeSmkx) :
    Balanced transmits before lo hi after ↔ Pairs t assumeSmkx := by
  cases assumeSmkx with
  | true => exact h.balanced_assumed honly hmode
  | false => exact h.balanced_switching honly hmode

end Call

/-! ### An application -/

/-- What an application does. -/
inductive AppStep
  /-- It writes `bytes`, and keeps keypad mode on or off from there. -/
  | output (on : Bool) (bytes : List Byte)
  /-- It calls `nanorl`. -/
  | call (fuel : Nat) (env : Environment) (config : Config)

/-- An application between its steps, and whether it keeps keypad mode on. -/
structure Application where
  keeps : Bool
  process : Process

/-- What the terminal has received. -/
def Application.received (a : Application) : List Byte := a.process.world.echoed

def AppStep.perform (P : Platform) : AppStep → Application → Except Fault Application
  | .output on bytes, a => .ok
      { keeps := on
        process := a.process.setWorld { a.process.world with echoed := a.received ++ bytes } }
  | .call fuel env config, a =>
      (nanorl P fuel env config a.process).map fun r => { a with process := r.2 }

/-- The application leaves keypad mode as it says. A call succeeds, sets `assume_smkx` if and
only if the application keeps the mode on, and switches it only with its two sequences. -/
def AppStep.Declared (P : Platform) (transmits : List Byte → Bool) : AppStep → Application → Prop
  | .output on bytes, a => transmits (a.received ++ bytes) = on
  | .call fuel env config, a => config.assumeSmkx = a.keeps ∧ ∃ result p' loaded t,
      nanorl P fuel env config a.process = .ok (result, p') ∧ result.error ≠ .arg ∧
      result.error ≠ .system ∧ nrlLoadTerminfo env a.process.terminfo = .ok (loaded, t) ∧
      KeypadOnly transmits t config.assumeSmkx a.received p'.world.echoed

/-- A call has keypad mode on in its read loop and gives it back as it was. -/
def AppStep.Balanced (P : Platform) (transmits : List Byte → Bool) : AppStep → Application → Prop
  | .output _ _, _ => True
  | .call fuel env config, a => ∀ mode p₁ buffer e p',
      Session P fuel env config a.process mode p₁ buffer e →
      deinit P mode { p₁ with screen := e.screen } = .ok (true, p') →
      Nanorl.Balanced transmits a.received p₁.world.echoed e.screen.io.world.echoed p'.world.echoed

/-- A call uses a description whose sequences are a pair. -/
def AppStep.Pairs : AppStep → Application → Prop
  | .output _ _, _ => True
  | .call _ env config, a => ∀ loaded t,
      nrlLoadTerminfo env a.process.terminfo = .ok (loaded, t) → Nanorl.Pairs t config.assumeSmkx

section Application

variable {P : Platform} {transmits : List Byte → Bool}

/-- What the terminal receives in a call that succeeds. -/
theorem Session.received {fuel : Nat} {env : Environment} {config : Config} {p p₁ p' : Process}
    {mode : EchoMode} {buffer : InputBuf} {e : Editor} (h : Session P fuel env config p mode p₁ buffer e)
    (hdeinit : deinit P mode { p₁ with screen := e.screen } = .ok (true, p')) :
    (∃ loaded, nrlLoadTerminfo env p.terminfo = .ok (loaded, p₁.terminfo)) ∧
      Received p₁.terminfo config.assumeSmkx p.world.echoed p₁.world.echoed
        e.screen.io.world.echoed p'.world.echoed := by
  obtain ⟨hload, hon⟩ := init_switches h.init
  have hinit : p.started.world.Reaches p₁.world := (init_reaches P env config mode p.started).of_ok h.init
  have hloop : p₁.screen.io.Reaches e.screen.io := (Io.Reaches.frame P).readLoop h.loop
  obtain ⟨hend, hoff⟩ := deinit_switches hdeinit
  exact ⟨hload, hinit.echoed, hloop.echoed, hend, hon, hoff⟩

/-- Where the mode is as declared, a call is balanced if and only if its sequences are a pair. -/
theorem AppStep.balanced_iff {step : AppStep} {a : Application} (hmode : transmits a.received = a.keeps)
    (h : step.Declared P transmits a) : step.Balanced P transmits a ↔ step.Pairs a := by
  cases step with
  | output on bytes => exact Iff.rfl
  | call fuel env config =>
    obtain ⟨hassume, result, p', loaded, t, hcall, harg, hsystem, hload, honly⟩ := h
    rw [← hassume] at hmode
    rcases nanorl_cases hcall with ⟨-, -, herror⟩ | ⟨-, herror, -⟩ |
      ⟨-, mode, p₁, buffer, e, done, hsession, hdeinit, hresult⟩
    · exact absurd herror harg
    · exact absurd herror hsystem
    · cases done with
      | false => exact absurd (congrArg NanorlResult.error hresult) hsystem
      | true =>
        obtain ⟨⟨loaded', hload'⟩, hreceived⟩ := hsession.received hdeinit
        obtain ⟨rfl, rfl⟩ := Prod.mk.inj (Except.ok.inj (hload'.symm.trans hload))
        have hiff := hreceived.balanced_iff honly hmode
        constructor
        · intro hbalanced loaded t hload''
          obtain ⟨-, rfl⟩ := Prod.mk.inj (Except.ok.inj (hload.symm.trans hload''))
          exact hiff.mp (hbalanced mode p₁ buffer e p' hsession hdeinit)
        · intro hpairs mode₂ p₂ buffer₂ e₂ p₂' hsession₂ hdeinit₂
          obtain ⟨⟨loaded₂, hload₂⟩, hreceived₂⟩ := hsession₂.received hdeinit₂
          obtain ⟨-, hterminfo⟩ := Prod.mk.inj (Except.ok.inj (hload.symm.trans hload₂))
          -- a call has one outcome
          have hcall₂ := hsession₂.nanorl_eq
          rw [hdeinit₂, hcall] at hcall₂
          obtain ⟨-, rfl⟩ := Prod.mk.inj (Except.ok.inj hcall₂)
          rw [← hterminfo] at hreceived₂
          exact (hreceived₂.balanced_iff honly hmode).mpr (hpairs _ _ hload)

/-- A step that is balanced leaves the mode as declared. -/
theorem AppStep.declared_next {step : AppStep} {a a' : Application}
    (hmode : transmits a.received = a.keeps) (h : step.Declared P transmits a)
    (hbalanced : step.Balanced P transmits a) (hstep : step.perform P a = .ok a') :
    transmits a'.received = a'.keeps := by
  cases step with
  | output on bytes =>
    obtain rfl := Except.ok.inj hstep
    exact h
  | call fuel env config =>
    obtain ⟨r, hcall, rfl⟩ := Run.map_eq_ok.mp hstep
    obtain ⟨-, result, p', -, -, hcall', harg, hsystem, -⟩ := h
    obtain rfl := Except.ok.inj (hcall.symm.trans hcall')
    rcases nanorl_cases hcall with ⟨-, -, herror⟩ | ⟨-, herror, -⟩ |
      ⟨-, mode, p₁, buffer, e, done, hsession, hdeinit, hresult⟩
    · exact absurd herror harg
    · exact absurd herror hsystem
    · cases done with
      | false => exact absurd (congrArg NanorlResult.error hresult) hsystem
      | true => exact (hbalanced mode p₁ buffer e p' hsession hdeinit).2.trans hmode

/-- Over the steps of an application that declares how it keeps keypad mode, every call has
the mode on in its read loop and gives it back as it was if and only if every call uses a
description whose sequences are a pair: both are there, or `keypad_local` is missing where
`assume_smkx` is set. -/
theorem keypad_balanced_iff {steps : List AppStep} {a : Application}
    (hmode : transmits a.received = a.keeps)
    (h : Run.Guarded (AppStep.perform P) (AppStep.Declared P transmits) steps a) :
    Run.Guarded (AppStep.perform P) (AppStep.Balanced P transmits) steps a ↔
      Run.Guarded (AppStep.perform P) AppStep.Pairs steps a :=
  Run.guarded_iff (I := fun a => transmits a.received = a.keeps)
    (fun _ _ hmode h => AppStep.balanced_iff hmode h)
    (fun _ _ _ hmode h hbalanced hstep => AppStep.declared_next hmode h hbalanced hstep) hmode h

end Application

/-! ### A terminal -/

/-- The keypad mode of a terminal described by `t` that has received a text, given from its
end: the last sequence counts. -/
def keypadModeOf (t : Terminfo) : List Byte → Bool
  | [] => false
  | b :: older =>
    if ∃ s ∈ keypadSequence t true, s.reverse <+: b :: older then true
    else if ∃ s ∈ keypadSequence t false, s.reverse <+: b :: older then false
    else keypadModeOf t older

def Terminfo.keypadMode (t : Terminfo) (out : List Byte) : Bool := keypadModeOf t out.reverse

theorem xterm_switched (before after : List Byte) :
    Switched xtermTerminfo.keypadMode (keypadSequence xtermTerminfo) before after where
  sets := by
    intro on s hs out
    cases on with
    | false =>
      obtain rfl : ascii "\x1b[?1l\x1b>" = s := Option.some.inj hs
      rw [Terminfo.keypadMode, List.reverse_append]
      show keypadModeOf xtermTerminfo (62 :: _) = _
      rw [keypadModeOf, if_neg, if_pos]
      · exact ⟨_, rfl, List.prefix_append _ _⟩
      · rintro ⟨s, hs, hprefix⟩
        obtain rfl : ascii "\x1b[?1h\x1b=" = s := Option.some.inj hs
        exact absurd (List.cons_prefix_cons.mp hprefix).1 (by decide)
    | true =>
      obtain rfl : ascii "\x1b[?1h\x1b=" = s := Option.some.inj hs
      rw [Terminfo.keypadMode, List.reverse_append]
      show keypadModeOf xtermTerminfo (61 :: _) = _
      rw [keypadModeOf, if_pos]
      exact ⟨_, rfl, List.prefix_append _ _⟩
  only := by
    intro out b _ _ hne
    by_contra hnone
    have hnot : ∀ on, ¬∃ s ∈ keypadSequence xtermTerminfo on, s.reverse <+: b :: out.reverse := by
      rintro on ⟨s, hs, hprefix⟩
      refine hnone ⟨on, s, hs, List.reverse_prefix.mp ?_⟩
      rwa [List.reverse_append]
    refine hne ?_
    rw [Terminfo.keypadMode, List.reverse_append]
    show keypadModeOf xtermTerminfo (b :: out.reverse) = _
    rw [keypadModeOf, if_neg (hnot true), if_neg (hnot false)]
    rfl

theorem Ended.take {before after s out : List Byte} (h : Ended before after s out) :
    out.length ≤ after.length ∧ before.length < out.length ∧ s <:+ after.take out.length := by
  have hout : out = after.take out.length := List.prefix_iff_eq_take.mp h.within
  refine ⟨h.within.length_le, ?_, hout ▸ h.last⟩
  exact lt_of_le_of_ne h.begins.length_le fun heq => h.new (h.begins.eq_of_length heq).symm

/-- An application on xterm that keeps keypad mode on or off, before a call. -/
def keepingXterm (on : Bool) : Application where
  keeps := on
  process := (ttyProcess [] [.data [97, 10]]).setWorld
    { (ttyProcess [] [.data [97, 10]]).world with echoed := if on then ascii "\x1b[?1h\x1b=" else [] }

/-- A silent call on xterm. -/
def xtermCall (assumeSmkx : Bool) : AppStep :=
  .call 3 (bareEnvironment (some (ascii "xterm"))) { silentConf with assumeSmkx }

theorem xtermCall_declared (on : Bool) :
    (xtermCall on).Declared referencePlatform xtermTerminfo.keypadMode (keepingXterm on) := by
  have hrun : (nanorl referencePlatform 3 (bareEnvironment (some (ascii "xterm")))
      { silentConf with assumeSmkx := on } (keepingXterm on).process).map
        (fun r => (r.1.error, r.2.world.echoed)) = .ok (.ok, ascii "\x1b[?1h\x1b=\n\x1b[?1l\x1b>") := by
    cases on <;> decide +kernel
  obtain ⟨r, hcall, hr⟩ := Run.map_eq_ok.mp hrun
  have herror : r.1.error = .ok := congrArg Prod.fst hr
  have hechoed : r.2.world.echoed = ascii "\x1b[?1h\x1b=\n\x1b[?1l\x1b>" := congrArg Prod.snd hr
  refine ⟨rfl, r.1, r.2, true, xtermTerminfo, hcall, by simp [herror], by simp [herror], rfl,
    xterm_switched _ _, ?_, ?_⟩
  · intro on' s hs out out' hended hended'
    have hends : ∀ out, Ended (keepingXterm on).received r.2.world.echoed s out →
        out.length = if on' then 7 else 15 := by
      intro out hended
      obtain ⟨hlength, -, hsuffix⟩ := hended.take
      rw [hechoed] at hlength hsuffix
      have hall : ∀ on', ∀ s ∈ keypadSequence xtermTerminfo on', ∀ n ≤ 15,
          s <:+ (ascii "\x1b[?1h\x1b=\n\x1b[?1l\x1b>").take n → n = if on' then 7 else 15 := by
        decide
      exact hall on' s hs _ hlength hsuffix
    rw [List.prefix_iff_eq_take.mp hended.within, List.prefix_iff_eq_take.mp hended'.within, hends out hended,
      hends out' hended']
  · rintro rfl s hs out hended
    obtain ⟨hlength, hnew, hsuffix⟩ := hended.take
    rw [hechoed] at hlength hsuffix
    have hall : ∀ s ∈ keypadSequence xtermTerminfo true, ∀ n ≤ 15, 7 < n →
        ¬s <:+ (ascii "\x1b[?1h\x1b=\n\x1b[?1l\x1b>").take n := by
      decide
    exact hall s hs _ hlength hnew hsuffix

/-- On xterm a call without `assume_smkx` is balanced. -/
theorem keypad_balanced_iff_xterm :
    Run.Guarded (AppStep.perform referencePlatform)
      (AppStep.Balanced referencePlatform xtermTerminfo.keypadMode) [xtermCall false]
      (keepingXterm false) := by
  have hdeclared : Run.Guarded (AppStep.perform referencePlatform)
      (AppStep.Declared referencePlatform xtermTerminfo.keypadMode) [xtermCall false] (keepingXterm false) :=
    ⟨xtermCall_declared false, fun _ _ => trivial⟩
  refine (keypad_balanced_iff (by decide) hdeclared).mpr ⟨fun loaded t hload => ?_, fun _ _ => trivial⟩
  obtain ⟨-, rfl⟩ := Prod.mk.inj (Except.ok.inj hload)
  exact ⟨rfl, rfl⟩

/-- The application switches keypad mode on and says so with `assume_smkx`, and the call
switches it off. -/
theorem keypad_unbalanced :
    xtermTerminfo.keypadMode (keepingXterm false).received = (keepingXterm false).keeps ∧
      Run.Guarded (AppStep.perform referencePlatform)
        (AppStep.Declared referencePlatform xtermTerminfo.keypadMode)
        [.output true (ascii "\x1b[?1h\x1b="), xtermCall true] (keepingXterm false) ∧
      ¬Run.Guarded (AppStep.perform referencePlatform)
        (AppStep.Balanced referencePlatform xtermTerminfo.keypadMode)
        [.output true (ascii "\x1b[?1h\x1b="), xtermCall true] (keepingXterm false) := by
  have hstep : AppStep.perform referencePlatform (.output true (ascii "\x1b[?1h\x1b=")) (keepingXterm false) =
      .ok (keepingXterm true) := rfl
  have hmode : xtermTerminfo.keypadMode ((keepingXterm false).received ++ ascii "\x1b[?1h\x1b=") = true := by
    decide
  refine ⟨by decide, ⟨hmode, fun a ha => ?_⟩, fun h => ?_⟩
  · obtain rfl := Except.ok.inj (hstep.symm.trans ha)
    exact ⟨xtermCall_declared true, fun _ _ => trivial⟩
  · have hbalanced := (h.2 _ hstep).1
    have hnone : keypadSequence xtermTerminfo false = none :=
      (AppStep.balanced_iff (by decide) (xtermCall_declared true)).mp hbalanced true xtermTerminfo rfl
    cases hnone

end Nanorl
