import Nanorl.Sound.Session

/-!
# Nanorl.Sound.Lines

Text that comes back from `nanorl` without an echo.

One line comes back as it was typed, whatever pieces the preload and the reads cut
it into (`nanorl_typedText`). Line after line comes back as long as no read brings
bytes behind its newline, since `nrl_io_init` forgets what has been read ahead, and none
breaks off within a key (`nanorl_lines`, `nanorl_readAhead`).
-/

namespace Nanorl

open PrefixCode (Begins)

/-- A line without a control character, whose characters `line_data` counts in 32 bits. -/
structure PlainLine (line : List Char) : Prop where
  printable : ∀ c ∈ line, Printable c
  length : line.length < 2 ^ 32

instance (line : List Char) : Decidable (PlainLine line) :=
  decidable_of_iff ((line.all fun c => decide (Printable c)) = true ∧ line.length < 2 ^ 32)
    ⟨fun h => ⟨by simpa using h.1, h.2⟩, fun h => ⟨by simpa using h.printable, h.length⟩⟩

/-- These bytes come as a preload, whose length `read_wrapper` keeps in 32 bits, and reads. -/
structure CutInto (preload : Option (List Byte)) (chunks : List (List Byte)) (bytes : List Byte) : Prop where
  cut : preload.getD [] ++ chunks.flatten = bytes
  chunks : [] ∉ chunks
  preload : (preload.getD []).length < 2 ^ 32

section Lines

variable {P : Platform} {env : Environment} {W : Set (List Byte)} {config : Config}

/-! ### One line -/

/-- **Typed text comes back.** A printable text and a newline, cut anywhere into a
preload and reads, is returned as it is, if all keys start with a control character
and none with a newline. -/
theorem nanorl_typedText (hlaw : P.ConsumesAnnounced) (hutf8 : P.Utf8Laws)
    (hW : ControlTable W) (hnl : ∀ w ∈ W, w.head? ≠ some 10) (hconfig : config.Silent)
    {p : Process} (hp : p.Serviceable env W) {text : List Char} (htext : PlainLine text)
    {chunks : List (List Byte)} (hcut : CutInto config.preload chunks (utf8 text ++ [10]))
    (hreads : p.world.reads = chunks.map .data) {fuel : Nat} (hfuel : text.length < fuel) :
    ∃ p', nanorl P fuel env config p = .ok ({ data := some (utf8 text), error := .ok }, p') := by
  have hstream : Source.stream { preload := config.preload, reads := p.world.reads } =
      utf8 text ++ₛ Stream'.cons 10 (Stream'.const charEot) := by
    rw [Source.stream, hreads, readsStream_chunks hcut.chunks, ← Stream'.append_append_stream, hcut.cut,
      Stream'.append_append_stream]
    rfl
  have hunclaimed := hW.unclaimed htext.printable
  obtain ⟨p', hcall, -⟩ := nanorl_line P hlaw hutf8 hconfig hp htext.printable
    (hunclaimed.unmatched hnl hp.loads.nil_not_mem) hstream
    (fun p₁ _ hready hT => hunclaimed.uncut hlaw hutf8 hT hnl htext.printable hready) hfuel
  exact ⟨p', hcall⟩

end Lines

/-- The static data of the library before the first call, with the results of the
reads to come. -/
def staticProcess (reads : List ReadResult) : Process where
  terminfo := .unloaded
  root := dfaRoot
  screen :=
    { render := staticRender
      io := { staticIo with world := { idleWorld with reads } } }
  escapeTable := nrlManipClearCustomTable
  oldAttrs := idleWorld.attrs
  oldActions := idleWorld.actions

/-- An environment without databases. -/
def bareEnvironment (term : Option (List Byte)) : Environment where
  term := term
  terminfo := none
  home := none
  terminfoDirs := none
  fopen := fun _ => none

/-- The default configuration with the echo switched off. -/
def silentConf : Config := { defaultConf with echoMode := 0 }

theorem noFailure_data (chunks : List (List Byte)) : NoFailure (chunks.map .data) := by
  intro e h
  obtain ⟨_, -, hc⟩ := List.mem_map.mp h
  exact nomatch hc

theorem staticProcess_serviceable {env : Environment} {W : Set (List Byte)}
    (chunks : List (List Byte)) (h : (staticProcess (chunks.map .data)).Loads env W) :
    (staticProcess (chunks.map .data)).Serviceable env W :=
  ⟨fun _ hr => absurd hr List.not_mem_nil, fun _ hr => absurd hr List.not_mem_nil,
    noFailure_data chunks, fun _ => rfl, h⟩

/-- `aé` with its last character cut by the end of the preload, on xterm. -/
theorem nanorl_typedText_xterm :
    ∃ p', nanorl referencePlatform 3 (bareEnvironment (ascii "xterm"))
        { silentConf with preload := some [97, 0xc3] } (staticProcess [.data [0xa9], .data [10]]) =
      .ok ({ data := some (utf8 ['a', 'é']), error := .ok }, p') :=
  nanorl_typedText (W := dfaSequences xtermTerminfo (ascii "xterm"))
    referencePlatform_consumes referencePlatform_utf8 (by decide +kernel) (by decide +kernel)
    ⟨by decide, by decide, rfl⟩
    (staticProcess_serviceable [[0xa9], [10]] (.found rfl rfl xtermTerminfo_loadable
      xtermTerminfo_unambiguous.prefixFree (.inl rfl)))
    (by decide) ⟨by decide +kernel, by decide, by decide⟩ rfl (by decide)

/-- A terminal whose cursor keys are control characters: its down key sends a line
feed. -/
def lineFeedTerminfo : Terminfo :=
  { Terminfo.unloaded with
    attemptedLoad := true
    loadResult := true
    customs := (Terminfo.unloaded.customs).set 4 (some [10]) }

/-- There the newline behind a text is the down key, and the end of the input
comes before the end of the line. Where a key begins another there is no tree to
read with. -/
theorem nanorl_lineFeedKey :
    (ControlTable (dfaSequences lineFeedTerminfo (ascii "adm3a")) ∧
      (nanorl referencePlatform 3 (bareEnvironment (ascii "adm3a")) silentConf
          { staticProcess [.data [10]] with terminfo := lineFeedTerminfo }).map Prod.fst =
        .ok { data := none, error := .eof }) ∧
    ControlTable (dfaSequences escapeLeftTerminfo (ascii "vt100")) ∧
      (nanorl referencePlatform 3 (bareEnvironment (ascii "vt100")) silentConf
          { staticProcess [.data [10]] with terminfo :=
            { escapeLeftTerminfo with attemptedLoad := true, loadResult := true } }).map Prod.fst =
        .error .childrenOfAcceptor := by
  refine ⟨⟨?_, ?_⟩, ?_, ?_⟩ <;> decide +kernel

/-! ### Line after line -/

section Lines

variable (P : Platform) (fuel : Nat) (env : Environment) (config : Config)

/-- The results of `n` calls of `nanorl`, one after the other. -/
def nanorlCalls (n : Nat) (p : Process) : Except Fault (List NanorlResult) :=
  Run.collect (nanorl P fuel env config) (fun _ => false) n p

/-- Nothing that has been read is left over, and whenever the coming call reads, what is at hand
does not break off within a sequence. -/
structure Process.Undisturbed (W : Set (List Byte)) (p : Process) : Prop where
  used : p.screen.io.rdUsed = p.screen.io.rdCount
  uncut : ∀ p₁, init P env config .off p.started = .ok (true, p₁) →
    ∀ n, AlongReads P p₁.root (Io.Uncut W) n (freshBuffer, p₁.screen.io)

/-- None of these calls is disturbed. -/
def CallsUndisturbed (W : Set (List Byte)) (n : Nat) (p : Process) : Prop :=
  Run.Along (nanorl P fuel env config) (fun _ => false) (Process.Undisturbed P env config W) n p

variable {P fuel env config} {W : Set (List Byte)} {t : Terminfo} {envTerm : List Byte} {p : Process}

/-- The bytes of these lines. -/
def linesBytes (lines : List (List Char)) : List Byte := lines.flatMap fun line => utf8 line ++ [10]

theorem linesBytes_cons (line : List Char) (lines : List (List Char)) (a : Stream' Byte) :
    linesBytes (line :: lines) ++ₛ a = utf8 line ++ₛ Stream'.cons 10 (linesBytes lines ++ₛ a) := by
  rw [linesBytes, List.flatMap_cons, List.append_assoc, Stream'.append_append_stream]
  rfl

/-- No sequence matches at a character of the lines, or at one of their newlines. -/
def UnmatchedLines (W : Set (List Byte)) (a : Stream' Byte) : List (List Char) → Prop
  | [] => True
  | line :: lines => Unmatched W line (linesBytes lines ++ₛ a) ∧ UnmatchedLines W a lines

instance UnmatchedLines.decidable (t : Terminfo) (envTerm : List Byte) (a : Stream' Byte) :
    ∀ lines, Decidable (UnmatchedLines (dfaSequences t envTerm) a lines)
  | [] => isTrue trivial
  | line :: lines =>
    have := UnmatchedLines.decidable t envTerm a lines
    inferInstanceAs (Decidable (Unmatched _ line _ ∧ UnmatchedLines _ a lines))

/-- **No input is lost between calls**, as long as no read brings bytes behind the
newline of its line or breaks off within a key. The induction is on the lines: a call takes
the first one off the stream and leaves the rest of it to the reads. -/
theorem nanorlCalls_eq (hlaw : P.ConsumesAnnounced) (hutf8 : P.Utf8Laws)
    (hconfig : config.Silent) (hpreload : config.preload = none) {lines : List (List Char)}
    (htext : ∀ line ∈ lines, PlainLine line) {rest : Stream' Byte} (hW : UnmatchedLines W rest lines)
    (hfuel : ∀ line ∈ lines, line.length < fuel) {p : Process} (hp : p.Serviceable env W)
    (hstream : p.screen.io.rdUsed = p.screen.io.rdCount → readsStream p.world.reads = linesBytes lines ++ₛ rest)
    (halong : CallsUndisturbed P fuel env config W lines.length p) :
    nanorlCalls P fuel env config lines.length p =
      .ok (lines.map fun line => { data := some (utf8 line), error := .ok }) := by
  induction lines generalizing p with
  | nil => rfl
  | cons line lines ih =>
    rw [List.forall_mem_cons] at htext hfuel
    obtain ⟨hundisturbed, hnext⟩ := halong
    have hsource : Source.stream { preload := config.preload, reads := p.world.reads } =
        utf8 line ++ₛ Stream'.cons 10 (linesBytes lines ++ₛ rest) := by
      rw [Source.stream, hpreload, hstream hundisturbed.used, linesBytes_cons]
      rfl
    obtain ⟨p', hcall, hp', hrest⟩ := nanorl_line P hlaw hutf8 hconfig hp htext.1.printable hW.1 hsource
      (fun p₁ hinit _ _ => hundisturbed.uncut p₁ hinit) hfuel.1
    have hcalls := ih htext.2 hW.2 hfuel.2 hp' (hrest hpreload) (hnext _ _ hcall rfl)
    rw [List.length_cons, nanorlCalls, Run.collect_succ hcall, if_neg (by decide),
      show Run.collect _ _ _ p' = _ from hcalls]
    rfl

/-- The lines of an input that is all there, cut anywhere into reads, come back from
as many calls. -/
theorem nanorl_lines (hlaw : P.ConsumesAnnounced) (hutf8 : P.Utf8Laws)
    (hconfig : config.Silent) (hpreload : config.preload = none) (lines : List (List Char))
    (htext : ∀ line ∈ lines, PlainLine line) (hW : UnmatchedLines W (Stream'.const charEot) lines)
    (hfuel : ∀ line ∈ lines, line.length < fuel) {p : Process} (hp : p.Serviceable env W)
    (chunks : List (List Byte)) (hchunks : [] ∉ chunks) (hcut : chunks.flatten = linesBytes lines)
    (hreads : p.world.reads = chunks.map .data)
    (halong : CallsUndisturbed P fuel env config W lines.length p) :
    nanorlCalls P fuel env config lines.length p =
      .ok (lines.map fun line => { data := some (utf8 line), error := .ok }) := by
  have hstream : readsStream p.world.reads = linesBytes lines ++ₛ Stream'.const charEot := by
    rw [hreads, readsStream_chunks hchunks, hcut]
  exact nanorlCalls_eq hlaw hutf8 hconfig hpreload htext hW hfuel hp (fun _ => hstream) halong

/-- The coming call stops within `n` reads, and none of these is disturbed. -/
def Process.StopsUndisturbed (P : Platform) (env : Environment) (config : Config) (t : Terminfo)
    (envTerm : List Byte) (n : Nat) (p : Process) : Prop :=
  p.screen.io.rdUsed = p.screen.io.rdCount ∧
    (init P env config .off p.started).map (fun r =>
      decide (AlongReads P r.2.root (Io.Uncut (dfaSequences t envTerm)) n (freshBuffer, r.2.screen.io) ∧
        (readEvents P r.2.root n (freshBuffer, r.2.screen.io)).map (fun events => events.any IoEvent.isStop) =
          .ok true)) = .ok true

instance (n : Nat) : Decidable (p.StopsUndisturbed P env config t envTerm n) :=
  inferInstanceAs (Decidable (_ = _ ∧ _ = _))

theorem Process.StopsUndisturbed.undisturbed {n : Nat} (h : p.StopsUndisturbed P env config t envTerm n) :
    p.Undisturbed P env config (dfaSequences t envTerm) := by
  obtain ⟨hused, h⟩ := h
  refine ⟨hused, fun p₁ hinit => ?_⟩
  rw [hinit] at h
  obtain ⟨huncut, hstops⟩ := of_decide_eq_true (Except.ok.inj h)
  obtain ⟨events, hevents, hstop⟩ := Run.map_eq_ok.mp hstops
  exact huncut.of_stopped hevents (List.any_eq_true.mp hstop)

end Lines

/-- A terminal with a key that sends `ab`. -/
def letterTerminfo : Terminfo :=
  { Terminfo.unloaded with
    attemptedLoad := true
    loadResult := true
    customs := (Terminfo.unloaded.customs).set 4 (some [97, 98]) }

def letterProcess : Process :=
  { staticProcess [.data [97, 99, 10], .data [98, 10]] with terminfo := letterTerminfo }

theorem letterProcess_serviceable :
    letterProcess.Serviceable (bareEnvironment (ascii "adm3a")) (dfaSequences letterTerminfo (ascii "adm3a")) := by
  have hloadable : letterTerminfo.Loadable := by decide
  have hbuilt : (nrlDfaBuild letterTerminfo (ascii "adm3a") dfaRoot).isOk = true := by decide +kernel
  exact ⟨fun _ hr => absurd hr List.not_mem_nil, fun _ hr => absurd hr List.not_mem_nil,
    noFailure_data [[97, 99, 10], [98, 10]], nofun,
    .found rfl rfl hloadable ((nrlDfaBuild_ok_iff hloadable _).mp (Run.isOk_iff.mp hbuilt)) (.inl rfl)⟩

/-- Two lines in two reads there. Each holds a letter of the key. -/
theorem nanorl_lines_twoReads :
    nanorlCalls referencePlatform 3 (bareEnvironment (ascii "adm3a")) silentConf 2 letterProcess =
      .ok [{ data := some (utf8 ['a', 'c']), error := .ok }, { data := some (utf8 ['b']), error := .ok }] := by
  have hfirst : letterProcess.StopsUndisturbed referencePlatform (bareEnvironment (ascii "adm3a")) silentConf
      letterTerminfo (ascii "adm3a") 3 := by
    decide +kernel
  have hsecond : (nanorl referencePlatform 3 (bareEnvironment (ascii "adm3a")) silentConf letterProcess).map
      (fun r => decide (r.2.StopsUndisturbed referencePlatform (bareEnvironment (ascii "adm3a")) silentConf
        letterTerminfo (ascii "adm3a") 3)) = .ok true := by
    decide +kernel
  refine nanorl_lines referencePlatform_consumes referencePlatform_utf8 ⟨by decide, by decide, rfl⟩ rfl
    [['a', 'c'], ['b']] (by decide) (by decide +kernel) (by decide) letterProcess_serviceable
    [[97, 99, 10], [98, 10]] (by decide) rfl rfl
    ⟨hfirst.undisturbed, fun o p' hcall _ => ⟨?_, fun _ _ _ _ => trivial⟩⟩
  rw [hcall] at hsecond
  exact (of_decide_eq_true (Except.ok.inj hsecond)).undisturbed

/-- Two lines in one read: the second is lost. -/
theorem nanorl_readAhead :
    nanorlCalls referencePlatform 3 (bareEnvironment none) silentConf 2
        (staticProcess [.data [97, 10, 98, 10]]) =
      .ok [{ data := some (utf8 ['a']), error := .ok }, { data := none, error := .eof }] := by
  decide +kernel

end Nanorl
