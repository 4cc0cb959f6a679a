import Nanorl.Sound.Reference

/-!
# Nanorl.Sound.Chunks

Runs of `nrl_io_read`.

The events of a run depend on the byte stream only, and a run over a finite stream
ends, as long as every step is `Clean`. Both are false of runs in which a refill
falls into a token that is given up: `nrlIoRead_chunking_straddled` and
`nrlIoRead_endless` are such runs.
-/

namespace Nanorl

open PrefixCode (Begins Unfinished within_of_length_le)

section Runs

variable (P : Platform) (root : DfaNode)

/-- One `nrl_io_read`: its event, and the buffer and the reader it leaves. -/
def readEvent (st : InputBuf × Io) : Except Fault (IoEvent × (InputBuf × Io)) := do
  let (type, buffer, s) ← nrlIoRead P root st.1 st.2
  pure (eventOf type buffer, (buffer, s))

/-- The events of at most `n` calls of `nrl_io_read`, up to `INPUT_STOP`. -/
def readEvents (n : Nat) (st : InputBuf × Io) : Except Fault (List IoEvent) :=
  Run.collect (readEvent P root) IoEvent.isStop n st

/-- `C` holds of the reader before each of these calls. -/
def AlongReads (C : Io → Prop) (n : Nat) (st : InputBuf × Io) : Prop :=
  Run.Along (readEvent P root) IoEvent.isStop (fun st => C st.2) n st

instance (C : Io → Prop) [DecidablePred C] (n : Nat) (st : InputBuf × Io) :
    Decidable (AlongReads P root C n st) :=
  inferInstanceAs (Decidable (Run.Along _ _ _ n st))

end Runs

/-- A reader that `nrl_io_init` has set up, with the results its reads will have. -/
def initialReader (s : Io) (readFd echoFd : Int) (preload : Option (List Byte))
    (reads : List ReadResult) : Io :=
  nrlIoInit readFd echoFd preload { s with world := { s.world with reads } }

theorem initialReader_ready {s : Io} {readFd echoFd : Int} (hfd : 0 ≤ readFd)
    (preload : Option (List Byte)) (reads : List ReadResult) :
    Ready (Source.stream { preload, reads }) (initialReader s readFd echoFd preload reads) :=
  ready_of_reset (s := initialReader s readFd echoFd preload reads)
    (fun h => absurd (h ▸ hfd : (0 : Int) ≤ -1) (by decide)) rfl rfl rfl

/-- Non-empty chunks and then other reads. -/
theorem readsStream_append {reads : List ReadResult} : ∀ {chunks : List (List Byte)}, [] ∉ chunks →
    readsStream (chunks.map .data ++ reads) = chunks.flatten ++ₛ readsStream reads
  | [], _ => rfl
  | chunk :: chunks, h => by
      rw [List.mem_cons, not_or] at h
      rw [List.map_cons, List.cons_append, readsStream_data (Ne.symm h.1), readsStream_append h.2,
        List.flatten_cons, Stream'.append_append_stream]

/-- Non-empty chunks and then end of file. -/
theorem readsStream_chunks {chunks : List (List Byte)} (h : [] ∉ chunks) :
    readsStream (chunks.map .data) = chunks.flatten ++ₛ Stream'.const charEot := by
  rw [← List.append_nil (chunks.map ReadResult.data), readsStream_append h]
  rfl

section Token

variable {P : Platform} {W : Set (List Byte)} {root : DfaNode} {a : Stream' Byte}

theorem character_pos : 0 < (character P a).1 := by
  unfold character
  split
  · exact Nat.one_pos
  · exact Nat.succ_pos _

/-- Every token takes something off the stream. -/
theorem token_drop (hT : TreeOf W root) (hlen : ∀ w ∈ W, w.length ≤ ioBufSize) :
    ∃ j > 0, (token P root a).2 = a.drop j := by
  by_cases hb : ∃ w ∈ W, Begins w a
  · obtain ⟨w, hw, hb⟩ := hb
    have hleaf : (DfaNode.leafAt w root).isSome := hT.leafAt_isSome.mpr hw
    obtain ⟨⟨c, v⟩, hleaf⟩ := Option.isSome_iff_exists.mp hleaf
    refine ⟨w.length, List.length_pos_iff.mpr fun h => hT.nil_not_mem (h ▸ hw), ?_⟩
    rw [token_of_leaf P hT (within_of_length_le hlen _) hb hleaf]
  · refine ⟨_, character_pos (P := P) (a := a), ?_⟩
    rw [token_of_none P hT (within_of_length_le hlen _) (fun w hw hw' => hb ⟨w, hw, hw'⟩)]

end Token

/-! ### The condition at a table -/

instance (t : Terminfo) (envTerm p : List Byte) : Decidable (Unfinished (dfaSequences t envTerm) p) :=
  inferInstanceAs (Decidable (∃ w ∈ dfaSequences t envTerm, p <+: w ∧ p ≠ w))

instance (P : Platform) (t : Terminfo) (envTerm : List Byte) (s : Io) :
    Decidable (s.Clean P (dfaSequences t envTerm)) :=
  inferInstanceAs (Decidable ((Unfinished _ _ → ∃ w ∈ _, Begins w _) ∧ ((∀ w ∈ _, ¬ Begins w _) → _)))

instance (t : Terminfo) (envTerm : List Byte) (s : Io) : Decidable (s.Uncut (dfaSequences t envTerm)) :=
  inferInstanceAs (Decidable (¬ Unfinished _ _))

theorem xterm_length_lt : ∀ w ∈ dfaSequences xtermTerminfo (ascii "xterm"), w.length < ioBufSize := by
  decide +kernel

/-! ### Chunking -/

section Clean

variable {P : Platform} {W : Set (List Byte)} {root : DfaNode}

/-- Runs along which every step is clean have the events of the stream. -/
theorem readEvents_eq (hlaw : P.ConsumesAnnounced) (hT : TreeOf W root)
    (hlen : ∀ w ∈ W, w.length ≤ ioBufSize) {a : Stream' Byte} {n : Nat} {st : InputBuf × Io}
    (h : Ready a st.2) (hclean : AlongReads P root (Io.Clean P W) n st) :
    readEvents P root n st = .ok (Run.outputs (token P root) IoEvent.isStop n a) := by
  refine Run.collect_eq_outputs (R := fun st a => Ready a st.2) (fun st a h hclean => ?_) h hclean
  obtain ⟨type, buffer, s', hread, htakes⟩ :=
    nrlIoRead_clean P hlaw hT (within_of_length_le hlen _) h hclean st.1
  refine ⟨(buffer, s'), ?_, fun _ => htakes.ready⟩
  rw [readEvent, hread, ← htakes.event]
  rfl

end Clean

/-- **Chunking independence.** Two readers with the same preload and the same bytes
to come, cut in whatever way, deliver the same events, if no refill of either
falls into a token that is given up. -/
theorem nrlIoRead_chunking {P : Platform} (hlaw : P.ConsumesAnnounced) {t : Terminfo}
    (ht : t.Loadable) {envTerm : List Byte} {root : DfaNode}
    (hroot : nrlDfaBuild t envTerm dfaRoot = .ok root)
    (hlen : ∀ w ∈ dfaSequences t envTerm, w.length < ioBufSize)
    {readFd echoFd : Int} (hfd : 0 ≤ readFd) (preload : Option (List Byte))
    {chunks₁ chunks₂ : List (List Byte)} (hne₁ : [] ∉ chunks₁) (hne₂ : [] ∉ chunks₂)
    (hsame : chunks₁.flatten = chunks₂.flatten) (s₁ s₂ : Io) (buffer₁ buffer₂ : InputBuf) (n : Nat)
    (hclean₁ : AlongReads P root (Io.Clean P (dfaSequences t envTerm)) n
      (buffer₁, initialReader s₁ readFd echoFd preload (chunks₁.map .data)))
    (hclean₂ : AlongReads P root (Io.Clean P (dfaSequences t envTerm)) n
      (buffer₂, initialReader s₂ readFd echoFd preload (chunks₂.map .data))) :
    ∃ events,
      readEvents P root n
        (buffer₁, initialReader s₁ readFd echoFd preload (chunks₁.map .data)) = .ok events ∧
      readEvents P root n
        (buffer₂, initialReader s₂ readFd echoFd preload (chunks₂.map .data)) = .ok events := by
  have hT := nrlDfaBuild_treeOf ht hroot
  have hle := fun w hw => Nat.le_of_lt (hlen w hw)
  have hstream : Source.stream { preload, reads := chunks₁.map .data } =
      Source.stream { preload, reads := chunks₂.map .data } := by
    rw [Source.stream, Source.stream, readsStream_chunks hne₁, readsStream_chunks hne₂, hsame]
  refine ⟨_, readEvents_eq hlaw hT hle (initialReader_ready hfd preload _) hclean₁, ?_⟩
  rw [hstream]
  exact readEvents_eq hlaw hT hle (initialReader_ready hfd preload _) hclean₂

/-- Two cuts of `é`, the left key and a newline, through the character and through the key. -/
theorem nrlIoRead_chunking_xterm :
    ∃ root events, nrlDfaBuild xtermTerminfo (ascii "xterm") dfaRoot = .ok root ∧
      readEvents referencePlatform root 3 (freshBuffer,
        initialReader staticIo 0 1 none ([[0xc3], [0xa9, 0x1b], [0x4f, 0x44, 10]].map .data)) =
          .ok events ∧
      readEvents referencePlatform root 3 (freshBuffer,
        initialReader staticIo 0 1 none ([[0xc3, 0xa9, 0x1b, 0x4f], [0x44], [10]].map .data)) =
          .ok events := by
  have hclean : (nrlDfaBuild xtermTerminfo (ascii "xterm") dfaRoot).map (fun root =>
      decide (∀ chunks ∈ ([[[0xc3], [0xa9, 0x1b], [0x4f, 0x44, 10]],
          [[0xc3, 0xa9, 0x1b, 0x4f], [0x44], [10]]] : List (List (List Byte))),
        AlongReads referencePlatform root
          (Io.Clean referencePlatform (dfaSequences xtermTerminfo (ascii "xterm"))) 3
          (freshBuffer, initialReader staticIo 0 1 none (chunks.map .data)))) = .ok true := by
    decide +kernel
  obtain ⟨root, hroot, hclean⟩ := Run.map_eq_ok.mp hclean
  have hclean := of_decide_eq_true hclean
  obtain ⟨events, h₁, h₂⟩ := nrlIoRead_chunking referencePlatform_consumes xtermTerminfo_loadable
    hroot xterm_length_lt (by decide : (0 : Int) ≤ 0) none (by decide) (by decide) (by decide) staticIo
    staticIo freshBuffer freshBuffer 3 (hclean _ (.head _)) (hclean _ (.tail _ (.head _)))
  exact ⟨root, events, hroot, h₁, h₂⟩

/-- An escape character that completes no key and the byte behind it, in one read
and in two: the refill of the second run copies what lies behind the buffer over
the pending escape character. -/
theorem nrlIoRead_chunking_straddled :
    ∃ root, nrlDfaBuild xtermTerminfo (ascii "xterm") dfaRoot = .ok root ∧
      readEvents referencePlatform root 3
        (freshBuffer, initialReader staticIo 0 1 none ([[0x1b, 120, 10]].map .data)) =
          .ok [.text [94, 91], .text [120], .stop false] ∧
      readEvents referencePlatform root 3
        (freshBuffer, initialReader staticIo 0 1 none ([[0x1b], [120, 10]].map .data)) =
          .ok [.text [94, 64], .text [120], .stop false] := by
  have h₁ : (nrlDfaBuild xtermTerminfo (ascii "xterm") dfaRoot >>= fun root =>
      readEvents referencePlatform root 3
        (freshBuffer, initialReader staticIo 0 1 none ([[0x1b, 120, 10]].map .data))) =
      .ok [.text [94, 91], .text [120], .stop false] := by decide +kernel
  have h₂ : (nrlDfaBuild xtermTerminfo (ascii "xterm") dfaRoot >>= fun root =>
      readEvents referencePlatform root 3
        (freshBuffer, initialReader staticIo 0 1 none ([[0x1b], [120, 10]].map .data))) =
      .ok [.text [94, 64], .text [120], .stop false] := by decide +kernel
  obtain ⟨root, hroot, h₁⟩ := Run.bind_eq_ok.mp h₁
  rw [hroot, Run.ok_bind] at h₂
  exact ⟨root, hroot, h₁, h₂⟩

/-! ### Termination -/

theorem readsStream_eventually (reads : List ReadResult) :
    ∃ k, (readsStream reads).drop k = Stream'.const charEot := by
  induction reads with
  | nil => exact ⟨0, rfl⟩
  | cons r reads ih =>
    obtain ⟨k, hk⟩ := ih
    rcases r with ⟨_ | ⟨b, bs⟩⟩ | e
    · exact ⟨k + 1, hk⟩
    · refine ⟨(b :: bs).length + k, ?_⟩
      rw [← Stream'.drop_drop, readsStream, Stream'.drop_append_stream, hk]
    · exact ⟨k + 1, hk⟩

theorem Source.stream_eventually (src : Source) :
    ∃ k, src.stream.drop k = Stream'.const charEot := by
  obtain ⟨k, hk⟩ := readsStream_eventually src.reads
  refine ⟨(src.preload.getD []).length + k, ?_⟩
  rw [← Stream'.drop_drop, Source.stream, Stream'.drop_append_stream, hk]

/-- The end-of-file markers behind the input are not read as keys. -/
def Io.MarkerSafe (W : Set (List Byte)) (s : Io) : Prop :=
  s.unread = Stream'.const charEot → ∀ w ∈ W, ¬ Begins w s.unread

section Token

variable {P : Platform} {W : Set (List Byte)} {root : DfaNode} {a : Stream' Byte}

/-- An end-of-file marker that is no key stops. -/
theorem token_marker (hascii : P.AsciiLaw) (hT : TreeOf W root)
    (hlen : ∀ w ∈ W, w.length ≤ ioBufSize) (ha : a.get 0 = charEot)
    (hnone : ∀ w ∈ W, ¬ Begins w a) : (token P root a).1 = .stop true := by
  obtain ⟨hann, hparse⟩ := hascii a (by rw [ha]; decide)
  have hchar : character P a = (1, charEot.toUInt32) := by
    rw [character, hann, Stream'.take_succ, Stream'.take_zero]
    exact (by rw [(hparse : P.utf8ParseUchar (ucharBuffer [a.head]) = _), ha])
  rw [token_of_none P hT (within_of_length_le hlen _) hnone, hchar]
  rfl

end Token

/-- **Termination.** Whatever reads and preload there are and whatever earlier calls
left in the buffer, `INPUT_STOP` is reached, if no refill falls into a token that
is given up and the end-of-file marker is no key. -/
theorem nrlIoRead_stops {P : Platform} (hlaw : P.ConsumesAnnounced) (hascii : P.AsciiLaw)
    {t : Terminfo} (ht : t.Loadable) {envTerm : List Byte} {root : DfaNode}
    (hroot : nrlDfaBuild t envTerm dfaRoot = .ok root)
    (hlen : ∀ w ∈ dfaSequences t envTerm, w.length < ioBufSize)
    {readFd echoFd : Int} (hfd : 0 ≤ readFd) (preload : Option (List Byte))
    (reads : List ReadResult) (s : Io) (buffer : InputBuf)
    (hsafe : ∀ n, AlongReads P root
      (fun s => s.Clean P (dfaSequences t envTerm) ∧ s.MarkerSafe (dfaSequences t envTerm)) n
      (buffer, initialReader s readFd echoFd preload reads)) :
    ∃ n events,
      readEvents P root n (buffer, initialReader s readFd echoFd preload reads) = .ok events ∧
      ∃ event ∈ events, event.isStop := by
  have hT := nrlDfaBuild_treeOf ht hroot
  have hle := fun w hw => Nat.le_of_lt (hlen w hw)
  obtain ⟨k, hk⟩ := Source.stream_eventually { preload, reads }
  refine Run.collect_stops
    (I := fun k (st : InputBuf × Io) => ∃ a, Ready a st.2 ∧ a.drop k = Stream'.const charEot)
    (fun k st hI hC => ?_) ⟨_, initialReader_ready hfd preload reads, hk⟩ hsafe
  obtain ⟨a, hready, hdrop⟩ := hI
  obtain ⟨type, buffer', s', hread, htakes⟩ :=
    nrlIoRead_clean P hlaw hT (within_of_length_le hle _) hready hC.1 st.1
  have hstep : readEvent P root st = .ok ((token P root a).1, (buffer', s')) := by
    rw [readEvent, hread, ← htakes.event]
    rfl
  refine ⟨_, _, hstep, fun hstop => ?_⟩
  obtain ⟨j, hj, htoken⟩ := token_drop (P := P) (a := a) hT hle
  have hready' := htakes.ready
  rw [htoken] at hready'
  rcases Nat.eq_zero_or_pos k with rfl | hpos
  · -- nothing but markers is left
    have hmark : st.2.unread = Stream'.const charEot := hready.unread_eq.trans hdrop
    have hnone := hC.2 hmark
    rw [hready.unread_eq] at hnone
    have heof := token_marker hascii hT hle (by rw [show a = Stream'.const charEot from hdrop]; rfl) hnone
    rw [heof] at hstop
    exact absurd hstop (by decide)
  · -- the event has taken at least one byte off
    refine ⟨k - j, by omega, _, hready', ?_⟩
    rw [Stream'.drop_drop]
    rcases Nat.le_total j k with hle' | hle'
    · rw [Nat.add_sub_cancel' hle', hdrop]
    · rw [(by omega : j + (k - j) = k + (j - k)), ← Stream'.drop_drop, hdrop, Stream'.drop_const]

/-- No key of xterm starts with the marker. -/
theorem xterm_markerSafe (s : Io) : s.MarkerSafe (dfaSequences xtermTerminfo (ascii "xterm")) := by
  have hhead : ∀ w ∈ dfaSequences xtermTerminfo (ascii "xterm"), w.head? ≠ some charEot := by
    decide +kernel
  have hne := xtermTerminfo_loadable.sequence_ne_nil (ascii "xterm")
  intro hmark
  rw [hmark]
  exact not_begins_of_head (fun ⟨e, he, hnil⟩ => hne e he hnil) hhead

/-- Reads that cut a character and a key. -/
theorem nrlIoRead_stops_xterm :
    ∃ root n events, nrlDfaBuild xtermTerminfo (ascii "xterm") dfaRoot = .ok root ∧
      readEvents referencePlatform root n (freshBuffer, initialReader staticIo 0 1 none
        [.data [0xc3], .data [0xa9, 0x1b], .data [0x4f, 0x44], .data [10]]) = .ok events ∧
      ∃ event ∈ events, event.isStop := by
  have hclean : (nrlDfaBuild xtermTerminfo (ascii "xterm") dfaRoot).map (fun root =>
      decide (AlongReads referencePlatform root
          (Io.Clean referencePlatform (dfaSequences xtermTerminfo (ascii "xterm"))) 3
          (freshBuffer, initialReader staticIo 0 1 none
            [.data [0xc3], .data [0xa9, 0x1b], .data [0x4f, 0x44], .data [10]]) ∧
        (readEvents referencePlatform root 3 (freshBuffer, initialReader staticIo 0 1 none
          [.data [0xc3], .data [0xa9, 0x1b], .data [0x4f, 0x44], .data [10]])).map
            (fun events => events.any IoEvent.isStop) = .ok true)) = .ok true := by
    decide +kernel
  obtain ⟨root, hroot, hclean⟩ := Run.map_eq_ok.mp hclean
  obtain ⟨hclean, hstops⟩ := of_decide_eq_true hclean
  obtain ⟨events, hevents, hstop⟩ := Run.map_eq_ok.mp hstops
  have hstop : ∃ event ∈ events, event.isStop := List.any_eq_true.mp hstop
  have hsafe := fun n => (hclean.of_stopped hevents hstop n).imp fun st h => And.intro h (xterm_markerSafe st.2)
  obtain ⟨n, events, h, hstop⟩ := nrlIoRead_stops referencePlatform_consumes referencePlatform_ascii
    xtermTerminfo_loadable hroot xterm_length_lt (by decide : (0 : Int) ≤ 0) none _ staticIo freshBuffer hsafe
  exact ⟨root, n, events, hroot, h, hstop⟩

/-- A lead byte is left in the buffer with the marker behind it, and lead bytes lie
behind its end. -/
def stuckIo : Io :=
  { staticIo with
    readFile := 0
    echoFile := 1
    rdBuf := fun i => if i = 2 then charEot else 0xe2
    rdCount := 3
    rdUsed := 1 }

theorem stuckIo_rdBuf {mem : Nat → Byte} (h : ∀ i, 2 < i → mem i = 0xe2) :
    memcpy (memcpy mem 0 [0xe2, 0xe2]) 2 [charEot] = stuckIo.rdBuf := by
  funext i
  match i with
  | 0 | 1 | 2 => rfl
  | i + 3 =>
    rw [memcpy_ge _ (by simp), memcpy_ge _ (by simp), h _ (by omega)]
    rfl

/-- The lead byte is given up, and the refill has brought it back. -/
theorem stuckIo_read (buffer : InputBuf) :
    nrlIoRead referencePlatform dfaRoot buffer stuckIo =
      .ok (.text, { buffer with text := [unicodeErrorChar], more := true }, stuckIo) := by
  have h : nrlIoRead referencePlatform dfaRoot buffer stuckIo =
      .ok (.text, { buffer with text := [unicodeErrorChar], more := true },
        { stuckIo with rdBuf := memcpy (memcpy stuckIo.rdBuf 0 [0xe2, 0xe2]) 2 [charEot] }) := rfl
  have hmem : ∀ i, 2 < i → stuckIo.rdBuf i = 0xe2 := fun i hi => if_neg (by omega)
  rw [h, stuckIo_rdBuf hmem]

/-- The first read of a lone lead byte over a buffer that is full of such bytes. -/
theorem stuckIo_entered (buffer : InputBuf) :
    nrlIoRead referencePlatform dfaRoot buffer
        (initialReader { staticIo with rdBuf := fun _ => 0xe2 } 0 1 none [.data [0xe2]]) =
      .ok (.text, { buffer with text := [unicodeErrorChar], more := true }, stuckIo) := by
  have h : nrlIoRead referencePlatform dfaRoot buffer
        (initialReader { staticIo with rdBuf := fun _ => 0xe2 } 0 1 none [.data [0xe2]]) =
      .ok (.text, { buffer with text := [unicodeErrorChar], more := true },
        { stuckIo with
          rdBuf := memcpy (memcpy (memcpy (memcpy (memcpy (fun _ => 0xe2)
            0 [0xe2]) 0 [0xe2]) 1 [charEot]) 0 [0xe2, 0xe2]) 2 [charEot] }) := rfl
  rw [h, stuckIo_rdBuf fun i hi => by
    rw [memcpy_ge _ (by simp; omega), memcpy_ge _ (by simp; omega), memcpy_ge _ (by simp; omega)]]

/-- `INPUT_STOP` is never reached if the input is a lone lead byte and an earlier
call has left such bytes in the buffer. -/
theorem nrlIoRead_endless :
    nrlDfaBuild Terminfo.unloaded [] dfaRoot = .ok dfaRoot ∧
    ¬ ∃ n events,
      readEvents referencePlatform dfaRoot n (freshBuffer,
        initialReader { staticIo with rdBuf := fun _ => 0xe2 } 0 1 none [.data [0xe2]]) =
          .ok events ∧
      ∃ event ∈ events, event.isStop := by
  refine ⟨rfl, ?_⟩
  intro h
  obtain ⟨n, events, h, event, hmem, hstop⟩ := h
  have hnever := Run.collect_diverges
    (I := fun st : InputBuf × Io => st.2 = stuckIo ∨
      st.2 = initialReader { staticIo with rdBuf := fun _ => 0xe2 } 0 1 none [.data [0xe2]])
    (fun st hI => ?_) (Or.inr rfl) h event hmem
  · rw [hnever] at hstop
    exact absurd hstop (by decide)
  · refine ⟨.text [unicodeErrorChar],
      ({ st.1 with text := [unicodeErrorChar], more := true }, stuckIo), ?_, rfl, Or.inl rfl⟩
    rcases hI with hst | hst <;> rw [readEvent, hst]
    · rw [stuckIo_read]
      rfl
    · rw [stuckIo_entered]
      rfl

end Nanorl
