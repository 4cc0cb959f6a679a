import Nanorl.Sound.Reference

/-!
# Nanorl.Sound.Buffered

One `nrl_io_read` that finds all it needs in the buffer.

`read_wrapper` asserts that there is a file to read from, so a call that refills
nothing is one that passes without a file (`Io.Suffices`). Up to that assertion the
call only counts pending entries, whatever else the state holds: the parser reads the
buffer like a plain stream (`nrlDfaParse_simulated`), and is rewound by resetting the
counter before the character is read.
-/

namespace Nanorl

open PrefixCode (Begins within_of_length_le)
open DfaNode (leafAt)

/-! ### Two sources -/

section Simulated

variable {σ τ : Type} {next₁ : σ → Except Fault (Byte × σ)} {next₂ : τ → Except Fault (Byte × τ)}
  {R : σ → τ → Prop} {buf value : DfaAcceptor} {result : DfaResult} {s' : σ} {t : τ}

/-- Whatever the first source hands out the second one does. -/
def Simulates (next₁ : σ → Except Fault (Byte × σ)) (next₂ : τ → Except Fault (Byte × τ))
    (R : σ → τ → Prop) : Prop :=
  ∀ s t b s', R s t → next₁ s = .ok (b, s') → ∃ t', next₂ t = .ok (b, t') ∧ R s' t'

mutual
/-- A parse that ends over the first source ends over the second, with the same result. -/
theorem DfaNode.parse_simulated (hnext : Simulates next₁ next₂ R) (node : DfaNode) {s : σ} {t : τ}
    (hR : R s t) (h : node.parse next₁ buf s = .ok (result, value, s')) :
    ∃ t', node.parse next₂ buf t = .ok (result, value, t') ∧ R s' t' := by
  cases node with
  | accept edge flag v =>
    obtain ⟨⟨b, s₁⟩, hs, h⟩ := Run.bind_eq_ok.mp h
    obtain ⟨t₁, ht, hR₁⟩ := hnext s t b s₁ hR hs
    obtain ⟨rfl, hrest⟩ := Prod.mk.inj (Except.ok.inj h)
    obtain ⟨rfl, rfl⟩ := Prod.mk.inj hrest
    refine ⟨t₁, ?_, hR₁⟩
    rw [DfaNode.parse, ht]
    rfl
  | children edge flag nodes =>
    obtain ⟨⟨b, s₁⟩, hs, h⟩ := Run.bind_eq_ok.mp h
    obtain ⟨t₁, ht, hR₁⟩ := hnext s t b s₁ hR hs
    obtain ⟨t', hparse, hR'⟩ := DfaNode.parseChildren_simulated hnext nodes hR₁ h
    refine ⟨t', ?_, hR'⟩
    rw [DfaNode.parse, ht]
    exact hparse
theorem DfaNode.parseChildren_simulated (hnext : Simulates next₁ next₂ R) (nodes : List DfaNode)
    {input : Byte} {s : σ} {t : τ} (hR : R s t)
    (h : DfaNode.parseChildren next₁ nodes input buf s = .ok (result, value, s')) :
    ∃ t', DfaNode.parseChildren next₂ nodes input buf t = .ok (result, value, t') ∧ R s' t' := by
  cases nodes with
  | nil =>
    obtain ⟨rfl, hrest⟩ := Prod.mk.inj (Except.ok.inj h)
    obtain ⟨rfl, rfl⟩ := Prod.mk.inj hrest
    exact ⟨t, rfl, hR⟩
  | cons child nodes =>
    rw [DfaNode.parseChildren] at h ⊢
    split at h
    · rename_i hedge
      rw [if_pos hedge]
      split at h
      · rename_i hcount
        obtain ⟨rfl, hrest⟩ := Prod.mk.inj (Except.ok.inj h)
        obtain ⟨rfl, rfl⟩ := Prod.mk.inj hrest
        rw [if_pos hcount]
        exact ⟨t, rfl, hR⟩
      · rename_i hcount
        rw [if_neg hcount]
        exact DfaNode.parse_simulated hnext child hR h
    · rename_i hedge
      rw [if_neg hedge]
      exact DfaNode.parseChildren_simulated hnext nodes hR h
end

theorem nrlDfaParse_simulated (hnext : Simulates next₁ next₂ R) (root : DfaNode) {s : σ} (hR : R s t)
    (h : nrlDfaParse next₁ root buf s = .ok (result, value, s')) :
    ∃ t', nrlDfaParse next₂ root buf t = .ok (result, value, t') ∧ R s' t' := by
  rw [nrlDfaParse] at h ⊢
  split at h
  · rename_i hcount
    obtain ⟨rfl, hrest⟩ := Prod.mk.inj (Except.ok.inj h)
    obtain ⟨rfl, rfl⟩ := Prod.mk.inj hrest
    rw [if_pos hcount]
    exact ⟨t, rfl, hR⟩
  · rename_i hcount
    rw [if_neg hcount]
    exact DfaNode.parse_simulated hnext root hR h

end Simulated

/-! ### Without a file -/

section Buffered

variable (P : Platform)

/-- The platform with its asserts. -/
def Platform.debug : Platform := { P with ndebug := false }

/-- The buffer suffices for the call: it does not get to a `read_wrapper`, and so does
without a file. -/
def Io.Suffices (root : DfaNode) (buffer : InputBuf) (s : Io) : Prop :=
  (nrlIoRead P.debug root buffer { s with readFile := -1 }).isOk = true

instance (root : DfaNode) (buffer : InputBuf) (s : Io) : Decidable (s.Suffices P root buffer) :=
  inferInstanceAs (Decidable (_ = true))

variable {P} {s : Io}

theorem readWrapper_file {start count : Nat} {r : Nat × Io}
    (h : readWrapper P.debug start count s = .ok r) : s.readFile ≠ -1 := by
  obtain ⟨_, hassert, -⟩ := Run.bind_eq_ok.mp h
  rcases Platform.assert_ok.mp hassert with hfile | hndebug
  · exact of_decide_eq_true hfile
  · cases hndebug

/-- Without a file nothing is handed out from behind the buffer. -/
theorem nextChar_noFile (h : s.readFile = -1) (hreach : s.rdUsed + s.rdPending = s.rdCount) {b : Byte}
    {s' : Io} : nextChar P.debug s ≠ .ok (b, s') := by
  intro hnext
  obtain ⟨s₁, hfill, hnext⟩ := Run.bind_eq_ok.mp hnext
  obtain ⟨s₂, hrefill, -⟩ := Run.bind_eq_ok.mp hnext
  rw [fillBuffer] at hfill
  split at hfill
  · obtain ⟨r, hread, -⟩ := Run.bind_eq_ok.mp hfill
    exact readWrapper_file hread h
  · obtain rfl := Except.ok.inj hfill
    rw [refillBuffer, if_pos hreach] at hrefill
    obtain ⟨s₃, hstore, hrefill⟩ := Run.bind_eq_ok.mp hrefill
    have hfile : s₃.readFile = s.readFile := by
      rw [Io.store] at hstore
      split at hstore
      · obtain rfl := Except.ok.inj hstore
        rfl
      · cases hstore
    obtain ⟨r, hread, -⟩ := Run.bind_eq_ok.mp hrefill
    exact readWrapper_file hread (hfile.trans h)

/-- The entries in the buffer are the first unread ones. -/
theorem Io.unread_get {k : Nat} (h : s.rdUsed + k < s.rdCount) :
    s.unread.get k = s.rdBuf (s.rdUsed + k) := by
  have hslot := getElem?_slice s.rdBuf s.rdUsed (s.rdCount - s.rdUsed) k
  rw [if_pos (by omega), List.getElem?_eq_getElem (by rw [length_slice]; omega)] at hslot
  rw [Io.unread, Stream'.get_append_left _ _ _ (by rw [length_slice]; omega)]
  exact Option.some.inj hslot

/-- `k` entries of the buffer are pending. -/
def Io.pend (s : Io) (k : Nat) : Io := { s with rdPending := k }

theorem Io.nextChar_pend (hcount : s.rdCount ≤ ioBufSize) {k : Nat} (h : s.rdUsed + k < s.rdCount) :
    nextChar P (s.pend k) = .ok (s.unread.get k, s.pend (k + 1)) := by
  rw [nextChar_within P (s := s.pend k) h hcount, Io.unread_get h]
  rfl

/-- The reader without its file. -/
def Io.offline (s : Io) : Io := { s with readFile := -1 }

theorem Io.nextChar_offline (hcount : s.rdCount ≤ ioBufSize) {k : Nat} (hle : s.rdUsed + k ≤ s.rdCount)
    {b : Byte} {s' : Io} (h : nextChar P.debug (s.offline.pend k) = .ok (b, s')) :
    s.rdUsed + k < s.rdCount ∧ b = s.unread.get k ∧ s' = s.offline.pend (k + 1) := by
  have hlt : s.rdUsed + k < s.rdCount := by
    rcases Nat.lt_or_eq_of_le hle with hlt | hreach
    · exact hlt
    · exact absurd h (nextChar_noFile rfl hreach)
  have hnext := Io.nextChar_pend (P := P.debug) (s := s.offline) hcount hlt
  obtain ⟨rfl, rfl⟩ := Prod.mk.inj (Except.ok.inj (h.symm.trans hnext))
  exact ⟨hlt, rfl, rfl⟩

/-- Without a file the parser reads the buffer like a stream. -/
theorem Io.offline_simulates_pull (hcount : s.rdCount ≤ ioBufSize) :
    Simulates (nextChar P.debug) (pull s.unread)
      fun s₀ k => s₀ = s.offline.pend k ∧ s.rdUsed + k ≤ s.rdCount := by
  rintro _ k b s' ⟨rfl, hle⟩ hnext
  obtain ⟨hlt, rfl, rfl⟩ := Io.nextChar_offline hcount hle hnext
  exact ⟨k + 1, rfl, rfl, hlt⟩

/-- With its file it does the same. -/
theorem Io.offline_simulates_online (hcount : s.rdCount ≤ ioBufSize) :
    Simulates (nextChar P.debug) (nextChar P)
      fun s₀ s₁ => ∃ k, s₀ = s.offline.pend k ∧ s₁ = s.pend k ∧ s.rdUsed + k ≤ s.rdCount := by
  rintro _ _ b s' ⟨k, rfl, rfl, hle⟩ hnext
  obtain ⟨hlt, rfl, rfl⟩ := Io.nextChar_offline hcount hle hnext
  exact ⟨s.pend (k + 1), Io.nextChar_pend hcount hlt, k + 1, rfl, rfl, hlt⟩

/-! ### Characters -/

theorem Io.nextChars_offline (hcount : s.rdCount ≤ ioBufSize) {n k : Nat}
    (hle : s.rdUsed + k ≤ s.rdCount) {r : List Byte × Io}
    (h : nextChars P.debug n (s.offline.pend k) = .ok r) : s.rdUsed + k + n ≤ s.rdCount := by
  induction n generalizing k r with
  | zero => exact hle
  | succ n ih =>
    obtain ⟨⟨b, s₁⟩, hnext, h⟩ := Run.bind_eq_ok.mp h
    obtain ⟨hlt, -, rfl⟩ := Io.nextChar_offline hcount hle hnext
    obtain ⟨r, hrest, -⟩ := Run.bind_eq_ok.mp h
    have hbound := ih hlt hrest
    omega

theorem Io.nextChars_pend (hcount : s.rdCount ≤ ioBufSize) {n k : Nat}
    (h : s.rdUsed + k + n ≤ s.rdCount) :
    nextChars P n (s.pend k) = .ok ((s.unread.drop k).take n, s.pend (k + n)) := by
  induction n generalizing k with
  | zero => rfl
  | succ n ih =>
    rw [nextChars, Io.nextChar_pend hcount (by omega), Run.ok_bind]
    dsimp only
    rw [ih (by omega), Run.ok_bind, Stream'.take_succ, Stream'.head_drop, Stream'.tail_drop',
      (by omega : k + 1 + n = k + (n + 1))]
    rfl

/-- Without a file, a character is there as a whole. -/
theorem Io.nextUchar_offline (hcount : s.rdCount ≤ ioBufSize) (hunread : s.rdUsed < s.rdCount)
    {r : Uchar × Io} (h : nextUchar P.debug (s.offline.pend 0) = .ok r) :
    s.rdUsed + announced P s.unread ≤ s.rdCount := by
  obtain ⟨⟨lead, s₁⟩, hlead, h⟩ := Run.bind_eq_ok.mp h
  obtain ⟨hlt, rfl, rfl⟩ := Io.nextChar_offline hcount (Nat.le_of_lt hunread) hlead
  obtain ⟨r, hrest, -⟩ := Run.bind_eq_ok.mp h
  have hbound := Io.nextChars_offline hcount hlt hrest
  rw [announced]
  exact (Nat.add_assoc _ _ _).symm.trans_le hbound

theorem Io.nextUchar_pend (hcount : s.rdCount ≤ ioBufSize)
    (h : s.rdUsed + announced P s.unread ≤ s.rdCount) :
    nextUchar P (s.pend 0) = .ok ((character P s.unread).2,
      { s with rdUsed := s.rdUsed + (character P s.unread).1, rdPending := 0 }) := by
  have hpos := announced_pos P s.unread
  have hfollowing : (P.utf8Inspect (s.unread.get 0)).following = announced P s.unread - 1 := by
    unfold announced
    omega
  have hbytes : s.unread.get 0 :: (s.unread.drop 1).take (announced P s.unread - 1) =
      s.unread.take (announced P s.unread) := by
    obtain ⟨n, hn⟩ : ∃ n, announced P s.unread = n + 1 := ⟨announced P s.unread - 1, by omega⟩
    rw [hn, Stream'.take_succ, Nat.add_sub_cancel]
    rfl
  rcases hparse : P.utf8ParseUchar (ucharBuffer (s.unread.take (announced P s.unread))) with
    ⟨consumed, uc⟩
  rw [character_of_parse P hparse]
  simp only [nextUchar, Io.nextChar_pend (P := P) hcount (k := 0) (by omega), Run.ok_bind, hfollowing,
    Io.nextChars_pend (P := P) hcount (k := 1) (n := announced P s.unread - 1) (by omega), hbytes, hparse]
  by_cases h0 : consumed = 0
  · rw [if_pos h0, if_pos h0]
    rfl
  · rw [if_neg h0, if_neg h0]
    rfl

/-! ### The call -/

/-- The unread bytes of the buffer. -/
def Io.buffered (s : Io) : List Byte := slice s.rdBuf s.rdUsed (s.rdCount - s.rdUsed)

/-- A word begins what is unread within the buffer if it is a prefix of it. -/
theorem Io.prefix_iff {w : List Byte} (hle : s.rdUsed ≤ s.rdCount) :
    w <+: s.buffered ↔ Begins w s.unread ∧ s.rdUsed + w.length ≤ s.rdCount := by
  have htake : s.unread.take (s.rdCount - s.rdUsed) = s.buffered := by
    rw [Io.buffered, Io.unread, Stream'.take_append_of_le_length _ _ _ (by rw [length_slice]),
      List.take_of_length_le (by rw [length_slice])]
  rw [← htake]
  constructor
  · intro h
    have hlength := h.length_le
    rw [Stream'.length_take] at hlength
    have heq := List.prefix_iff_eq_take.mp h
    rw [Stream'.take_take, Nat.min_eq_right hlength] at heq
    exact ⟨heq.symm, by omega⟩
  · rintro ⟨hb, hlength⟩
    exact hb.prefix_take (by omega)

/-- Behind a parse that has found nothing, a character is read from the beginning of what
is unread. -/
theorem nrlIoRead_unparsed {root : DfaNode} {buffer : InputBuf} {escape : DfaAcceptor} {k : Nat}
    (hunread : s.rdUsed < s.rdCount)
    (hparse : nrlDfaParse (nextChar P) root buffer.escape s = .ok (.empty, escape, s.pend k)) :
    nrlIoRead P root buffer s = (nextUchar P (s.pend 0)).map fun r =>
      ((classify r.1 { buffer with escape, more := decide (r.2.rdUsed < r.2.rdCount) }).1,
        (classify r.1 { buffer with escape, more := decide (r.2.rdUsed < r.2.rdCount) }).2, r.2) := by
  have hfill : fillUnparsed P (s.pend k) = .ok (s.pend k) := by
    rw [fillUnparsed, if_neg]
    exact Nat.ne_of_gt hunread
  have hrewind : { s.pend k with rdPending := 0 } = s.pend 0 := rfl
  simp only [nrlIoRead, hparse, Run.ok_bind, ne_eq, not_true_eq_false, if_false, hfill, hrewind]
  cases nextUchar P (s.pend 0) <;> rfl

/-- Behind a parse that has found a key, just the key is taken. -/
theorem nrlIoRead_parsed {root : DfaNode} {buffer : InputBuf} {accept : DfaAcceptor} {custom : Bool}
    {k : Nat} (hparse : nrlDfaParse (nextChar P) root buffer.escape s =
      .ok (resultOf custom, accept, s.pend k)) :
    nrlIoRead P root buffer s =
      .ok (if custom then .customEscape else .escape,
        { buffer with escape := accept, more := decide (s.rdUsed + k < s.rdCount) },
        { s with rdUsed := s.rdUsed + k, rdPending := 0 }) := by
  cases custom <;> simp only [nrlIoRead, hparse, resultOf, Run.ok_bind, Io.pend] <;> rfl

/-! ### What suffices -/

/-- A parse that needs no refill goes through the buffer as through the stream of its
bytes, and stays within it. -/
theorem Io.Suffices.parses {root : DfaNode} {buffer : InputBuf} (hsuffices : s.Suffices P root buffer)
    (hpending : s.rdPending = 0) (hle : s.rdUsed ≤ s.rdCount) (hcount : s.rdCount ≤ ioBufSize) :
    ∃ result escape k, s.rdUsed + k ≤ s.rdCount ∧
      nrlDfaParse (pull s.unread) root buffer.escape 0 = .ok (result, escape, k) ∧
      nrlDfaParse (nextChar P.debug) root buffer.escape s.offline =
        .ok (result, escape, s.offline.pend k) ∧
      nrlDfaParse (nextChar P) root buffer.escape s = .ok (result, escape, s.pend k) := by
  have hpend : s.pend 0 = s := by rw [Io.pend, ← hpending]
  have hoffline : s.offline.pend 0 = s.offline := by
    show (s.pend 0).offline = _
    rw [hpend]
  obtain ⟨r, hr⟩ := Run.isOk_iff.mp hsuffices
  obtain ⟨⟨result, escape, s₁⟩, hparse, -⟩ := Run.bind_eq_ok.mp hr
  obtain ⟨k, hpull, rfl, hk⟩ := nrlDfaParse_simulated (Io.offline_simulates_pull hcount) root
    (t := 0) ⟨hoffline.symm, hle⟩ hparse
  obtain ⟨s₂, honline, k', hk', rfl, -⟩ := nrlDfaParse_simulated
    (Io.offline_simulates_online (P := P) hcount) root (t := s) ⟨0, hoffline.symm, hpend.symm, hle⟩ hparse
  obtain rfl : k = k' := congrArg Io.rdPending hk'
  exact ⟨result, escape, k, hk, hpull, hparse, honline⟩

/-- Where the parse finds nothing, the buffer holds the whole first character. -/
theorem Io.Suffices.inside {root : DfaNode} {buffer : InputBuf} (hsuffices : s.Suffices P root buffer)
    (hunread : s.rdUsed < s.rdCount) (hcount : s.rdCount ≤ ioBufSize) {escape : DfaAcceptor} {k : Nat}
    (hparse : nrlDfaParse (nextChar P.debug) root buffer.escape s.offline =
      .ok (.empty, escape, s.offline.pend k)) : s.rdUsed + announced P s.unread ≤ s.rdCount := by
  obtain ⟨r, hr⟩ := Run.isOk_iff.mp hsuffices
  rw [show ({ s with readFile := -1 } : Io) = s.offline from rfl,
    nrlIoRead_unparsed (s := s.offline) hunread hparse] at hr
  obtain ⟨r', hchar, -⟩ := Run.map_eq_ok.mp hr
  exact Io.nextUchar_offline hcount hunread hchar

/-- One step of the tokeniser over the buffered bytes: the key whose sequence they begin
with and its length, or else their first character and the bytes of it. -/
structure TakesBuffered (P : Platform) (entries : List DfaEntry) (s : Io) (type : InputType)
    (buffer : InputBuf) (taken : Nat) : Prop where
  pos : 0 < taken
  inside : s.rdUsed + taken ≤ s.rdCount
  more : buffer.more = decide (s.rdUsed + taken < s.rdCount)
  key : ∀ e ∈ entries, e.sequence <+: s.buffered →
    eventOf type buffer = keyEvent e.custom e.accept ∧ taken = e.sequence.length
  char : (∀ e ∈ entries, ¬ e.sequence <+: s.buffered) →
    s.rdUsed + announced P s.unread ≤ s.rdCount ∧
      eventOf type buffer = charEvent (character P s.unread).2 ∧ taken = (character P s.unread).1

variable {t : Terminfo} {envTerm : List Byte}

theorem TakesBuffered.of_key (ht : t.Loadable) (hu : t.Unambiguous envTerm) {e : DfaEntry}
    (he : e ∈ dfaEntries t envTerm) (hpre : e.sequence <+: s.buffered) (hle : s.rdUsed ≤ s.rdCount)
    {type : InputType} {buffer : InputBuf} (hevent : eventOf type buffer = keyEvent e.custom e.accept)
    (hmore : buffer.more = decide (s.rdUsed + e.sequence.length < s.rdCount)) :
    TakesBuffered P (dfaEntries t envTerm) s type buffer e.sequence.length where
  pos := List.length_pos_iff.mpr (ht.sequence_ne_nil envTerm e he)
  inside := ((Io.prefix_iff hle).mp hpre).2
  more := hmore
  key := by
    intro e' he' hpre'
    obtain rfl : e = e' := by
      rcases List.prefix_or_prefix_of_prefix hpre hpre' with h | h
      · exact hu e he e' he' h
      · exact (hu e' he' e he h).symm
    exact ⟨hevent, rfl⟩
  char := fun hnone => absurd hpre (hnone e he)

theorem TakesBuffered.of_char (hlaw : P.ConsumesAnnounced)
    (hnone : ∀ e ∈ dfaEntries t envTerm, ¬ e.sequence <+: s.buffered)
    (hinside : s.rdUsed + announced P s.unread ≤ s.rdCount) {type : InputType} {buffer : InputBuf}
    (hevent : eventOf type buffer = charEvent (character P s.unread).2)
    (hmore : buffer.more = decide (s.rdUsed + (character P s.unread).1 < s.rdCount)) :
    TakesBuffered P (dfaEntries t envTerm) s type buffer (character P s.unread).1 := by
  have hpos := announced_pos P s.unread
  have htaken : (character P s.unread).1 = 1 ∨ (character P s.unread).1 = announced P s.unread := by
    rcases hparse : P.utf8ParseUchar (ucharBuffer (s.unread.take (announced P s.unread))) with
      ⟨consumed, uc⟩
    have hlaw := hlaw s.unread
    rw [hparse] at hlaw
    rw [character_of_parse P hparse]
    split
    · exact .inl rfl
    · exact .inr (hlaw.resolve_left ‹_›)
  exact ⟨by omega, by omega, hmore, fun e he hpre => absurd hpre (hnone e he),
    fun _ => ⟨hinside, hevent, rfl⟩⟩

/-- No key is found where none begins. -/
theorem nrlDfaParse_empty (ht : t.Loadable) (hu : t.Unambiguous envTerm) {root : DfaNode}
    (hroot : nrlDfaBuild t envTerm dfaRoot = .ok root) {a : Stream' Byte}
    (hnone : ∀ e ∈ dfaEntries t envTerm, ¬ Begins e.sequence a) {buf escape : DfaAcceptor}
    {result : DfaResult} {k : Nat} (h : nrlDfaParse (pull a) root buf 0 = .ok (result, escape, k)) :
    result = .empty := by
  cases result with
  | empty => rfl
  | input =>
    obtain ⟨w, he, hb, -⟩ := (nrlDfaParse_entry_iff ht hu hroot a buf escape false k).mp h
    exact absurd hb (hnone _ he)
  | custom =>
    obtain ⟨w, he, hb, -⟩ := (nrlDfaParse_entry_iff ht hu hroot a buf escape true k).mp h
    exact absurd hb (hnone _ he)

end Buffered

/-- **One `nrl_io_read` is one step of the tokeniser.** In a state with unread bytes and
none pending, a call that needs no refill returns the key whose sequence the bytes begin
with, or else their first character, and takes just its bytes. Nothing but the two
counters changes. On xterm the backspace alias counts as a sequence. -/
theorem nrlIoRead_buffered {P : Platform} (hlaw : P.ConsumesAnnounced) {t : Terminfo}
    (ht : t.Loadable) {envTerm : List Byte} (hu : t.Unambiguous envTerm) {root : DfaNode}
    (hroot : nrlDfaBuild t envTerm dfaRoot = .ok root) {s : Io} (hpending : s.rdPending = 0)
    (hunread : s.rdUsed < s.rdCount) (hcount : s.rdCount ≤ ioBufSize) {buffer : InputBuf}
    (hsuffices : s.Suffices P root buffer) :
    ∃ type buffer' taken,
      nrlIoRead P root buffer s =
        .ok (type, buffer', { s with rdUsed := s.rdUsed + taken, rdPending := 0 }) ∧
      TakesBuffered P (dfaEntries t envTerm) s type buffer' taken := by
  have hle := Nat.le_of_lt hunread
  obtain ⟨result, escape, k, hk, hpull, hoffline, honline⟩ := hsuffices.parses hpending hle hcount
  by_cases hnone : ∀ e ∈ dfaEntries t envTerm, ¬ Begins e.sequence s.unread
  · obtain rfl := nrlDfaParse_empty ht hu hroot hnone hpull
    have hinside := hsuffices.inside hunread hcount hoffline
    rw [nrlIoRead_unparsed hunread honline, Io.nextUchar_pend hcount hinside]
    refine ⟨_, _, _, rfl, .of_char hlaw (fun e he hpre => ?_) hinside (eventOf_classify _ _) ?_⟩
    · exact hnone e he ((Io.prefix_iff hle).mp hpre).1
    · rw [classify_eq]
      split <;> rfl
  · obtain ⟨e, he, hb⟩ : ∃ e ∈ dfaEntries t envTerm, Begins e.sequence s.unread := by
      by_contra h
      exact hnone fun e he hb => h ⟨e, he, hb⟩
    have hkey := (nrlDfaParse_entry_iff ht hu hroot s.unread buffer.escape e.accept e.custom
      e.sequence.length).mpr ⟨e.sequence, he, hb, rfl⟩
    obtain ⟨rfl, hrest⟩ := Prod.mk.inj (Except.ok.inj (hpull.symm.trans hkey))
    obtain ⟨rfl, rfl⟩ := Prod.mk.inj hrest
    refine ⟨_, _, _, nrlIoRead_parsed honline,
      .of_key ht hu he ((Io.prefix_iff hle).mpr ⟨hb, hk⟩) hle ?_ rfl⟩
    cases e.custom <;> rfl

/-- A buffer that holds `é` and the beginning of another character. -/
def accentIo : Io :=
  { staticIo with readFile := 0, rdBuf := memcpy (fun _ => 0) 0 [0xc3, 0xa9, 0xc3], rdCount := 3 }

theorem nrlIoRead_buffered_accent :
    ∃ root type buffer' taken, nrlDfaBuild xtermTerminfo (ascii "xterm") dfaRoot = .ok root ∧
      nrlIoRead referencePlatform root freshBuffer accentIo =
        .ok (type, buffer', { accentIo with rdUsed := accentIo.rdUsed + taken, rdPending := 0 }) ∧
      TakesBuffered referencePlatform (dfaEntries xtermTerminfo (ascii "xterm")) accentIo type buffer'
        taken := by
  have hok : (nrlDfaBuild xtermTerminfo (ascii "xterm") dfaRoot).map (fun root =>
      decide (accentIo.Suffices referencePlatform root freshBuffer)) = .ok true := by
    decide +kernel
  obtain ⟨root, hroot, hsuffices⟩ := Run.map_eq_ok.mp hok
  obtain ⟨type, buffer', taken, hread, htakes⟩ := nrlIoRead_buffered referencePlatform_consumes
    xtermTerminfo_loadable xtermTerminfo_unambiguous hroot (s := accentIo) rfl (by decide) (by decide)
    (of_decide_eq_true hsuffices)
  exact ⟨root, type, buffer', taken, hroot, hread, htakes⟩

/-- A buffer that holds a control-H and another byte. -/
def controlHIo : Io :=
  { staticIo with readFile := 0, rdBuf := memcpy (fun _ => 0) 0 [0o10, 97], rdCount := 2 }

/-- On xterm a control-H is the alias of the backspace key, and the call returns this key. None of
the table's own sequences begins the buffer: by them alone it would be the caret form. -/
theorem nrlIoRead_controlH :
    (∀ e ∈ dfaEntries xtermTerminfo (ascii "vt100"),
      ∀ e' ∈ dfaEntries xtermTerminfo (ascii "vt100"), e.sequence <+: e'.sequence → e = e') ∧
    ∃ root type buffer s', nrlDfaBuild xtermTerminfo (ascii "xterm") dfaRoot = .ok root ∧
      controlHIo.Suffices referencePlatform root freshBuffer ∧
      nrlIoRead referencePlatform root freshBuffer controlHIo = .ok (type, buffer, s') ∧
      eventOf type buffer = .escape TerminfoInput.keyBackspace.id ∧
      ∀ taken, ¬ TakesBuffered referencePlatform (dfaEntries xtermTerminfo (ascii "vt100")) controlHIo
        type buffer taken := by
  have hok : (nrlDfaBuild xtermTerminfo (ascii "xterm") dfaRoot).map (fun root =>
      decide (controlHIo.Suffices referencePlatform root freshBuffer ∧
        (nrlIoRead referencePlatform root freshBuffer controlHIo).map (fun r => eventOf r.1 r.2.1) =
          .ok (.escape TerminfoInput.keyBackspace.id))) = .ok true := by
    decide +kernel
  have hnone : ∀ e ∈ dfaEntries xtermTerminfo (ascii "vt100"),
      ¬ e.sequence <+: controlHIo.buffered := by
    decide +kernel
  have hcaret : charEvent (character referencePlatform controlHIo.unread).2 = .text [94, 72] := by
    decide +kernel
  obtain ⟨root, hroot, hok⟩ := Run.map_eq_ok.mp hok
  obtain ⟨hsuffices, hread⟩ := of_decide_eq_true hok
  obtain ⟨⟨type, buffer, s'⟩, hread, hevent⟩ := Run.map_eq_ok.mp hread
  refine ⟨by decide +kernel, root, type, buffer, s', hroot, hsuffices, hread, hevent,
    fun taken htakes => ?_⟩
  have hchar := (htakes.char hnone).2.1
  rw [hcaret, hevent] at hchar
  cases hchar

end Nanorl
