import Nanorl.Sound.AtHand
import Nanorl.Sound.Chunks
import Nanorl.Sound.Loop
import Nanorl.Sound.Text

/-!
# Nanorl.Sound.Keystrokes

What a user types, and what `nrl_io_read` makes of it.

A `Keystroke` is a printable character, a control character that belongs to no key, a byte
that begins no character, or a key of the terminal. `nrlIoRead_keystroke` is the step lemma:
one call takes one keystroke off the stream, returns its event, and does not ask for more
input than the keystroke has.
-/

namespace Nanorl

open PrefixCode (Begins Unfinished PrefixFree Within begins_append begins_take within_of_head)
open DfaNode (leafAt)

/-- What a user types. -/
inductive Keystroke
  | char (c : Char)
  | control (b : Byte)
  | stray (b : Byte)
  | key (entry : DfaEntry)
  deriving Repr, DecidableEq

namespace Keystroke

/-- What the terminal sends. -/
def bytes : Keystroke → List Byte
  | char c => String.utf8EncodeChar c
  | control b => [b]
  | stray b => [b]
  | key entry => entry.sequence

/-- What the loop of `nanorl` is to learn of it. -/
def event : Keystroke → IoEvent
  | char c => .text [c.val]
  | control b => .text (caretForm b.toUInt32)
  | stray _ => .text [unicodeErrorChar]
  | key entry => keyEvent entry.custom entry.accept

/-- The keystroke is what it is said to be on a terminal with these keys. -/
def Typable (P : Platform) (keys : List DfaEntry) : Keystroke → Prop
  | char c => Printable c ∧ Unclaimed (sequences keys) [c]
  | control b => (b < 0x20 ∨ b = 0x7f) ∧ b ≠ 10 ∧ b ≠ charEot ∧
      ∀ w ∈ sequences keys, w.head? ≠ some b
  | stray b => (P.utf8Inspect b).following = 0 ∧ (P.utf8ParseUchar (ucharBuffer [b])).1 = 0 ∧
      ∀ w ∈ sequences keys, w.head? ≠ some b
  | key entry => entry ∈ keys ∧ entry.sequence.length ≤ ioBufSize

instance (P : Platform) (keys : List DfaEntry) : DecidablePred (Typable P keys)
  | char _ => inferInstanceAs (Decidable (_ ∧ _))
  | control _ => inferInstanceAs (Decidable (_ ∧ _ ∧ _ ∧ ∀ w ∈ sequences keys, _))
  | stray _ => inferInstanceAs (Decidable (_ ∧ _ ∧ ∀ w ∈ sequences keys, _))
  | key _ => inferInstanceAs (Decidable (_ ∧ _))

end Keystroke

/-- The tree has these keys of the description, each with its own acceptor. -/
structure HasKeys (t : Terminfo) (keys : List DfaEntry) (root : DfaNode) : Prop where
  tree : TreeOf (sequences keys) root
  leaf : ∀ entry ∈ keys, leafAt entry.sequence root = some (entry.custom, entry.accept)
  custom : ∀ entry ∈ keys, entry.custom = true →
    nrlLookupCustom t entry.accept.bits = some entry.sequence

theorem hasKeys_none (t : Terminfo) : HasKeys t [] dfaRoot :=
  ⟨sequences_nil ▸ treeOf_empty, fun _ h => absurd h List.not_mem_nil, fun _ h => absurd h List.not_mem_nil⟩

/-- A table without ambiguities is read off its tree. -/
theorem hasKeys_build {t : Terminfo} (ht : t.Loadable) {envTerm : List Byte} (hu : t.Unambiguous envTerm)
    {root : DfaNode} (h : nrlDfaBuild t envTerm dfaRoot = .ok root) :
    HasKeys t (dfaEntries t envTerm) root := by
  refine ⟨nrlDfaBuild_treeOf ht h, fun entry hentry => nrlDfaBuild_leafAt ht hu h hentry,
    fun entry hentry hcustom => ?_⟩
  rcases mem_dfaEntries.mp hentry with ⟨_, -, -, -, hflag⟩ | ⟨-, rfl⟩ | ⟨i, -, hlookup, haccept, -⟩
  · exact absurd (hflag.symm.trans hcustom) Bool.false_ne_true
  · exact absurd hcustom Bool.false_ne_true
  · rw [haccept]
    exact hlookup

section Read

variable {P : Platform} {W : Set (List Byte)} {root : DfaNode} {a : Stream' Byte} {s : Io}

/-- Where no key starts with the next byte, the parser looks at it and gives it back, and
what is read is a character. -/
theorem nrlIoRead_unclaimed (hT : TreeOf W root) (h : Ready a s) (hhead : ∀ w ∈ W, w.head? ≠ some a.head)
    {buffer buffer' : InputBuf} {type : InputType} {s' : Io}
    (hread : nrlIoRead P root buffer s = .ok (type, buffer', s')) :
    ∃ s₁ uc, Ready a s₁ ∧ nextUchar P s₁ = .ok (uc, s') ∧
      ∀ mark n, 0 < n → s.AtHand mark n → s₁.AtHand mark n := by
  have hpending := h.pending
  have hused := h.used_le
  by_cases hW : W = ∅
  · obtain ⟨s₁, hfill, hready, -⟩ := h.fillBuffer P
    have hrewind : { s₁ with rdPending := 0 } = s₁ := by rw [← hready.pending]
    rw [nrlIoRead, nrlDfaParse, if_pos (hT.childrenCount_eq_zero.mpr hW), Run.ok_bind] at hread
    dsimp only at hread
    rw [if_neg (by decide), (fillUnparsed_eq P h).trans hfill, Run.ok_bind, hrewind] at hread
    obtain ⟨⟨uc, s₂⟩, huchar, hread⟩ := Run.bind_eq_ok.mp hread
    obtain rfl : s₂ = s' := congrArg (fun r => r.2.2) (Except.ok.inj hread)
    exact ⟨s₁, uc, hready, huchar, fun mark n hn hhand =>
      (fillBuffer_atHand P (by omega) hhand (by omega) hfill).1⟩
  · have hcount : root.childrenCount ≠ 0 := fun h0 => hW (hT.childrenCount_eq_zero.mp h0)
    obtain ⟨s₁, hfilled, hready, hlt, -, -⟩ := h.filled P
    obtain ⟨s₀, hfill, hrefill⟩ := Run.bind_eq_ok.mp hfilled
    have hrewind : { s₁ with rdPending := 0 } = s₁ := by rw [← hready.pending]
    have hsame : nrlDfaParse (nextChar P) root buffer.escape s =
        nrlDfaParse (nextChar P) root buffer.escape s₁ := by
      rw [nrlDfaParse, nrlDfaParse, if_neg hcount, if_neg hcount]
      cases root with
      | accept => exact absurd rfl hcount
      | children e c nodes =>
        rw [DfaNode.parse, DfaNode.parse, nextChar_filled P hfilled hready.pending hlt]
    -- one byte is pulled within the buffer, and no key goes on with it
    have hparse : ∃ escape, nrlDfaParse (nextChar P) root buffer.escape s₁ =
        .ok (.empty, escape, { s₁ with rdPending := 1 }) := by
      have hnext : ∀ k s₂, k < 1 → s₂ = { s₁ with rdPending := k } →
          ∃ s₃, nextChar P s₂ = .ok (a.get k, s₃) ∧ s₃ = { s₁ with rdPending := k + 1 } := by
        intro k s₂ hk hs₂
        obtain rfl : k = 0 := by omega
        rw [hrewind] at hs₂
        subst hs₂
        exact ⟨_, (hready.within P hlt).1, rfl⟩
      rcases nrlDfaParse_spec hT (within_of_head Nat.one_pos hhead) hnext buffer.escape hrewind.symm with
        ⟨hempty, -⟩ | ⟨n, s₂, rfl, hopen, ⟨c, v, hleaf, -⟩ | ⟨-, hparse⟩⟩
      · exact absurd hempty hW
      · have hn := within_of_head Nat.one_pos hhead n hopen
        obtain rfl : n = 0 := by omega
        exact absurd rfl (hhead _ (hT.mem_of_leafAt hleaf))
      · have hn := within_of_head Nat.one_pos hhead n hopen
        obtain rfl : n = 0 := by omega
        exact ⟨_, hparse⟩
    obtain ⟨escape, hparse⟩ := hparse
    rw [nrlIoRead, hsame, hparse, Run.ok_bind] at hread
    dsimp only at hread
    rw [if_neg (by decide), fillUnparsed, if_neg (by dsimp only; omega), Run.ok_bind] at hread
    obtain ⟨⟨uc, s₂⟩, huchar, hread⟩ := Run.bind_eq_ok.mp hread
    obtain rfl : s₂ = s' := congrArg (fun r => r.2.2) (Except.ok.inj hread)
    refine ⟨s₁, uc, hready, ?_, fun mark n hn hhand => ?_⟩
    · rw [← hrewind]
      exact huchar
    · obtain ⟨hhand₀, hpending₀, -⟩ := fillBuffer_atHand P (by omega) hhand (by omega) hfill
      exact refillBuffer_atHand P (by rw [hpending₀, hpending]; exact ioBufSize_pos) hhand₀ (by omega) hrefill

/-- `s'` is what a keystroke of so many bytes leaves of a reader, and no byte behind it has
been asked for. -/
structure TakesKeystroke (event : IoEvent) (count : Nat) (a : Stream' Byte) (s : Io) (type : InputType)
    (buffer : InputBuf) (s' : Io) : Prop where
  event : eventOf type buffer = event
  ready : Ready a s'
  more : buffer.more = decide (s'.rdUsed < s'.rdCount)
  from_ : s.ReadsFrom s'
  atHand : ∀ mark n, count ≤ n → s.AtHand mark n → s'.AtHand mark (n - count)

/-- A character no key starts with, well formed or a single byte. -/
theorem nrlIoRead_point (hlaw : P.ConsumesAnnounced) (hT : TreeOf W root) (h : Ready a s)
    (hhead : ∀ w ∈ W, w.head? ≠ some a.head) {count : Nat} {uc : Uchar}
    (hchar : character P a = (count, uc)) (hcount : count = announced P a) (buffer : InputBuf) :
    ∃ type buffer' s', nrlIoRead P root buffer s = .ok (type, buffer', s') ∧
      TakesKeystroke (charEvent uc) count (a.drop count) s type buffer' s' := by
  have hpos := announced_pos P a
  have hclean : s.Clean P W := by
    obtain ⟨b, hb, hsupply⟩ := h.supply_eq
    refine ⟨fun hopen => ?_, fun _ => ?_⟩
    · obtain ⟨m, rfl⟩ : ∃ m, b = m + 1 := ⟨b - 1, by omega⟩
      obtain ⟨w, hw, ⟨rest, rfl⟩, -⟩ := hopen
      rw [hsupply] at hw
      exact absurd rfl (hhead _ hw)
    · rw [h.unread_eq]
      rcases hparse : P.utf8ParseUchar (ucharBuffer (a.take (announced P a))) with ⟨consumed, uc'⟩
      rw [character_of_parse P hparse] at hchar
      by_cases hzero : consumed = 0
      · rw [if_pos hzero] at hchar
        have hone := congrArg Prod.fst hchar
        refine .inl ?_
        rw [hsupply, Stream'.length_take]
        dsimp only at hone
        omega
      · exact .inr (.inl hzero)
  have hwithin := within_of_head ioBufSize_pos hhead
  obtain ⟨type, buffer', s', hread, htakes⟩ := nrlIoRead_clean P hlaw hT hwithin h hclean buffer
  have htoken := token_of_none P hT hwithin (not_begins_of_head hT.nil_not_mem hhead)
  rw [hchar] at htoken
  refine ⟨type, buffer', s', hread, ?_, ?_, htakes.more, htakes.from_, fun mark n hn hhand => ?_⟩
  · rw [htakes.event, htoken]
  · have hready := htakes.ready
    rwa [htoken] at hready
  · obtain ⟨s₁, uc', hready₁, huchar, hkeeps⟩ := nrlIoRead_unclaimed hT h hhead hread
    have hhand' := nextUchar_atHand P hlaw hready₁ (hkeeps mark n (by omega) hhand) (hcount ▸ hn) huchar
    rwa [hchar] at hhand'

/-- A key. The parser stops with its last byte. -/
theorem nrlIoRead_key (hlaw : P.ConsumesAnnounced) (hT : TreeOf W root) {w : List Byte}
    (hw : w.length ≤ ioBufSize) (h : Ready (w ++ₛ a) s) {custom : Bool} {accept : DfaAcceptor}
    (hleaf : leafAt w root = some (custom, accept)) (buffer : InputBuf) :
    ∃ type buffer' s', nrlIoRead P root buffer s = .ok (type, buffer', s') ∧
      TakesKeystroke (keyEvent custom accept) w.length a s type buffer' s' := by
  have hmem := hT.mem_of_leafAt hleaf
  have hbegins : Begins w (w ++ₛ a) := begins_append w a
  have hlen : Within W (w ++ₛ a) w.length := by
    intro k hopen
    by_contra hle
    obtain ⟨v, hv, hbefore, hne⟩ := hopen
    have hwv : w <+: v := (hbegins.prefix_take (Nat.le_of_not_lt hle)).trans hbefore
    obtain rfl := hT.prefixFree w hmem v hv hwv
    have htake := hbefore.length_le
    rw [Stream'.length_take] at htake
    exact hne (hbefore.eq_of_length_le (by rw [Stream'.length_take]; omega))
  have hbound : Within W (w ++ₛ a) ioBufSize := fun k hopen => (hlen k hopen).trans_le hw
  have hclean : s.Clean P W := by
    refine ⟨fun _ => ⟨w, hmem, ?_⟩, fun hnone => absurd ?_ (hnone w hmem)⟩ <;> rwa [h.unread_eq]
  obtain ⟨type, buffer', s', hread, htakes⟩ := nrlIoRead_clean P hlaw hT hbound h hclean buffer
  have htoken := token_of_leaf P hT hbound hbegins hleaf
  rw [Stream'.drop_append_stream] at htoken
  refine ⟨type, buffer', s', hread, ?_, ?_, htakes.more, htakes.from_, fun mark n hn hhand => ?_⟩
  · rw [htakes.event, htoken]
  · have hready := htakes.ready
    rwa [htoken] at hready
  · rcases nrlDfaParse_spec (R := fun k s => (∃ c, Pulled (w ++ₛ a) k c s) ∧ s.AtHand mark n) hT hlen
      (fun k s hk hR => by
        obtain ⟨⟨c, hpulled⟩, hhand⟩ := hR
        obtain ⟨s₁, c₁, hnext, hpulled₁, hhand₁⟩ :=
          hpulled.nextChar_atHand P hhand (hk.trans_le hw) (hk.trans_le hn)
        exact ⟨s₁, hnext, ⟨c₁, hpulled₁⟩, hhand₁⟩)
      buffer.escape ⟨⟨0, h⟩, hhand⟩ with
      ⟨hempty, -⟩ |
        ⟨m, s₁, ⟨⟨c, hpulled⟩, hhand₁⟩, hopen, ⟨flag, v, hleaf', hparse⟩ | ⟨hdead, -⟩⟩
    · rw [hempty] at hmem
      exact absurd hmem (Set.notMem_empty w)
    · have hlast := hT.prefixFree.unique (hT.mem_of_leafAt hleaf') hmem (begins_take (m + 1) _) hbegins
      have hcount := congrArg List.length hlast
      rw [Stream'.length_take] at hcount
      simp only [nrlIoRead, hparse, Run.ok_bind, hpulled.pending] at hread
      have hconsumed : s' = { s₁ with rdUsed := s₁.rdUsed + (m + 1), rdPending := 0 } := by
        cases flag
        all_goals exact (congrArg (fun r => r.2.2) (Except.ok.inj hread)).symm
      rw [hconsumed, ← hcount]
      exact hhand₁.consume (by omega)
    · exact absurd hbegins (hT.prefixFree.none_begins hopen hdead w hmem)

theorem character_ascii (hascii : P.AsciiLaw) {b : Byte} (hb : b < 0x80) :
    character P (Stream'.cons b a) = (1, b.toUInt32) := by
  obtain ⟨hannounced, hparse⟩ := hascii (Stream'.cons b a) hb
  rw [character, hannounced, show (Stream'.cons b a).take 1 = [b] from rfl,
    show P.utf8ParseUchar (ucharBuffer [b]) = _ from hparse]
  rfl

/-- **One keystroke, one event.** -/
theorem nrlIoRead_keystroke (hlaw : P.ConsumesAnnounced) (hutf8 : P.Utf8Laws) {t : Terminfo}
    {keys : List DfaEntry} (hkeys : HasKeys t keys root) {k : Keystroke} (hk : k.Typable P keys)
    (h : Ready (k.bytes ++ₛ a) s) (buffer : InputBuf) :
    ∃ type buffer' s', nrlIoRead P root buffer s = .ok (type, buffer', s') ∧
      TakesKeystroke k.event k.bytes.length a s type buffer' s' := by
  cases k with
  | char c =>
    obtain ⟨hprint, hunclaimed⟩ := hk
    have hsize : (String.utf8EncodeChar c).length = c.utf8Size := String.length_utf8EncodeChar c
    have hannounced : announced P (String.utf8EncodeChar c ++ₛ a) = c.utf8Size := hutf8.inspect c a
    have hchar : character P (String.utf8EncodeChar c ++ₛ a) = (c.utf8Size, c.val) := by
      have hparse : P.utf8ParseUchar (ucharBuffer ((String.utf8EncodeChar c ++ₛ a).take
          (announced P (String.utf8EncodeChar c ++ₛ a)))) = (c.utf8Size, c.val) := by
        rw [hannounced, ← hsize, Stream'.take_append_of_le_length _ _ _ (Nat.le_refl _), List.take_length,
          hutf8.parse c, hsize]
      rw [character_of_parse P hparse, if_neg (Nat.pos_iff_ne_zero.mp c.utf8Size_pos)]
    have hread := nrlIoRead_point hlaw hkeys.tree h hunclaimed.head hchar hannounced.symm buffer
    rw [charEvent_printable hprint, ← hsize] at hread
    rwa [show (Keystroke.char c).bytes ++ₛ a = String.utf8EncodeChar c ++ₛ a from rfl,
      Stream'.drop_append_stream] at hread
  | control b =>
    obtain ⟨hrange, hnl, heot, hhead⟩ := hk
    have hascii : b < 0x80 := by
      rcases hrange with hlt | rfl
      · exact UInt8.lt_trans hlt (by decide)
      · decide
    have hannounced := (hutf8.ascii (Stream'.cons b a) hascii).1
    have hevent : charEvent b.toUInt32 = .text (caretForm b.toUInt32) := by
      refine if_neg fun hstop => ?_
      rcases hstop with hstop | hstop
      · exact hnl (UInt8.toNat_inj.mp (congrArg UInt32.toNat hstop))
      · exact heot (UInt8.toNat_inj.mp (congrArg UInt32.toNat hstop))
    have hread := nrlIoRead_point (a := Stream'.cons b a) hlaw hkeys.tree h hhead
      (character_ascii hutf8.ascii hascii) hannounced.symm buffer
    rwa [hevent] at hread
  | stray b =>
    obtain ⟨hsingle, hmalformed, hhead⟩ := hk
    have hannounced : announced P (Stream'.cons b a) = 1 := by
      unfold announced
      exact congrArg (1 + ·) hsingle
    have hchar : character P (Stream'.cons b a) = (1, unicodeErrorChar) := by
      rw [character_of_parse P rfl, hannounced]
      exact if_pos hmalformed
    exact nrlIoRead_point (a := Stream'.cons b a) hlaw hkeys.tree h hhead hchar hannounced.symm buffer
  | key entry =>
    obtain ⟨hentry, hlength⟩ := hk
    exact nrlIoRead_key hlaw hkeys.tree hlength h (hkeys.leaf entry hentry) buffer

/-- The byte that ends a line. -/
theorem nrlIoRead_ending (hlaw : P.ConsumesAnnounced) (hutf8 : P.Utf8Laws) (hT : TreeOf W root) {b : Byte}
    (hb : b = 10 ∨ b = charEot) (hhead : ∀ w ∈ W, w.head? ≠ some b) (h : Ready (Stream'.cons b a) s)
    (buffer : InputBuf) :
    ∃ buffer' s', nrlIoRead P root buffer s = .ok (.stop, buffer', s') ∧
      buffer'.eof = decide (b = charEot) ∧ Ready a s' ∧ s.ReadsFrom s' ∧
      ∀ mark n, 0 < n → s.AtHand mark n → s'.AtHand mark (n - 1) := by
  have hascii : b < 0x80 := by
    rcases hb with rfl | rfl <;> decide
  have hannounced := (hutf8.ascii (Stream'.cons b a) hascii).1
  obtain ⟨type, buffer', s', hread, htakes⟩ := nrlIoRead_point (a := Stream'.cons b a) hlaw hT h hhead
    (character_ascii hutf8.ascii hascii) hannounced.symm buffer
  have hevent : eventOf type buffer' = .stop (decide (b = charEot)) := by
    rw [htakes.event]
    rcases hb with rfl | rfl <;> rfl
  cases type with
  | stop => exact ⟨buffer', s', hread, IoEvent.stop.inj hevent, htakes.ready, htakes.from_, htakes.atHand⟩
  | text => cases hevent
  | escape => cases hevent
  | customEscape => cases hevent

end Read

/-! ### Runs of keystrokes -/

/-- What a list of keystrokes sends. -/
def typedBytes (typed : List Keystroke) : List Byte := typed.flatMap Keystroke.bytes

theorem typedBytes_cons (k : Keystroke) (typed : List Keystroke) :
    typedBytes (k :: typed) = k.bytes ++ typedBytes typed := rfl

section Runs

variable {P : Platform} {t : Terminfo} {keys : List DfaEntry} {root : DfaNode} {a : Stream' Byte}

end Runs

/-- Where nothing is at hand, the reads up to the mark, the preload and the buffer are used up. -/
theorem Io.AtHand.none {mark : Mark} {s : Io} (h : s.AtHand mark 0) (hused : s.rdUsed ≤ s.rdCount) :
    s.world.reads = mark.reads ∧ s.world.errno = mark.errno ∧ s.rdUsed = s.rdCount ∧
      s.preloadData.getD [] = [] := by
  obtain ⟨m, ⟨front, hreads, herrno, hlength⟩, hcount⟩ := h
  obtain rfl : m = 0 := by omega
  have hpreload : (s.preloadData.getD []).length = 0 := by omega
  have hdelivered : (deliveredAll front).length = 0 := by omega
  cases front with
  | nil => exact ⟨hreads, herrno, by omega, List.eq_nil_of_length_eq_zero hpreload⟩
  | cons r front =>
    rw [deliveredAll_cons, List.length_append] at hdelivered
    exact absurd (List.eq_nil_of_length_eq_zero (by omega)) (delivered_ne_nil r)

/-- The keys of xterm. -/
abbrev xtermKeys : List DfaEntry := dfaEntries xtermTerminfo (ascii "xterm")

/-- The left key of xterm. -/
def xtermLeft : Keystroke := .key ⟨ascii "\x1bOD", ⟨0⟩, false⟩

end Nanorl
