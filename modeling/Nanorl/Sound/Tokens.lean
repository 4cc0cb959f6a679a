import Nanorl.Sound.DfaParse
import Nanorl.Sound.Reader

/-!
# Nanorl.Sound.Tokens

`nrl_io_read` against a tokeniser of plain streams.

`token` takes one event off an endless stream: a sequence of the tree, or else one
character. `nrlIoRead_clean` says that a reader between two tokens returns just
this event and is left with the rest of the stream, provided the step is `Clean`:
no refill falls into a token that is given up afterwards.
-/

namespace Nanorl

open PrefixCode (Begins Unfinished Within within_of_head)
open DfaNode (leafAt)

/-! ### Events -/

/-- What a caller of `nrl_io_read` learns, without the `more` flag. -/
inductive IoEvent
  | text (text : List Uchar)
  | escape (id : Nat)
  | custom (id : Nat)
  | stop (eof : Bool)
  deriving Repr, DecidableEq

/-- The event in a buffer, by the type of input. -/
def eventOf : InputType → InputBuf → IoEvent
  | .text, buffer => .text buffer.text
  | .escape, buffer => .escape buffer.escape.bits
  | .customEscape, buffer => .custom buffer.escape.bits
  | .stop, buffer => .stop buffer.eof

def IoEvent.isStop : IoEvent → Bool
  | .stop _ => true
  | _ => false

/-- What a character is shown as: itself, or a caret form. -/
def caretForm (uc : Uchar) : List Uchar :=
  if uc = 0x7f then [94, 63] else if uc ≥ 0x20 then [uc] else [94, uc + 0x40]

/-- The event of a code point. -/
def charEvent (uc : Uchar) : IoEvent :=
  if uc = 10 ∨ uc = charEot.toUInt32 then .stop (decide (uc = charEot.toUInt32))
  else .text (caretForm uc)

theorem classify_eq (uc : Uchar) (buffer : InputBuf) :
    classify uc buffer =
      if uc = 10 ∨ uc = charEot.toUInt32 then
        (.stop, { buffer with eof := decide (uc = charEot.toUInt32) })
      else (.text, { buffer with text := caretForm uc }) := by
  unfold classify
  by_cases hstop : uc = 10 ∨ uc = charEot.toUInt32
  · rw [if_pos hstop, if_pos hstop]
  · rw [if_neg hstop, if_neg hstop, nrlIoParseControl, caretForm]
    by_cases hdel : uc = 0x7f
    · simp only [if_pos hdel]
    · by_cases hprint : uc ≥ 0x20
      · simp only [if_neg hdel, if_pos hprint]
      · simp only [if_neg hdel, if_neg hprint]

theorem eventOf_classify (uc : Uchar) (buffer : InputBuf) :
    eventOf (classify uc buffer).1 (classify uc buffer).2 = charEvent uc := by
  rw [classify_eq, charEvent]
  split <;> rfl

/-! ### The tokeniser of a stream -/

section Token

variable (P : Platform)

/-- How many bytes `next_uchar` pulls for a character at the head of a stream. -/
def announced (a : Stream' Byte) : Nat := 1 + (P.utf8Inspect (a.get 0)).following

/-- The character at the head of a stream: the bytes it takes and its code point. -/
def character (a : Stream' Byte) : Nat × Uchar :=
  match P.utf8ParseUchar (ucharBuffer (a.take (announced P a))) with
  | (0, _) => (1, unicodeErrorChar)
  | (consumed + 1, uc) => (consumed + 1, uc)

/-- One event off a stream, and the rest of the stream. -/
def token (root : DfaNode) (a : Stream' Byte) : IoEvent × Stream' Byte :=
  match nrlDfaParse (pull a) root ⟨0⟩ 0 with
  | .ok (.input, accept, pulled) => (.escape accept.bits, a.drop pulled)
  | .ok (.custom, accept, pulled) => (.custom accept.bits, a.drop pulled)
  | _ => (charEvent (character P a).2, a.drop (character P a).1)

/-- `utf8_parse_uchar` takes nothing, or as many bytes as `utf8_inspect` has
announced. -/
def Platform.ConsumesAnnounced (P : Platform) : Prop :=
  ∀ a : Stream' Byte,
    (P.utf8ParseUchar (ucharBuffer (a.take (announced P a)))).1 = 0 ∨
      (P.utf8ParseUchar (ucharBuffer (a.take (announced P a)))).1 = announced P a

/-- No refill falls into a token that is given up: if the buffered bytes run out
while they still can become a sequence, they do become one, and if they run out
within a character, it is well formed. A lone byte before the refill may be
given up, since it is the one that is dropped then. -/
def Io.Clean (W : Set (List Byte)) (s : Io) : Prop :=
  (Unfinished W s.supply.1 → ∃ w ∈ W, Begins w s.unread) ∧
  ((∀ w ∈ W, ¬ Begins w s.unread) →
    announced P s.unread ≤ s.supply.1.length ∨
    (P.utf8ParseUchar (ucharBuffer (s.unread.take (announced P s.unread)))).1 ≠ 0 ∨
    (s.supply.1.length = 1 ∧
      announced P s.unread ≤ 1 + (s.supply.2.next (ioBufSize - 1)).1.length))

theorem announced_le (a : Stream' Byte) : announced P a ≤ 4 := by
  unfold announced
  cases P.utf8Inspect (a.get 0) <;> simp [Utf8Info.following]

theorem announced_pos (a : Stream' Byte) : 0 < announced P a := by
  unfold announced
  omega

/-! ### Looking ahead -/

/-- `s'` has looked at `k` entries of the stream since `s`, whose buffer was not
empty: within the buffer nothing else has changed, and the first refill costs as
many slots as the buffer had. -/
structure LookedAt (a : Stream' Byte) (s : Io) (k : Nat) (s' : Io) : Prop where
  from_ : s.ReadsFrom s'
  pulled : ∃ c, Pulled a k c s'
  inside : s.rdUsed + k ≤ s.rdCount → s' = { s with rdPending := k } ∧ Pulled a k 0 s'
  refilled : s.rdCount < s.rdUsed + k →
    k ≤ s.rdCount - s.rdUsed + (s.source.next (ioBufSize - (s.rdCount - s.rdUsed))).1.length →
    Pulled a k (s.rdCount - s.rdUsed) s' ∧ s'.rdUsed = 0 ∧
      s'.rdCount = s.rdCount - s.rdUsed +
        (s.source.next (ioBufSize - (s.rdCount - s.rdUsed))).1.length

variable {a : Stream' Byte} {s : Io}

theorem LookedAt.start (h : Ready a s) : LookedAt a s 0 s := by
  have hp := h.pending
  refine ⟨.refl s, ⟨0, h⟩, fun _ => ⟨?_, h⟩, fun hlt => ?_⟩
  · rw [← hp]
  · have := h.used_le
    omega

/-- Any pull in the middle of a token. -/
theorem Pulled.nextChar_pos {k c : Nat} {s : Io} (h : Pulled a k c s) (hpos : 0 < k)
    (hk : k < ioBufSize) :
    ∃ s' c', nextChar P s = .ok (a.get k, s') ∧ Pulled a (k + 1) c' s' ∧ s.ReadsFrom s' := by
  by_cases hlt : s.rdUsed + k < s.rdCount
  · obtain ⟨hnext, hpulled⟩ := h.within P hlt
    exact ⟨_, c, hnext, hpulled, rfl, rfl, rfl, rfl, rfl, id, .refl _⟩
  · have hreach : s.rdUsed + k = s.rdCount := Nat.le_antisymm h.used_le (Nat.le_of_not_lt hlt)
    obtain ⟨s', data, src, -, hnext, hpulled, hfrom, -, -⟩ := h.nextChar_refill P hpos hk hreach
    exact ⟨s', k, hnext, hpulled, hfrom⟩

/-- One pull of a look-ahead. -/
theorem LookedAt.step (hlt : s.rdUsed < s.rdCount) {k : Nat} {s' : Io}
    (hk : k < ioBufSize) (h : LookedAt a s k s') :
    ∃ s'', nextChar P s' = .ok (a.get k, s'') ∧ LookedAt a s (k + 1) s'' := by
  by_cases hin : s.rdUsed + k < s.rdCount
  · obtain ⟨rfl, hpulled⟩ := h.inside (Nat.le_of_lt hin)
    obtain ⟨hnext, hpulled'⟩ := hpulled.within P hin
    refine ⟨_, hnext, ⟨rfl, rfl, rfl, rfl, rfl, id, .refl _⟩, ⟨0, hpulled'⟩, fun _ => ⟨rfl, hpulled'⟩,
      fun hout => ?_⟩
    omega
  · by_cases hreach : s.rdUsed + k = s.rdCount
    · -- the refill
      obtain ⟨rfl, hpulled⟩ := h.inside (Nat.le_of_eq hreach)
      obtain ⟨s'', data, src, hsrc, hnext, hpulled', hfrom, hused, hcount⟩ :=
        hpulled.nextChar_refill P (by omega) hk hreach
      have hbytes : s.rdCount - s.rdUsed = k := by omega
      refine ⟨s'', hnext, h.from_.trans hfrom, ⟨k, hpulled'⟩, fun hle => by omega, fun _ _ => ?_⟩
      rw [hbytes]
      refine ⟨hpulled', hused, ?_⟩
      rw [hcount]
      exact congrArg (fun r : List Byte × Source => k + r.1.length) hsrc.symm
    · obtain ⟨c, hpulled⟩ := h.pulled
      obtain ⟨s'', c', hnext, hpulled', hfrom⟩ := hpulled.nextChar_pos P (by omega) hk
      refine ⟨s'', hnext, h.from_.trans hfrom, ⟨c', hpulled'⟩, fun hle => by omega, fun hout hle => ?_⟩
      -- still behind the first refill
      obtain ⟨hfirst, hused, hcount⟩ := h.refilled (by omega) (by omega)
      obtain ⟨hnext', hfirst'⟩ := hfirst.within P (by omega)
      obtain rfl : s'' = { s' with rdPending := k + 1 } :=
        congrArg Prod.snd (Except.ok.inj (hnext.symm.trans hnext'))
      exact ⟨hfirst', hused, hcount⟩

theorem nextChars_lookedAt (hlt : s.rdUsed < s.rdCount) :
    ∀ (n k : Nat) (s' : Io), k + n ≤ ioBufSize → LookedAt a s k s' →
      ∃ s'', nextChars P n s' = .ok ((a.drop k).take n, s'') ∧ LookedAt a s (k + n) s'' := by
  intro n
  induction n with
  | zero => intro k s' _ h; exact ⟨s', rfl, h⟩
  | succ n ih =>
    intro k s' hk h
    obtain ⟨s₁, hnext, h₁⟩ := h.step P hlt (by omega)
    obtain ⟨s₂, hrest, h₂⟩ := ih (k + 1) s₁ (by omega) h₁
    refine ⟨s₂, ?_, (by omega : k + 1 + n = k + (n + 1)) ▸ h₂⟩
    rw [nextChars, hnext, Run.ok_bind]
    dsimp only
    rw [hrest, Run.ok_bind, Stream'.take_succ, Stream'.head_drop, Stream'.tail_drop']
    rfl

/-- Accepting or dropping the first `j` pending characters. -/
theorem Pulled.consume {k c j : Nat} (h : Pulled a k c s) (hc : c ≤ j ∨ j = k) (hj : j ≤ k) :
    Ready (a.drop j) { s with rdUsed := s.rdUsed + j, rdPending := 0 } := by
  have hused := h.used_le
  refine ⟨h.readFile, rfl, h.count_le, by dsimp only; omega, fun hp => ?_,
    fun i _ hi => absurd hi (Nat.not_lt_zero i), ?_⟩
  · have := h.preload hp
    dsimp only
    omega
  · rw [Stream'.drop_zero, ← Stream'.drop_zero (s := a.drop j)]
    refine rest_of_slots (fun i _ hi => ?_) (by dsimp only; omega) ?_
    · dsimp only at hi ⊢
      rw [Stream'.get_drop, Nat.add_assoc]
      by_cases hik : j + i < k
      · refine h.slots (j + i) ?_ hik
        omega
      · exact h.slot (by omega) (by omega)
    · have hsource := h.source_stream
      dsimp only
      rw [Stream'.drop_drop, (by omega : j + (s.rdCount - (s.rdUsed + j)) = s.rdCount - s.rdUsed)]
      exact hsource

/-! ### Characters -/

theorem nextUchar_filled {s s₁ : Io} (hnext : nextChar P s = nextChar P s₁) :
    nextUchar P s = nextUchar P s₁ := by
  rw [nextUchar, nextUchar, hnext]

theorem character_of_parse {consumed : Nat} {uc : Uchar}
    (hparse : P.utf8ParseUchar (ucharBuffer (a.take (announced P a))) = (consumed, uc)) :
    character P a = if consumed = 0 then (1, unicodeErrorChar) else (consumed, uc) := by
  rw [character, hparse]
  cases consumed <;> rfl

/-- `next_uchar` takes one character off the stream. A malformed one needs its
bytes in the buffer, or only its first byte. -/
theorem nextUchar_spec (hlaw : P.ConsumesAnnounced) (h : Ready a s)
    (hclean : announced P a ≤ s.supply.1.length ∨
      (P.utf8ParseUchar (ucharBuffer (a.take (announced P a)))).1 ≠ 0 ∨
      (s.supply.1.length = 1 ∧
        announced P a ≤ 1 + (s.supply.2.next (ioBufSize - 1)).1.length)) :
    ∃ s', nextUchar P s = .ok ((character P a).2, s') ∧ Ready (a.drop (character P a).1) s' ∧
      s.ReadsFrom s' := by
  obtain ⟨s₁, hfill, hready, hlt, hsup, hfrom⟩ := h.filled P
  rw [nextUchar_filled P (nextChar_filled P hfill hready.pending hlt)]
  rw [← hsup, Io.supply, if_pos hlt] at hclean
  simp only [length_slice] at hclean
  obtain ⟨s₂, hlead, h₂⟩ := (LookedAt.start hready).step P hlt ioBufSize_pos
  have hpos := announced_pos P a
  have hfour := announced_le P a
  obtain ⟨s₃, hrest, h₃⟩ := nextChars_lookedAt P hlt (announced P a - 1) 1 s₂
    (by unfold ioBufSize; omega) h₂
  rw [(by omega : 1 + (announced P a - 1) = announced P a)] at h₃
  -- the lead byte and those behind it make up the announced ones
  have hbytes : a.get 0 :: (a.drop 1).take (announced P a - 1) = a.take (announced P a) := by
    obtain ⟨n, hn⟩ : ∃ n, announced P a = n + 1 := ⟨announced P a - 1, by omega⟩
    rw [hn, Stream'.take_succ, Nat.add_sub_cancel]
    rfl
  have hfollowing : (P.utf8Inspect (a.get 0)).following = announced P a - 1 := by
    unfold announced
    omega
  rcases hparse : P.utf8ParseUchar (ucharBuffer (a.take (announced P a))) with ⟨consumed, uc⟩
  have hlawa := hlaw a
  rw [hparse] at hclean hlawa
  have hread : nextUchar P s₁ = .ok ((character P a).2,
      { s₃ with rdUsed := s₃.rdUsed + (character P a).1, rdPending := 0 }) := by
    rw [character_of_parse P hparse]
    simp only [nextUchar, hlead, Run.ok_bind, hfollowing, hrest, hbytes, hparse]
    by_cases h0 : consumed = 0
    · rw [if_pos h0, if_pos h0]
      rfl
    · rw [if_neg h0, if_neg h0]
      rfl
  refine ⟨_, hread, ?_, ?_⟩
  · rw [character_of_parse P hparse]
    by_cases h0 : consumed = 0
    · -- one byte is dropped, so the slots behind it have to be right
      rw [if_pos h0]
      by_cases hin : s₁.rdUsed + announced P a ≤ s₁.rdCount
      · exact (h₃.inside hin).2.consume (Or.inl (Nat.zero_le 1)) hpos
      · rcases hclean with hle | hne | ⟨hone, hle⟩
        · omega
        · exact absurd h0 hne
        · have hrefilled := (h₃.refilled (by omega) (by rw [hone]; exact hle)).1
          rw [hone] at hrefilled
          exact hrefilled.consume (Or.inl (Nat.le_refl 1)) hpos
    · rw [if_neg h0]
      obtain ⟨c, hpulled⟩ := h₃.pulled
      have hall : consumed = announced P a := hlawa.resolve_left h0
      exact hpulled.consume (Or.inr hall) (Nat.le_of_eq hall)
  · exact hfrom.trans (h₃.from_.trans ⟨rfl, rfl, rfl, rfl, rfl, id, .refl _⟩)

/-! ### One event -/

section Tree

variable {W : Set (List Byte)} {root : DfaNode}

/-- The event of an accepted sequence. -/
def keyEvent (custom : Bool) (accept : DfaAcceptor) : IoEvent :=
  if custom then .custom accept.bits else .escape accept.bits

theorem token_of_leaf (hT : TreeOf W root) (hlen : Within W a ioBufSize) {w : List Byte}
    (hb : Begins w a) {c : Bool} {v : DfaAcceptor} (hleaf : leafAt w root = some (c, v)) :
    token P root a = (keyEvent c v, a.drop w.length) := by
  have hw : w ∈ W := hT.mem_of_leafAt hleaf
  rcases nrlDfaParse_pull hT hlen ⟨0⟩ with
    ⟨hempty, -⟩ | ⟨w', c', v', hb', hleaf', hparse⟩ | ⟨n, -, -, hnone, -⟩
  · rw [hempty] at hw
    exact absurd hw (Set.notMem_empty w)
  · have hw' : w' ∈ W := hT.mem_of_leafAt hleaf'
    obtain rfl := hT.prefixFree.unique hw hw' hb hb'
    obtain ⟨rfl, rfl⟩ : c = c' ∧ v = v' := by simpa using hleaf.symm.trans hleaf'
    rw [token, hparse]
    cases c <;> rfl
  · exact absurd hb (hnone w hw)

theorem token_of_none (hT : TreeOf W root) (hlen : Within W a ioBufSize)
    (hnone : ∀ w ∈ W, ¬ Begins w a) :
    token P root a = (charEvent (character P a).2, a.drop (character P a).1) := by
  rcases nrlDfaParse_pull hT hlen ⟨0⟩ with
    ⟨-, hparse⟩ | ⟨w, c, v, hb, hleaf, -⟩ | ⟨n, -, -, -, hparse⟩
  · rw [token, hparse]
  · refine absurd hb (hnone w ?_)
    rw [← hT.leaf_iff, ← DfaNode.leafAt_isSome, hleaf]
    rfl
  · rw [token, hparse]

theorem fillUnparsed_eq (h : Ready a s) : fillUnparsed P s = fillBuffer P s := by
  have hp := h.pending
  by_cases hempty : s.rdCount = s.rdUsed
  · rw [fillUnparsed, if_pos hempty, fillBuffer, if_pos hempty.symm,
      readWrapper_spec P h.readFile ioBufSize_pos (by omega),
      readWrapper_spec P (s := { s with rdUsed := 0, rdPending := 0 }) h.readFile ioBufSize_pos
        (by omega), Run.ok_bind, Run.ok_bind, ← hp]
    rfl
  · rw [fillUnparsed, if_neg hempty, fillBuffer, if_neg (fun h => hempty h.symm)]

/-- `s'` is what one event leaves of a reader with stream `a`. -/
structure TakesEvent (root : DfaNode) (a : Stream' Byte) (s : Io) (type : InputType)
    (buffer : InputBuf) (s' : Io) : Prop where
  event : eventOf type buffer = (token P root a).1
  ready : Ready (token P root a).2 s'
  more : buffer.more = decide (s'.rdUsed < s'.rdCount)
  from_ : s.ReadsFrom s'

/-- `nrl_io_read` behind a parse that has found nothing and a rewind to `s₂`. -/
theorem nrlIoRead_char (hlaw : P.ConsumesAnnounced) (hT : TreeOf W root)
    (hlen : Within W a ioBufSize) (hready : Ready a s) (hclean : s.Clean P W)
    (hnone : ∀ w ∈ W, ¬ Begins w a) {buffer : InputBuf} {escape : DfaAcceptor} {s₀ s₁ s₂ : Io}
    (hparse : nrlDfaParse (nextChar P) root buffer.escape s = .ok (.empty, escape, s₀))
    (hfill : fillUnparsed P s₀ = .ok s₁) (hrewind : { s₁ with rdPending := 0 } = s₂)
    (h : Ready a s₂) (hsup : s₂.supply = s.supply) (hfrom : s.ReadsFrom s₂) :
    ∃ type buffer' s', nrlIoRead P root buffer s = .ok (type, buffer', s') ∧
      TakesEvent P root a s type buffer' s' := by
  have hcleanChar := hclean.2
  rw [hready.unread_eq, ← hsup] at hcleanChar
  obtain ⟨s', hread, hready', hfrom'⟩ := nextUchar_spec P hlaw h (hcleanChar hnone)
  have hresult : nrlIoRead P root buffer s =
      .ok ((classify (character P a).2
          { buffer with escape, more := decide (s'.rdUsed < s'.rdCount) }).1,
        (classify (character P a).2
          { buffer with escape, more := decide (s'.rdUsed < s'.rdCount) }).2, s') := by
    simp only [nrlIoRead, hparse, Run.ok_bind, ne_eq, not_true_eq_false, if_false, hfill, hrewind,
      hread]
    rfl
  refine ⟨_, _, s', hresult, ?_, ?_, ?_, hfrom.trans hfrom'⟩
  · rw [eventOf_classify, token_of_none P hT hlen hnone]
  · rw [token_of_none P hT hlen hnone]
    exact hready'
  · rw [classify_eq]
    split <;> rfl

/-- The supply of a token is the stream's next bytes, one at least. -/
theorem Ready.supply_eq (h : Ready a s) : ∃ b > 0, s.supply.1 = a.take b := by
  by_cases hlt : s.rdUsed < s.rdCount
  · refine ⟨s.rdCount - s.rdUsed, by omega, ?_⟩
    rw [Io.supply, if_pos hlt, ← h.unread_eq, Io.unread,
      Stream'.take_append_of_le_length _ _ _ (by rw [length_slice]),
      List.take_of_length_le (by simp)]
  · have hempty : s.rdUsed = s.rdCount := Nat.le_antisymm h.used_le (Nat.le_of_not_lt hlt)
    have hstream : s.source.stream = a := by
      rw [h.source_stream, hempty, Nat.sub_self, Stream'.drop_zero]
    refine ⟨s.source.fill.1.length, List.length_pos_iff.mpr s.source.fill_ne_nil, ?_⟩
    rw [Io.supply_of_empty hempty, ← hstream, ← s.source.fill_stream,
      Stream'.take_append_of_le_length _ _ _ (Nat.le_refl _), List.take_length]

/-- A look-ahead that ran past the buffered bytes left them unfinished. -/
theorem unfinished_supply {n : Nat} (h : Ready a s) (hout : s.supply.1.length ≤ n)
    (hopen : Unfinished W (a.take n)) : Unfinished W s.supply.1 := by
  obtain ⟨b, -, hbytes⟩ := h.supply_eq
  rw [hbytes, Stream'.length_take] at hout
  obtain ⟨w, hw, hp, hne⟩ := hopen
  have hpre := (PrefixCode.take_prefix_take a hout).trans hp
  refine ⟨w, hw, hbytes ▸ hpre, fun heq => hne (hp.eq_of_length_le ?_)⟩
  rw [← heq, hbytes, Stream'.length_take, Stream'.length_take]
  exact hout

/-- **One `nrl_io_read` takes one event off the stream.** -/
theorem nrlIoRead_clean (hlaw : P.ConsumesAnnounced) (hT : TreeOf W root)
    (hlen : Within W a ioBufSize) (h : Ready a s) (hclean : s.Clean P W)
    (buffer : InputBuf) :
    ∃ type buffer' s', nrlIoRead P root buffer s = .ok (type, buffer', s') ∧
      TakesEvent P root a s type buffer' s' := by
  by_cases hW : W = ∅
  · -- an empty tree: the parser pulls nothing
    have hparse : nrlDfaParse (nextChar P) root buffer.escape s = .ok (.empty, buffer.escape, s) := by
      rw [nrlDfaParse, if_pos (hT.childrenCount_eq_zero.mpr hW)]
    obtain ⟨s₁, hfill, hready, hsup, hfrom, -⟩ := h.fillBuffer P
    have hrewind : { s₁ with rdPending := 0 } = s₁ := by rw [← hready.pending]
    exact nrlIoRead_char P hlaw hT hlen h hclean (by simp [hW]) hparse
      ((fillUnparsed_eq P h).trans hfill) hrewind hready hsup hfrom
  · have h0 : root.childrenCount ≠ 0 := fun h0 => hW (hT.childrenCount_eq_zero.mp h0)
    obtain ⟨s₁, hfill, hready, hlt, hsup, hfrom⟩ := h.filled P
    have hsame : nrlDfaParse (nextChar P) root buffer.escape s =
        nrlDfaParse (nextChar P) root buffer.escape s₁ := by
      rw [nrlDfaParse, nrlDfaParse, if_neg h0, if_neg h0]
      cases root with
      | accept => exact absurd rfl h0
      | children e c nodes =>
        rw [DfaNode.parse, DfaNode.parse, nextChar_filled P hfill hready.pending hlt]
    rcases nrlDfaParse_spec hT hlen (fun k s' hk hR => hR.step P hlt hk) buffer.escape
      (LookedAt.start hready) with
      ⟨hempty, -⟩ | ⟨n, s', hlooked, hopen, ⟨c, v, hleaf, hparse⟩ | ⟨hdead, hparse⟩⟩
    · exact absurd hempty hW
    · -- a sequence has been read
      obtain ⟨clobbered, hpulled⟩ := hlooked.pulled
      have htoken := token_of_leaf P hT hlen (PrefixCode.begins_take (n + 1) a) hleaf
      rw [Stream'.length_take] at htoken
      have hresult : nrlIoRead P root buffer s =
          .ok (if c then .customEscape else .escape,
            { buffer with escape := v, more := decide (s'.rdUsed + (n + 1) < s'.rdCount) },
            { s' with rdUsed := s'.rdUsed + (n + 1), rdPending := 0 }) := by
        simp only [nrlIoRead, hsame, hparse, Run.ok_bind, hpulled.pending]
        cases c <;> rfl
      refine ⟨_, _, _, hresult, ?_, ?_, rfl, ?_⟩
      · rw [htoken]
        cases c <;> rfl
      · rw [htoken]
        exact hpulled.consume (Or.inr rfl) (Nat.le_refl _)
      · exact hfrom.trans (hlooked.from_.trans ⟨rfl, rfl, rfl, rfl, rfl, id, .refl _⟩)
    · -- the look-ahead is given up, within the buffer
      have hnone := hT.prefixFree.none_begins hopen hdead
      have hin : s₁.rdUsed + (n + 1) ≤ s₁.rdCount := by
        by_contra hout
        -- the look-ahead went past the batch, which ends inside a sequence then
        have hbytes : s₁.supply.1.length ≤ n := by
          rw [Io.supply, if_pos hlt, length_slice]
          omega
        have hunfinished := unfinished_supply hready hbytes hopen
        rw [hsup] at hunfinished
        obtain ⟨w, hw, hb⟩ := hclean.1 hunfinished
        rw [h.unread_eq] at hb
        exact hnone w hw hb
      obtain ⟨rfl, -⟩ := hlooked.inside hin
      have hrewind : { { s₁ with rdPending := n + 1 } with rdPending := 0 } = s₁ := by
        rw [← hready.pending]
      exact nrlIoRead_char P hlaw hT hlen h hclean hnone (hsame.trans hparse)
        (by rw [fillUnparsed, if_neg (by dsimp only; omega)]) hrewind hready hsup hfrom

/-! ### Characters within the bytes at hand -/

/-- The bytes at hand do not break off within a sequence. -/
def Io.Uncut (W : Set (List Byte)) (s : Io) : Prop := ¬ Unfinished W s.supply.1

/-- The look-ahead ends within the bytes at hand. -/
theorem Io.Uncut.within {s : Io} (huncut : s.Uncut W) (h : Ready a s) : Within W a ioBufSize := by
  have hlength : s.supply.1.length ≤ ioBufSize := by
    rw [Io.supply]
    split
    · exact (length_slice _ _ _).trans_le ((Nat.sub_le _ _).trans h.count_le)
    · exact s.source.fill_length_le
  intro k hopen
  by_contra hk
  exact huncut (unfinished_supply h (by omega) hopen)

/-- Where no key starts with the next byte, none is begun. -/
theorem uncut_of_head {s : Io} (h : Ready a s) (hhead : ∀ w ∈ W, w.head? ≠ some a.head) : s.Uncut W := by
  intro hopen
  obtain ⟨b, hb, hsup⟩ := h.supply_eq
  obtain ⟨n, rfl⟩ : ∃ n, b = n + 1 := ⟨b - 1, by omega⟩
  obtain ⟨w, hw, ⟨rest, rfl⟩, -⟩ := hopen
  rw [hsup] at hw
  exact absurd rfl (hhead _ hw)

theorem not_begins_of_head (hnil : [] ∉ W) (hhead : ∀ w ∈ W, w.head? ≠ some a.head) :
    ∀ w ∈ W, ¬ Begins w a := by
  intro w hw hb
  cases w with
  | nil => exact hnil hw
  | cons b w => exact hhead _ hw (congrArg some (PrefixCode.begins_cons.mp hb).1.symm)

/-- **One character, one event**, if no key matches, the bytes at hand do not break off within
one, and the character is well formed. -/
theorem nrlIoRead_character (hlaw : P.ConsumesAnnounced) (hT : TreeOf W root)
    {s : Io} (h : Ready a s) (hnone : ∀ w ∈ W, ¬ Begins w a) (huncut : s.Uncut W) {consumed : Nat}
    {uc : Uchar} (hparse : P.utf8ParseUchar (ucharBuffer (a.take (announced P a))) = (consumed, uc))
    (hpos : consumed ≠ 0) (buffer : InputBuf) :
    ∃ type buffer' s', nrlIoRead P root buffer s = .ok (type, buffer', s') ∧
      eventOf type buffer' = charEvent uc ∧ Ready (a.drop consumed) s' ∧ s.ReadsFrom s' := by
  have hwithin := huncut.within h
  have hclean : s.Clean P W :=
    ⟨fun hopen => absurd hopen huncut, fun _ => .inr (.inl (by rw [h.unread_eq, hparse]; exact hpos))⟩
  obtain ⟨type, buffer', s', hread, htakes⟩ := nrlIoRead_clean P hlaw hT hwithin h hclean buffer
  have hchar : character P a = (consumed, uc) := by
    rw [character_of_parse P hparse, if_neg hpos]
  have htoken := token_of_none P hT hwithin hnone
  rw [hchar] at htoken
  refine ⟨type, buffer', s', hread, ?_, ?_, htakes.from_⟩
  · rw [htakes.event, htoken]
  · have hready := htakes.ready
    rwa [htoken] at hready

end Tree

end Token

end Nanorl
